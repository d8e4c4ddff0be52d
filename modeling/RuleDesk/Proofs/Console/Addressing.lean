import RuleDesk.Proofs.Command.Spelling
import RuleDesk.Proofs.Console.Subscriptions
import RuleDesk.Proofs.Rule.Names

/-!
# Rules and the lines that name them

Names of rules are asked for in a line, generated from the prefix of the configuration, or
made from such a name by suffixes. Whichever it is, a name is never empty and never one of
the words that `rules view` and `rules delete` keep for something else. And since all rules
of a session have distinct names and ids, the line that names a rule shows or deletes it.
-/
namespace RuleDesk

/-- A name that a line can give, and that has no other meaning there. -/
structure Usable (name : String) : Prop where
  nonempty : name ≠ ""
  notEvery : name ≠ everyRule
  notFlag : name ≠ idFlag

/-- A name can be used if its last characters end no reserved name. -/
theorem usable_append (stem : String) {suffix : String} (hne : suffix ≠ "")
    (hstar : '*' ∉ suffix.toList) (hflag : 'i' ∉ suffix.toList) : Usable (stem ++ suffix) := by
  have hsuffix : suffix.toList ≠ [] := by simpa using hne
  have hlast {name : String} (h : stem ++ suffix = name) :
      name.toList.getLast? = some (suffix.toList.getLast hsuffix) := by
    rw [← h, String.toList_append, List.getLast?_append, List.getLast?_eq_some_getLast hsuffix]
    rfl
  refine ⟨fun h => ?_, fun h => ?_, fun h => ?_⟩
  · exact nomatch hlast h
  · have hchar : '*' = suffix.toList.getLast hsuffix := Option.some.inj (hlast h)
    exact hstar (hchar ▸ List.getLast_mem hsuffix)
  · have hchar : 'i' = suffix.toList.getLast hsuffix := Option.some.inj (hlast h)
    exact hflag (hchar ▸ List.getLast_mem hsuffix)

theorem NewName.usable {name? : Option String} {name : String} (h : NewName name? name)
    (hasked : ∀ asked, name? = some asked → asked ≠ everyRule ∧ asked ≠ idFlag) :
    Usable name := by
  cases h with
  | asked hname hfilled => exact ⟨hfilled, (hasked name hname).1, (hasked name hname).2⟩
  | generated stem n =>
      have hdigit {c : Char} (hc : c ∈ (toString n).toList) : c.isDigit = true :=
        Nat.isDigit_of_mem_toDigits (b := 10) (n := n) (by decide) (by decide) (by simpa using hc)
      refine usable_append stem (by simp) (fun hstar => ?_) (fun hflag => ?_)
      · exact absurd (hdigit hstar) (by decide)
      · exact absurd (hdigit hflag) (by decide)
  | suffixed stem => exact usable_append stem (by decide) (by decide) (by decide)

namespace Session

variable {σ : Type} {s t : Session σ}

/-- All rules are told apart by names and ids, and all names can be used. -/
structure Addressable (s : Session σ) : Prop where
  distinct : s.rules.Distinct
  usable : ∀ name ∈ s.rules.names, Usable name

theorem addressable_new (config : Config) (store : σ) (workDir : String) :
    (Session.new config store workDir).Addressable :=
  ⟨⟨.nil, .nil, List.not_mem_nil⟩, fun _ hname => nomatch hname⟩

section
variable [RuleStore σ]

theorem Addressable.addRule (hs : s.Addressable) {name? tag? : Option String} {text : String}
    {rule : Rule} (h : (addRule name? text tag?).run s = .ok rule t) : t.Addressable := by
  have hasked := (addRule_eq_ok_iff.mp h).1
  obtain ⟨id, expression, tag, store, -, rfl⟩ := addRule_eq_ok h
  refine ⟨hs.distinct.insert name? id expression tag, fun name hname => ?_⟩
  rcases Rulebook.mem_names_insert hname with hold | hnew
  · exact hs.usable name hold
  · exact hnew.usable hasked

theorem Addressable.deleteRule (hs : s.Addressable) {name : String} {rule : Rule}
    (h : (deleteRule name).run s = .ok rule t) : t.Addressable := by
  obtain ⟨rules, hremoved, hcases⟩ := deleteRule_eq_ok h
  obtain ⟨before, after, hsplit, -, -, rfl⟩ := Rulebook.removeFirst?_eq_some_iff.mp hremoved
  have hkept : (before ++ after).Sublist s.rules.rules := by
    rw [hsplit]
    exact (List.sublist_cons_self rule after).append_left before
  have hnames : t.rules = { s.rules with rules := before ++ after } := by
    obtain ⟨-, rfl⟩ | ⟨id, store, -, -, rfl⟩ := hcases <;> rfl
  refine ⟨?_, fun name hname => ?_⟩
  · rw [hnames]
    exact hs.distinct.sublist hkept
  · rw [hnames] at hname
    exact hs.usable name ((hkept.map Rule.name).subset hname)

/-- Every change keeps the rules addressable. -/
theorem Addressable.change (hs : s.Addressable) (h : s.Change t) : t.Addressable := by
  cases h with
  | failed hfailed => cases hfailed <;> exact ⟨hs.distinct, hs.usable⟩
  | added hadd => exact hs.addRule hadd
  | deleted hdelete => exact hs.deleteRule hdelete
  | cleared hclear =>
      obtain ⟨store, rfl⟩ := deleteAllRules_eq_ok hclear
      exact ⟨hs.distinct.sublist (List.nil_sublist _), fun _ hname => nomatch hname⟩
  | synced hsync =>
      obtain ⟨listing, rfl⟩ := sync_eq_ok hsync
      refine ⟨hs.distinct.mergeEntries {} listing, fun name hname => ?_⟩
      rcases Rulebook.mem_names_mergeEntries hname with hold | hnew
      · exact hs.usable name hold
      · exact hnew.usable fun _ hasked => nomatch hasked
  | _ => exact ⟨hs.distinct, hs.usable⟩

theorem Reached.addressable (h : s.Reached) : s.Addressable :=
  h.of_change addressable_new fun hchange hs => hs.change hchange

end

variable {before after : List Rule} {rule : Rule}

theorem Addressable.byName? (hs : s.Addressable) (hrule : rule ∈ s.rules.rules) :
    s.rules.byName? rule.name = some rule :=
  find?_of_nodup_map hs.distinct.names hrule

theorem Addressable.byId? (hs : s.Addressable) (hrule : rule ∈ s.rules.rules) {id : RuleId}
    (hid : rule.id = some id) : s.rules.byId? id = some rule := by
  rw [Rulebook.byId?, ← hid]
  exact find?_of_nodup_map hs.distinct.ids hrule

/-- A rule that is found is shown with its name, its id, its filter and its tag. -/
theorem viewRule_eq_ok {args : Args} {name : String} (hname : args.require "name" = .ok name)
    (hfound : Console.findRule s name (args.get? "id") = .ok rule) {id : RuleId}
    (hid : rule.id = some id) :
    (Console.viewRule args).run s = .ok ("Rule '" ++ rule.name ++ "':\n\tID: " ++ id ++
      "\n\tfilter: " ++ rule.expression ++ "\n\ttag: " ++ rule.tag ++ "\n") s := by
  unfold Console.viewRule
  rw [run_lookup_bind hname, run_get_bind, run_lookup_bind hfound, Console.ruleText, hid]
  rfl

theorem Addressable.findRule_name (hs : s.Addressable) (hrule : rule ∈ s.rules.rules) :
    Console.findRule s rule.name none = .ok rule := by
  have hflag : rule.name ≠ idFlag := (hs.usable _ (List.mem_map_of_mem hrule)).notFlag
  simp only [Console.findRule, if_neg hflag, hs.byName? hrule]

theorem Addressable.findRule_id (hs : s.Addressable) (hrule : rule ∈ s.rules.rules)
    {id : RuleId} (hid : rule.id = some id) : Console.findRule s idFlag (some id) = .ok rule := by
  simp only [Console.findRule, if_pos, hs.byId? hrule hid]

/-- The rule that is deleted goes, and the others stay as they stand. -/
theorem Addressable.deleteRule_eq {s : Session MemoryStore} (hs : s.Addressable)
    (hrules : s.rules.rules = before ++ rule :: after) :
    ∃ t, (Session.deleteRule rule.name).run s = .ok rule t ∧
      t.rules = { s.rules with rules := before ++ after } := by
  have hrule : rule ∈ s.rules.rules := hrules ▸ List.mem_append_right before List.mem_cons_self
  have hfound : s.rules.byName? rule.name = some rule := hs.byName? hrule
  obtain ⟨id, hid⟩ := hs.distinct.exists_id hrule
  let u : Session MemoryStore := { s with
    store.rules := s.store.rules.eraseP (·.id == id)
    handles := s.handles.forgetRule id }
  have hforgotten : (forgetId rule.id).run s = .ok () u := by
    rw [hid]
    exact run_bind_eq_ok_iff.mpr ⟨(), _, unstoreRule_eq s id, rfl⟩
  obtain ⟨rules, hremoved, hrun⟩ := removeRule_of_named (s := u) hfound
  have hrest := hs.distinct.removeByName?_eq hrules
  obtain ⟨-, rfl⟩ := Prod.mk.inj (Option.some.inj (hremoved.symm.trans hrest))
  exact ⟨_, deleteRule_of_named hfound hforgotten hrun, rfl⟩

theorem Addressable.deleteRule_text {s t : Session MemoryStore} (hs : s.Addressable)
    (hrule : rule ∈ s.rules.rules) (hdelete : (Session.deleteRule rule.name).run s = .ok rule t) :
    (Console.deleteRule ⟨[("name", .one rule.name)]⟩).run s =
      .ok s!"Rule '{rule.name}' deleted\n" t := by
  have hevery : rule.name ≠ everyRule := (hs.usable _ (List.mem_map_of_mem hrule)).notEvery
  have hname : Args.require ⟨[("name", .one rule.name)]⟩ "name" = .ok rule.name := rfl
  unfold Console.deleteRule
  rw [run_lookup_bind hname, if_neg hevery]
  exact run_bind_eq_ok_iff.mpr ⟨rule, t, hdelete, rfl⟩

/-- Whatever lines have led to a session, its rules have distinct names, none of which is
empty or reserved. So the lines that spell the name of a rule, or its id behind the flag, show
that rule with its name, id, filter and tag, and it alone goes from the book when it is
deleted. -/
theorem Reached.rule_addressable {s : Session MemoryStore} (hs : s.Reached)
    (hrules : s.rules.rules = before ++ rule :: after) (out : Output) :
    (rule.name ≠ "" ∧ rule.name ≠ everyRule ∧ rule.name ≠ idFlag) ∧
    (∀ other ∈ before ++ after, other.name ≠ rule.name) ∧
    (∃ id, rule.id = some id ∧
      s.execute out ("rules view " ++ Expression.escaped rule.name) =
        .done (.ofText s out "rules view" ("Rule '" ++ rule.name ++ "':\n\tID: " ++ id ++
          "\n\tfilter: " ++ rule.expression ++ "\n\ttag: " ++ rule.tag ++ "\n")) ∧
      (id ≠ "" → s.execute out ("rules view -i " ++ Expression.escaped id) =
        .done (.ofText s out "rules view" ("Rule '" ++ rule.name ++ "':\n\tID: " ++ id ++
          "\n\tfilter: " ++ rule.expression ++ "\n\ttag: " ++ rule.tag ++ "\n")))) ∧
    ∃ t, s.execute out ("rules delete " ++ Expression.escaped rule.name) =
        .done (.ofText t out "rules delete" s!"Rule '{rule.name}' deleted\n") ∧
      t.rules = { s.rules with rules := before ++ after } := by
  have haddr : s.Addressable := hs.addressable
  have hrule : rule ∈ s.rules.rules := hrules ▸ List.mem_append_right before List.mem_cons_self
  have hname : Usable rule.name := haddr.usable _ (List.mem_map_of_mem hrule)
  obtain ⟨id, hid⟩ := haddr.distinct.exists_id hrule
  obtain ⟨t, hdelete, hrest⟩ := haddr.deleteRule_eq hrules
  have hviewLine : tokenize ("rules view " ++ Expression.escaped rule.name) =
      ["rules", "view"] ++ [rule.name] :=
    tokenize_append_escaped (fun _ => rfl) hname.nonempty
  have hdeleteLine : tokenize ("rules delete " ++ Expression.escaped rule.name) =
      ["rules", "delete"] ++ [rule.name] :=
    tokenize_append_escaped (fun _ => rfl) hname.nonempty
  refine ⟨⟨hname.nonempty, hname.notEvery, hname.notFlag⟩, haddr.distinct.other_name hrules,
    ⟨id, hid, ?_, fun hfilled => ?_⟩, t, ?_, hrest⟩
  · exact Console.execute_rules s out hviewLine Console.ruleGroup_child_view rfl
      (viewRule_eq_ok rfl (haddr.findRule_name hrule) hid)
  · have hflagLine : tokenize ("rules view -i " ++ Expression.escaped id) =
        ["rules", "view", "-i"] ++ [id] :=
      tokenize_append_escaped (fun _ => rfl) hfilled
    exact Console.execute_rules s out hflagLine Console.ruleGroup_child_view rfl
      (viewRule_eq_ok rfl (haddr.findRule_id hrule hid) hid)
  · exact Console.execute_rules s out hdeleteLine Console.ruleGroup_child_delete rfl
      (haddr.deleteRule_text hrule hdelete)

/-- Names that are generated begin with a star, and a rule is added under one of them. -/
theorem rule_addressable_awkward_prefix :
    ∃ store, MemoryStore.ofListing [⟨"5", "cat", "pets"⟩] = .ok store ∧
    let s := (refusedRun ((Session.new { ruleNameStem := "*" } store "").startupSync {}).1
      ["rules add '*1' dog", "rules add \"*0\" owl"]).2
    s.rules.names = ["*0", "*1", "*0(1)"] ∧
      (∀ line ∈ ["rules view \\*\\0\\(\\1\\)", "rules view -i \\7"], s.execute {} line =
        .done ⟨s, { text := "Rule '*0(1)':\n\tID: 7\n\tfilter: owl\n\ttag: ...\n" }, .ok ()⟩) ∧
      ∃ t, s.execute {} "rules delete \\*\\0\\(\\1\\)" =
          .done ⟨t, { text := "Rule '*0(1)' deleted\n" }, .ok ()⟩ ∧
        t.rules.names = ["*0", "*1"] := by
  refine ⟨_, rfl, ?_⟩
  intro s
  have hreached : s.Reached := (leads_refusedRun _ _).reached (.started _ _ _ _)
  have hrules : s.rules.rules = [⟨some "5", "*0", "cat", "pets"⟩, ⟨some "6", "*1", "dog", "..."⟩] ++
      (⟨some "7", "*0(1)", "owl", "..."⟩ : Rule) :: [] := by decide +kernel
  obtain ⟨-, -, ⟨id, hid, hview, hflagged⟩, t, hdelete, hrest⟩ :=
    hreached.rule_addressable hrules {}
  obtain rfl := Option.some.inj hid
  refine ⟨by rw [Rulebook.names, hrules]; rfl, ?_, t, hdelete, ?_⟩
  · rw [List.forall_mem_cons, List.forall_mem_singleton]
    exact ⟨hview, hflagged (by decide)⟩
  · rw [hrest]
    rfl

end Session
end RuleDesk
