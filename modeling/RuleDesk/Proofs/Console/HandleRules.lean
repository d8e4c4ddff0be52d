import RuleDesk.Proofs.Console.Replay

/-!
# The rules of handles

Handles have distinct names that are not empty, and the ids that they list are those of
rules in the rulebook, each once. So wherever the rules of a handle are shown they are
shown by name, and no route of the routing table leads from an id without a rule.
-/
namespace RuleDesk

theorem Handles.byName?_of_mem {hs : Handles} (hsound : hs.Sound) {h : Handle}
    (hh : h ∈ hs.list) : hs.byName? h.name = some h :=
  find?_of_nodup_map hsound.names hh

namespace Session

variable {σ : Type} {s t : Session σ}

/-- The names that handles have after a change are names from before it or not empty. -/
theorem Change.name_mem [RuleStore σ] (h : s.Change t) {name : String}
    (hname : name ∈ t.handles.list.map Handle.name) :
    name ∈ s.handles.list.map Handle.name ∨ name ≠ "" := by
  cases h with
  | none => exact .inl hname
  | failed hfailed => cases hfailed <;> exact .inl hname
  | stopped => exact .inl hname
  | added hadd =>
      obtain ⟨id, expression, tag, store, -, rfl⟩ := addRule_eq_ok hadd
      exact .inl hname
  | deleted hdelete =>
      obtain ⟨rules, -, ⟨-, rfl⟩ | ⟨id, store, -, -, rfl⟩⟩ := deleteRule_eq_ok hdelete
      · exact .inl hname
      · exact .inl (by simpa [Handles.forgetRule] using hname)
  | cleared hclear =>
      obtain ⟨store, rfl⟩ := deleteAllRules_eq_ok hclear
      exact .inl (by simpa [Handles.forgetAllRules] using hname)
  | synced hsync =>
      obtain ⟨listing, rfl⟩ := sync_eq_ok hsync
      exact .inl hname
  | handleAdded _ hadd hfilled =>
      unfold Handles.add at hadd
      split at hadd
      · cases (Prod.mk.inj hadd).2
      · obtain ⟨rfl, -⟩ := Prod.mk.inj hadd
        rw [List.map_append, List.mem_append] at hname
        refine hname.imp_right fun hnew => ?_
        obtain rfl := List.mem_singleton.mp hnew
        exact hfilled
  | handleRemoved hremove =>
      obtain rfl := (Handles.remove_eq_some hremove).2
      obtain ⟨h, hkept, rfl⟩ := List.mem_map.mp hname
      exact .inl (List.mem_map_of_mem (List.mem_of_mem_eraseP hkept))
  | fileSet hset =>
      rw [Handles.names_change hset fun _ => rfl] at hname
      exact .inl hname
  | subscribed _ hset =>
      rw [Handles.names_change hset fun _ => rfl] at hname
      exact .inl hname
  | unsubscribed _ hset =>
      rw [Handles.names_change hset fun _ => rfl] at hname
      exact .inl hname

theorem Reached.named [RuleStore σ] (h : s.Reached) :
    ∀ name ∈ s.handles.list.map Handle.name, name ≠ "" := by
  refine h.of_change (P := fun s => ∀ name ∈ s.handles.list.map Handle.name, name ≠ "")
    (fun _ _ _ _ hname => nomatch hname) fun hchange hs name hname => ?_
  rcases hchange.name_mem hname with hold | hfilled
  · exact hs name hold
  · exact hfilled

/-- The registered rules that a handle lists, in the order of its list. -/
def listed (s : Session σ) (h : Handle) : List Rule :=
  h.rules.filterMap s.rules.byId?

variable {h : Handle}

theorem mem_rules_of_mem_listed {rule : Rule} (hrule : rule ∈ s.listed h) :
    rule ∈ s.rules.rules := by
  obtain ⟨id, -, hfound⟩ := List.mem_filterMap.mp hrule
  exact List.mem_of_find?_eq_some hfound

/-- What can be told of every listed id from the rule that has it is told by the listed
rules. -/
theorem Subscribed.map_listed {α : Type} (hs : s.Subscribed) (hh : h ∈ s.handles.list)
    {f : Rule → α} {g : RuleId → α}
    (hfg : ∀ id rule, s.rules.byId? id = some rule → f rule = g id) :
    (s.listed h).map f = h.rules.map g := by
  rw [listed, List.map_filterMap, ← List.filterMap_eq_map]
  refine List.filterMap_congr fun id hid => ?_
  have hregistered := hs.registered h hh id hid
  obtain ⟨rule, hrule⟩ := Option.isSome_iff_exists.mp hregistered
  rw [hrule, Option.map_some, hfg id rule hrule]
  rfl

theorem Subscribed.map_id_listed (hs : s.Subscribed) (hh : h ∈ s.handles.list) :
    (s.listed h).map Rule.id = h.rules.map some :=
  hs.map_listed hh fun id rule hrule => by simpa using List.find?_some hrule

/-- A handle's rules are shown by the names of rules that are there. -/
theorem Subscribed.ruleNames_eq (hs : s.Subscribed) (hh : h ∈ s.handles.list) :
    s.ruleNames h.rules = (s.listed h).map Rule.name :=
  (hs.map_listed hh fun id rule hrule => by rw [ruleName, hrule]).symm

end Session

namespace Console

open Session (run_lookup_bind run_get_bind)

variable {σ : Type} {s : Session σ} {h : Handle}

/-- The names of rules, or that there is no choice of rules. -/
def namesText (rules : List Rule) : String :=
  if rules.isEmpty then "ALL" else ", ".intercalate (rules.map Rule.name)

theorem rulesOf_eq (hs : s.Subscribed) (hh : h ∈ s.handles.list) :
    rulesOf s h = namesText (s.listed h) := by
  unfold rulesOf namesText
  rw [hs.ruleNames_eq hh]
  simp

/-- A handle as `handle view` shows it, with these rules. -/
def handleText (h : Handle) (rules : List Rule) : String :=
  s!"Handle '{h.name}':\n\tFILE: '{h.file}'\n\tRULES: {namesText rules}\n"

/-- Handles as `handle list` shows them, with the rules of each. -/
def handlesText (handles : List Handle) (rules : Handle → List Rule) : String :=
  if handles.isEmpty then emptyListing
  else
    let table : Display.Table :=
      { header := ["Name", "File", "Rules"]
        rows := handles.map fun h => [h.name, h.file, namesText (rules h)] }
    table.text ++ "\n"

/-- A name leads to the one handle that has it. -/
theorem viewHandle_of_mem (hs : s.Subscribed) (hh : h ∈ s.handles.list) :
    (viewHandle ⟨[("name", .one h.name)]⟩).run s = .ok (handleText h (s.listed h)) s := by
  have hname : Args.require ⟨[("name", .one h.name)]⟩ "name" = .ok h.name := rfl
  have hfound : s.handles.byName? h.name = some h := Handles.byName?_of_mem hs.handles.sound hh
  unfold viewHandle
  rw [run_lookup_bind hname, run_get_bind, hfound]
  simp only [rulesOf_eq hs hh, handleText]
  rfl

theorem viewHandle_unknown {name : String} (hname : ∀ h ∈ s.handles.list, h.name ≠ name) :
    (viewHandle ⟨[("name", .one name)]⟩).run s = .error (unknownHandle name) s := by
  have hnone : s.handles.byName? name = none := by
    rw [Handles.byName?, List.find?_eq_none]
    exact fun h hh => by simpa using hname h hh
  have hasked : Args.require ⟨[("name", .one name)]⟩ "name" = .ok name := rfl
  unfold viewHandle
  rw [run_lookup_bind hasked, run_get_bind, hnone]
  rfl

theorem listHandles_eq (hs : s.Subscribed) (args : Args) :
    (listHandles args).run s = .ok (handlesText s.handles.list s.listed) s := by
  have hrows : s.handles.list.map (fun h => [h.name, h.file, rulesOf s h]) =
      s.handles.list.map fun h => [h.name, h.file, namesText (s.listed h)] :=
    List.map_congr_left fun h hh => by rw [rulesOf_eq hs hh]
  unfold listHandles handlesText handleTable
  rw [run_get_bind, hrows]
  split <;> rfl

end Console

namespace Session

variable {σ : Type} {s : Session σ}

/-- A routing table knows registered rules only. -/
theorem Subscribed.registers_route (hs : s.Subscribed) {route : RuleId × List HandleId}
    (hroute : route ∈ (RoutingTable.build s.rules s.handles).routes) :
    s.rules.registers route.1 = true := by
  have hknown : ((RoutingTable.build s.rules s.handles).routes.lookup route.1).isSome = true := by
    rw [List.lookup_isSome_iff]
    exact ⟨route, hroute, by simp⟩
  unfold RoutingTable.build at hknown
  rw [RoutingTable.isSome_lookup_addHandles hs.handles.sound.rules,
    RoutingTable.lookup_addRules] at hknown
  rcases hknown with hrule | ⟨h, hh, hlisted⟩
  · by_cases hmem : route.1 ∈ s.rules.rules.filterMap Rule.id
    · exact RoutingTable.registers_iff.mpr hmem
    · simp [hmem] at hrule
  · exact hs.registered h hh _ hlisted

/-- Whatever lines a session has seen, its handles have distinct names that are not empty, and
each lists ids of rules in the rulebook, every one once. So the rules of a handle are shown by
the names of rules that are there, by `handle view` and by `handle list`, and every id that
the routing table knows is that of a rule. -/
theorem Reached.subscriptions_registered [RuleStore σ] (hs : s.Reached) :
    (∀ h ∈ s.handles.list, h.name ≠ "" ∧ h.rules.Nodup ∧
      ∀ id ∈ h.rules, ∃ rule ∈ s.rules.rules, rule.id = some id) ∧
    (s.handles.list.map Handle.name).Nodup ∧
    (∀ h ∈ s.handles.list, (s.listed h).map Rule.id = h.rules.map some ∧
      ∀ rule ∈ s.listed h, rule ∈ s.rules.rules) ∧
    (∀ out line name, tokenize line = ["handle", "view", name] →
      (∀ h ∈ s.handles.list, h.name = name → s.execute out line =
        .done (.ofText s out "handle view" (Console.handleText h (s.listed h)))) ∧
      ((∀ h ∈ s.handles.list, h.name ≠ name) → s.execute out line =
        .done ⟨s, out, .error (.command "handle view" (Console.unknownHandle name))⟩)) ∧
    (∀ out line, tokenize line = ["handle", "list"] → s.execute out line =
      .done (.ofText s out "handle list" (Console.handlesText s.handles.list s.listed))) ∧
    ∀ route ∈ (RoutingTable.build s.rules s.handles).routes,
      ∃ rule ∈ s.rules.rules, rule.id = some route.1 := by
  have hsub := hs.subscribed
  have hsound := hsub.handles.sound
  refine ⟨fun h hh => ⟨?_, ?_, fun id hid => ?_⟩, hsound.names, fun h hh => ?_,
    fun out line name hline => ⟨fun h hh hname => ?_, fun hname => ?_⟩, fun out line hline => ?_,
    fun route hroute => ?_⟩
  · exact hs.named h.name (List.mem_map_of_mem hh)
  · exact hsound.rules h hh
  · exact Rulebook.exists_of_registers (hsub.registered h hh id hid)
  · exact ⟨hsub.map_id_listed hh, fun rule => mem_rules_of_mem_listed⟩
  · subst hname
    rw [Console.execute_view s out hline, Console.viewHandle_of_mem hsub hh]
    rfl
  · rw [Console.execute_view s out hline, Console.viewHandle_unknown hname]
    rfl
  · rw [Console.execute_list s out hline, Console.listHandles_eq hsub]
    rfl
  · exact Rulebook.exists_of_registers (hsub.registers_route hroute)

/-- A rule that was pulled and subscribed to, and then deleted. -/
theorem subscriptions_registered_after_delete :
    ∃ store, MemoryStore.ofListing [⟨"5", "cat", "pets"⟩] = .ok store ∧
    let s := (refusedRun ((Session.new {} store "").startupSync {}).1
      ["rules add dogs dog", "handle add pets /a dogs Rule0 dogs", "rules delete Rule0"]).2
    s.handles.list = [⟨0, "pets", "/a", ["6"]⟩] ∧
      s.execute {} "handle view pets" =
        .done ⟨s, { text := "Handle 'pets':\n\tFILE: '/a'\n\tRULES: dogs\n" }, .ok ()⟩ := by
  refine ⟨_, rfl, ?_⟩
  intro s
  have hreached : s.Reached := (leads_refusedRun _ _).reached (.started _ _ _ _)
  have hhandles : s.handles.list = [⟨0, "pets", "/a", ["6"]⟩] := by decide +kernel
  have hline : tokenize "handle view pets" = ["handle", "view", "pets"] := by decide +kernel
  obtain ⟨-, -, -, hview, -⟩ := hreached.subscriptions_registered
  have hmem : (⟨0, "pets", "/a", ["6"]⟩ : Handle) ∈ s.handles.list := by
    rw [hhandles]
    exact List.mem_singleton_self _
  have hshown := (hview {} _ _ hline).1 _ hmem rfl
  have htext : Console.handleText ⟨0, "pets", "/a", ["6"]⟩ (s.listed ⟨0, "pets", "/a", ["6"]⟩) =
      "Handle 'pets':\n\tFILE: '/a'\n\tRULES: dogs\n" := by decide +kernel
  refine ⟨hhandles, ?_⟩
  rw [hshown, htext]
  rfl

end Session
end RuleDesk
