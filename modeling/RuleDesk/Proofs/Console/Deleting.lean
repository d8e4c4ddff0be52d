import RuleDesk.Proofs.Console.Addressing

/-!
# Deleting a rule

A rule that is deleted takes its id out of the rulebook and out of the list of every handle.
The routes of all other rules stay as they were, but for handles that listed no other rule:
their lists are empty from then on, and so they take every rule that is left.
-/
namespace RuleDesk

/-- With distinct ids, the id of the rule that is removed goes and no other one. -/
theorem Rulebook.Distinct.registers_removed_iff {b rest : Rulebook} (hb : b.Distinct)
    {wanted : Rule → Bool} {rule : Rule} (hremoved : b.removeFirst? wanted = some (rule, rest))
    {gone : RuleId} (hgone : rule.id = some gone) {id : RuleId} :
    rest.registers id = true ↔ id ≠ gone ∧ b.registers id = true := by
  constructor
  · intro h
    obtain ⟨before, after, hsplit, -, -, rfl⟩ := removeFirst?_eq_some_iff.mp hremoved
    obtain ⟨other, hother, hid⟩ := exists_of_registers h
    refine ⟨?_, registers_of_mem ?_ hid⟩
    · rintro rfl
      exact hb.other_id hsplit other hother (hid.trans hgone.symm)
    · rw [hsplit]
      exact (List.sublist_cons_self rule after).append_left before |>.subset hother
  · rintro ⟨hne, h⟩
    exact registers_removed h hremoved (by rw [hgone]; simpa using hne.symm)

/-- Without one id a list is empty if it had no other. -/
theorem filter_ne_eq_nil_iff {ids : List RuleId} (hids : ids.Nodup) {gone : RuleId} :
    ids.filter (· != gone) = [] ↔ ids = [] ∨ ids = [gone] := by
  cases ids with
  | nil => simp
  | cons first rest =>
      simp only [List.filter_eq_nil_iff, List.forall_mem_cons, bne_iff_ne, ne_eq, not_not,
        List.cons_ne_nil, false_or, List.cons.injEq]
      refine and_congr_right fun hfirst => ?_
      subst hfirst
      constructor
      · intro hall
        rw [List.eq_nil_iff_forall_not_mem]
        intro other hother
        exact (List.nodup_cons.mp hids).1 (hall other hother ▸ hother)
      · rintro rfl
        simp

/-- A handle takes the matches of a rule that stays if it did before, or if it listed only the
rule that goes. -/
theorem takes_forgotten {h : Handle} (hrules : h.rules.Nodup) {book rest : Rulebook}
    {gone id : RuleId} (hother : id ≠ gone) (hknown : book.registers id = true)
    (hstays : rest.registers id = true) :
    ({ h with rules := h.rules.filter (· != gone) } : Handle).takes rest id = true ↔
      h.rules = [gone] ∨ h.takes book id = true := by
  rw [RoutingTable.takes_iff, RoutingTable.takes_iff, Handle.receivesAll, Handle.receivesAll,
    List.isEmpty_iff, List.isEmpty_iff, filter_ne_eq_nil_iff hrules, hknown, hstays,
    List.mem_filter]
  simp only [bne_iff_ne, ne_eq, hother, not_false_eq_true, and_true]
  tauto

namespace Session

variable {σ : Type} [RuleStore σ] {s t : Session σ}

/-- What a deletion of one rule leaves of the routes. -/
structure RoutesWithout (s t : Session σ) (gone : RuleId) : Prop where
  registered : ∀ id, t.rules.registers id = true ↔ id ≠ gone ∧ s.rules.registers id = true
  handles : t.handles = s.handles.forgetRule gone

/-- A rule that is deleted goes with its id. -/
theorem routesWithout_deleteRule (hs : s.Addressable) {name : String} {rule : Rule}
    (h : (deleteRule name).run s = .ok rule t) :
    ∃ gone, rule ∈ s.rules.rules ∧ rule.name = name ∧ rule.id = some gone ∧
      s.RoutesWithout t gone := by
  obtain ⟨rules, hremoved, hcases⟩ := deleteRule_eq_ok h
  obtain ⟨before, after, hsplit, hname, -, -⟩ := Rulebook.removeFirst?_eq_some_iff.mp hremoved
  have hrule : rule ∈ s.rules.rules := hsplit ▸ List.mem_append_right before List.mem_cons_self
  obtain ⟨gone, hgone⟩ := hs.distinct.exists_id hrule
  obtain ⟨hnone, -⟩ | ⟨id, store, hid, -, rfl⟩ := hcases
  · rw [hgone] at hnone
    cases hnone
  · obtain rfl := Option.some.inj (hgone.symm.trans hid)
    exact ⟨gone, hrule, by simpa using hname, hgone,
      fun _ => hs.distinct.registers_removed_iff hremoved hgone, rfl⟩

omit [RuleStore σ] in
/-- No handle takes any of the ids. -/
theorem Subscribed.targets_eq_nil (hs : s.Subscribed) {matched : List RuleId}
    (hnone : ∀ h ∈ s.handles.list, ∀ id ∈ matched, h.takes s.rules id ≠ true) :
    (RoutingTable.build s.rules s.handles).targets matched = [] := by
  rw [hs.targets_eq, List.map_eq_nil_iff, List.eq_nil_iff_forall_not_mem]
  intro h hfed
  obtain ⟨hh, id, hid, htakes⟩ := mem_fed_iff.mp hfed
  exact hnone h hh id hid htakes

omit [RuleStore σ] in
/-- The matches of the id that has gone go nowhere. -/
theorem RoutesWithout.targets_gone {gone : RuleId} (h : s.RoutesWithout t gone)
    (ht : t.Subscribed) :
    (RoutingTable.build t.rules t.handles).targets [gone] = [] := by
  refine ht.targets_eq_nil fun k hk id hid htakes => ?_
  obtain rfl := List.mem_singleton.mp hid
  rw [h.handles] at hk
  obtain ⟨old, -, rfl⟩ := List.mem_map.mp hk
  rcases RoutingTable.takes_iff.mp htakes with hlisted | ⟨-, hknown⟩
  · simp at hlisted
  · exact ((h.registered id).mp hknown).1 rfl

omit [RuleStore σ] in
/-- The matches of another rule go where they went, and to the handles that listed nothing
but the id that has gone. -/
theorem RoutesWithout.mem_targets_iff {gone : RuleId} (h : s.RoutesWithout t gone)
    (hs : s.Subscribed) (ht : t.Subscribed) {k : Handle} (hk : k ∈ s.handles.list)
    {id : RuleId} (hother : id ≠ gone) (hknown : s.rules.registers id = true) :
    k.id ∈ (RoutingTable.build t.rules t.handles).targets [id] ↔
      k.rules = [gone] ∨ k.id ∈ (RoutingTable.build s.rules s.handles).targets [id] := by
  let forgotten : Handle := { k with rules := k.rules.filter (· != gone) }
  have hforgotten : forgotten ∈ t.handles.list := by
    rw [h.handles]
    exact List.mem_map_of_mem hk
  have hstays : t.rules.registers id = true := (h.registered id).mpr ⟨hother, hknown⟩
  have hrules : k.rules.Nodup := hs.handles.sound.rules k hk
  calc
    k.id ∈ (RoutingTable.build t.rules t.handles).targets [id]
      ↔ forgotten.takes t.rules id = true := by
        rw [ht.mem_targets_iff hforgotten]
        simp
    _ ↔ k.rules = [gone] ∨ k.takes s.rules id = true :=
        takes_forgotten hrules hother hknown hstays
    _ ↔ k.rules = [gone] ∨ k.id ∈ (RoutingTable.build s.rules s.handles).targets [id] := by
        rw [hs.mem_targets_iff hk]
        simp

/-- Without any rule no matches go anywhere. -/
theorem Subscribed.targets_deleteAllRules (hs : s.Subscribed) {count : Nat}
    (h : deleteAllRules.run s = .ok count t) (matched : List RuleId) :
    (RoutingTable.build t.rules t.handles).targets matched = [] := by
  have ht : t.Subscribed := hs.change (.cleared h)
  obtain ⟨store, rfl⟩ := deleteAllRules_eq_ok h
  refine ht.targets_eq_nil fun k hk id _ htakes => ?_
  obtain ⟨old, -, rfl⟩ := List.mem_map.mp hk
  rcases RoutingTable.takes_iff.mp htakes with hlisted | ⟨-, hknown⟩
  · cases hlisted
  · cases hknown

/-- What a line that deletes rules has done if it has not failed. -/
theorem deleted_of_execute {out : Output} {line name : String}
    (hline : tokenize line = ["rules", "delete", name]) {o : Outcome (Session σ)}
    (hrun : (s.execute out line).EndsIn o) (hok : o.result = .ok ()) :
    name = everyRule ∧ (∃ count, deleteAllRules.run s = .ok count o.state) ∨
      name ≠ everyRule ∧ ∃ rule, (deleteRule name).run s = .ok rule o.state := by
  rw [Console.execute_effect s out hline Console.root_child_rules Console.ruleGroup_name
    Console.ruleGroup_child_delete rfl] at hrun
  obtain rfl := FileTask.endsIn_done_iff.mp hrun
  obtain ⟨text, heffect⟩ := Console.state_of_effectOutcome hok
  obtain ⟨asked, hasked, hdone⟩ := Console.deleteRule_eq_ok heffect
  obtain rfl : name = asked := Except.ok.inj hasked
  exact hdone

/-- A line that deletes rules, in any session that lines lead to, and the routing tables before
and after it. If it deletes a rule by name, the matches of that rule's id go nowhere any more.
The rules that are left are the other ones, and their matches go to the handles that they went
to, and besides to those that listed nothing but the deleted rule. If it deletes all rules, no
matches go anywhere. -/
theorem Reached.delete_keeps_other_routes (hs : s.Reached) {out : Output} {line name : String}
    (hline : tokenize line = ["rules", "delete", name]) {o : Outcome (Session σ)}
    (hrun : (s.execute out line).EndsIn o) (hok : o.result = .ok ()) :
    let before := RoutingTable.build s.rules s.handles
    let after := RoutingTable.build o.state.rules o.state.handles
    (name ≠ everyRule → ∃ rule ∈ s.rules.rules, ∃ gone, rule.name = name ∧
      rule.id = some gone ∧ after.targets [gone] = [] ∧
      (∀ id, o.state.rules.registers id = true ↔ id ≠ gone ∧ s.rules.registers id = true) ∧
      o.state.handles = s.handles.forgetRule gone ∧
      ∀ h ∈ s.handles.list, ∀ id, id ≠ gone → s.rules.registers id = true →
        (h.id ∈ after.targets [id] ↔ h.rules = [gone] ∨ h.id ∈ before.targets [id])) ∧
    (name = everyRule → ∀ matched, after.targets matched = []) := by
  intro before after
  have hsub : s.Subscribed := hs.subscribed
  rcases deleted_of_execute hline hrun hok with ⟨hevery, count, hcleared⟩ | ⟨hone, rule, hdeleted⟩
  · exact ⟨fun hone => absurd hevery hone, fun _ => hsub.targets_deleteAllRules hcleared⟩
  · have ht : o.state.Subscribed := hsub.deleteRule hdeleted
    obtain ⟨gone, hrule, hname, hgone, hroutes⟩ := routesWithout_deleteRule hs.addressable hdeleted
    refine ⟨fun _ => ⟨rule, hrule, gone, hname, hgone, hroutes.targets_gone ht,
      hroutes.registered, hroutes.handles, fun h hh id hother hknown => ?_⟩,
      fun hevery => absurd hevery hone⟩
    exact hroutes.mem_targets_iff hsub ht hh hother hknown

/-- One handle lists only the rule that is deleted, one lists it with another rule, one lists
only the other rule, and one lists none. -/
theorem delete_keeps_other_routes_of_shared_rule :
    let s := (refusedRun (Session.new {} {} "") ["rules add a cat", "rules add b dog",
      "handle add only /o a", "handle add both /p a b", "handle add other /q b",
      "handle add all /r"]).2
    let o := (s.execute {} "rules delete a").refused
    let after := RoutingTable.build o.state.rules o.state.handles
    (RoutingTable.build s.rules s.handles).targets ["2"] = [1, 2, 3] ∧
      after.targets ["1"] = [] ∧ 0 ∈ after.targets ["2"] ∧ 1 ∈ after.targets ["2"] := by
  intro s o after
  have hreached : s.Reached := (leads_refusedRun _ _).reached (.new _ _ _)
  have hbefore : (RoutingTable.build s.rules s.handles).targets ["2"] = [1, 2, 3] := by
    decide +kernel
  have hrules : s.rules.rules = [⟨some "1", "a", "cat", "..."⟩, ⟨some "2", "b", "dog", "..."⟩] := by
    decide +kernel
  have hhandles : s.handles.list = [⟨0, "only", "/o", ["1"]⟩, ⟨1, "both", "/p", ["1", "2"]⟩,
      ⟨2, "other", "/q", ["2"]⟩, ⟨3, "all", "/r", []⟩] := by decide +kernel
  have hknown : s.rules.registers "2" = true := by decide +kernel
  have hline : tokenize "rules delete a" = ["rules", "delete", "a"] := by decide +kernel
  have hrun : (s.execute {} "rules delete a").EndsIn o := FileTask.endsIn_refused _
  have hok : o.result = .ok () := by decide +kernel
  -- from here on the facts about the two sessions are all that matters
  clear_value o s
  obtain ⟨hone, -⟩ := hreached.delete_keeps_other_routes hline hrun hok
  obtain ⟨rule, hrule, gone, hname, hgone, htargets, -, -, hother⟩ := hone (by decide)
  obtain rfl : gone = "1" := by
    rw [hrules] at hrule
    simp only [List.mem_cons, List.not_mem_nil, or_false] at hrule
    rcases hrule with rfl | rfl
    · exact (Option.some.inj hgone).symm
    · exact absurd hname (by decide)
  refine ⟨hbefore, htargets, ?_, ?_⟩
  · exact (hother ⟨0, "only", "/o", ["1"]⟩ (by simp [hhandles]) "2" (by decide) hknown).mpr
      (.inl rfl)
  · exact (hother ⟨1, "both", "/p", ["1", "2"]⟩ (by simp [hhandles]) "2" (by decide) hknown).mpr
      (.inr (by simp [hbefore]))

end Session
end RuleDesk
