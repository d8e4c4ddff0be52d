import RuleDesk.Proofs.Capture.Routing
import RuleDesk.Proofs.Console.Mirror
import RuleDesk.Proofs.Rule.Book

/-!
# Handles list registered rules

Whatever lines a session has seen, every rule that one of its handles lists is in its
rulebook: handles take names of rules that are there, no listing drops a rule, and a
rule that is deleted goes from every handle. So routing is decided by the
subscriptions alone.
-/
namespace RuleDesk

namespace Rulebook

variable {b : Rulebook} {id : RuleId}

theorem registers_of_mem {rule : Rule} (hrule : rule ∈ b.rules) (hid : rule.id = some id) :
    b.registers id = true :=
  RoutingTable.registers_iff.mpr (List.mem_filterMap.mpr ⟨rule, hrule, hid⟩)

theorem exists_of_registers (h : b.registers id = true) : ∃ rule ∈ b.rules, rule.id = some id :=
  List.mem_filterMap.mp (RoutingTable.registers_iff.mp h)

theorem registers_of_subset {other : Rulebook} (hrules : other.rules ⊆ b.rules)
    (h : other.registers id = true) : b.registers id = true := by
  obtain ⟨rule, hrule, hid⟩ := exists_of_registers h
  exact registers_of_mem (hrules hrule) hid

/-- A rule enters the book under its id, and no other id enters or leaves. -/
theorem registers_insert_iff (b : Rulebook) (name? : Option String) (other : RuleId)
    (expression tag : String) :
    (b.insert name? (some other) expression tag).2.registers id = true ↔
      id = other ∨ b.registers id = true := by
  by_cases hid : other = id
  · simp [registers, hid, byId?_insert]
  · simp [registers, byId?_insert_other hid, Ne.symm hid]

theorem registers_mergeEntry_iff (b : Rulebook) (report : SyncReport) (entry : ListedRule) :
    (b.mergeEntry report entry).1.registers id = true ↔
      id = entry.id ∨ b.registers id = true := by
  by_cases hshows : b.Shows entry
  · have hknown : b.registers entry.id = true := by
      obtain ⟨rule, hrule, -⟩ := hshows
      rw [registers, hrule]
      rfl
    rw [hshows.mergeEntry_eq, iff_or_self]
    exact fun hid => hid ▸ hknown
  · rw [mergeEntry_of_not_shows hshows, registers_insert_iff]

theorem registers_mergeEntries_iff (b : Rulebook) (report : SyncReport)
    (entries : List ListedRule) : (b.mergeEntries report entries).1.registers id = true ↔
      id ∈ entries.map ListedRule.id ∨ b.registers id = true := by
  induction entries generalizing b report with
  | nil => simp [mergeEntries]
  | cons entry entries ih =>
      unfold mergeEntries
      rw [ih, registers_mergeEntry_iff, List.map_cons, List.mem_cons, or_left_comm, or_assoc]

/-- Another rule is still there after one has been removed. -/
theorem registers_removed (h : b.registers id = true) {wanted : Rule → Bool} {rule : Rule}
    {rest : Rulebook} (hremoved : b.removeFirst? wanted = some (rule, rest))
    (hother : rule.id ≠ some id) : rest.registers id = true := by
  obtain ⟨before, after, hsplit, -, -, rfl⟩ := removeFirst?_eq_some_iff.mp hremoved
  obtain ⟨kept, hkept, hid⟩ := exists_of_registers h
  refine registers_of_mem (b := { b with rules := _ }) ?_ hid
  have hne : kept ≠ rule := by
    rintro rfl
    exact hother hid
  rw [hsplit, List.mem_append, List.mem_cons] at hkept
  rw [List.mem_append]
  exact hkept.imp_right (Or.resolve_left · hne)

end Rulebook

namespace Session

variable {σ : Type} {s t : Session σ}

/-- The rules that handles list are registered. -/
structure Subscribed (s : Session σ) : Prop where
  handles : s.handles.Reached
  registered : ∀ h ∈ s.handles.list, ∀ id ∈ h.rules, s.rules.registers id = true

theorem registered_of_ruleIds {names : List String} {ids : List RuleId}
    (h : s.ruleIds names = .ok ids) : ∀ id ∈ ids, s.rules.registers id = true := by
  induction names generalizing ids with
  | nil =>
      cases h
      simp
  | cons name names ih =>
      simp only [ruleIds, bind_eq_ok_iff] at h
      obtain ⟨first, hfirst, rest, hrest, h⟩ := h
      cases h
      rw [List.forall_mem_cons]
      refine ⟨?_, ih hrest⟩
      unfold ruleId at hfirst
      split at hfirst
      · cases hfirst
      · next rule hrule =>
          split at hfirst
          · next id hid =>
              cases hfirst
              exact Rulebook.registers_of_mem (List.mem_of_find?_eq_some hrule) hid
          · cases hfirst

theorem subscribed_new (config : Config) (store : σ) (workDir : String) :
    (Session.new config store workDir).Subscribed :=
  ⟨.empty, fun _ hh => nomatch hh⟩

theorem Subscribed.changeHandle (hs : s.Subscribed) {name : String} {change : Handle → Handle}
    {handles : Handles} (hset : s.handles.change name change = (handles, true))
    (hstep : Handles.Step s.handles handles)
    (hrules : ∀ g ∈ s.handles.list, ∀ id ∈ (change g).rules, s.rules.registers id = true) :
    ({ s with handles } : Session σ).Subscribed := by
  refine ⟨hs.handles.step hstep, fun h hh id hlisted => ?_⟩
  rw [Handles.change_eq_true hset] at hh
  rcases Handles.mem_changeFirst hh with hold | ⟨g, hg, rfl⟩
  · exact hs.registered h hold id hlisted
  · exact hrules g hg id hlisted

/-- The handles that take the matches of a record, each once: by the first matched id
that they take, and then in order of creation. -/
def fed (s : Session σ) (matched : List RuleId) : List Handle :=
  (matched.flatMap fun id => s.handles.list.filter (·.takes s.rules id)).eraseDups

theorem mem_fed_iff {matched : List RuleId} {h : Handle} :
    h ∈ s.fed matched ↔ h ∈ s.handles.list ∧ ∃ id ∈ matched, h.takes s.rules id = true := by
  simp only [fed, List.mem_eraseDups, List.mem_flatMap, List.mem_filter]
  grind

/-- Where the first id stands that a handle takes. -/
def firstTaken (s : Session σ) (matched : List RuleId) (h : Handle) : Nat :=
  matched.findIdx (h.takes s.rules ·)

/-- The handles that take the first id, and then those of the other ids that do not. -/
theorem fed_cons (hids : (s.handles.list.map Handle.id).Nodup) (id : RuleId)
    (matched : List RuleId) :
    s.fed (id :: matched) = s.handles.list.filter (·.takes s.rules id) ++
      (s.fed matched).filter fun h => !h.takes s.rules id := by
  have hnodup : (s.handles.list.filter (·.takes s.rules id)).Nodup :=
    (List.Nodup.of_map _ hids).filter _
  have hothers : (matched.flatMap fun other => s.handles.list.filter (·.takes s.rules other)).removeAll
      (s.handles.list.filter (·.takes s.rules id)) =
      (matched.flatMap fun other => s.handles.list.filter (·.takes s.rules other)).filter
        fun h => !h.takes s.rules id := by
    refine List.filter_congr fun h hh => ?_
    obtain ⟨other, -, hmem⟩ := List.mem_flatMap.mp hh
    simp [List.mem_of_mem_filter hmem]
  rw [fed, List.flatMap_cons, List.eraseDups_append, hothers, RoutingTable.eraseDups_of_nodup hnodup,
    RoutingTable.eraseDups_filter, fed]

/-- Handles are fed in the order of the ids, and for one id in order of creation. -/
theorem fed_ordered (hs : s.handles.Sound) (matched : List RuleId) :
    (s.fed matched).Pairwise fun g h =>
      s.firstTaken matched g < s.firstTaken matched h ∨
        s.firstTaken matched g = s.firstTaken matched h ∧ g.id < h.id := by
  induction matched with
  | nil => exact .nil
  | cons id matched ih =>
      have hfirst {h : Handle} (htakes : h.takes s.rules id = true) :
          s.firstTaken (id :: matched) h = 0 := by
        simp [firstTaken, List.findIdx_cons, htakes]
      have hlater {h : Handle} (htakes : h.takes s.rules id = false) :
          s.firstTaken (id :: matched) h = s.firstTaken matched h + 1 := by
        simp [firstTaken, List.findIdx_cons, htakes]
      rw [fed_cons hs.nodup_ids, List.pairwise_append]
      refine ⟨?_, ?_, fun g hg h hh => ?_⟩
      · have hcreated := List.pairwise_map.mp hs.increasing
        refine (hcreated.filter _).imp_of_mem fun hg hh hlt => .inr ⟨?_, hlt⟩
        rw [hfirst (List.mem_filter.mp hg).2, hfirst (List.mem_filter.mp hh).2]
      · refine (ih.filter _).imp_of_mem fun {g h} hg hh hord => ?_
        have hg := (List.mem_filter.mp hg).2
        have hh := (List.mem_filter.mp hh).2
        rw [hlater (by simpa using hg), hlater (by simpa using hh)]
        exact hord.imp Nat.succ_lt_succ (And.imp_left (congrArg Nat.succ))
      · have hh := (List.mem_filter.mp hh).2
        rw [hfirst (List.mem_filter.mp hg).2, hlater (by simpa using hh)]
        exact .inl (Nat.succ_pos _)

/-- The table of a session feeds these handles. -/
theorem Subscribed.targets_eq (hs : s.Subscribed) (matched : List RuleId) :
    (RoutingTable.build s.rules s.handles).targets matched = (s.fed matched).map Handle.id := by
  have hsound := hs.handles.sound
  have hfed (id : RuleId) : (RoutingTable.build s.rules s.handles).handlesOf id =
      (s.handles.list.filter (·.takes s.rules id)).map Handle.id := by
    rw [RoutingTable.handlesOf_build _ hsound]
    refine RoutingTable.feeding_eq_filter ?_
    by_cases hlisted : ∃ h ∈ s.handles.list, id ∈ h.rules
    · obtain ⟨h, hh, hid⟩ := hlisted
      exact .inl (hs.registered h hh id hid)
    · exact .inr fun h hh hid => hlisted ⟨h, hh, hid⟩
  have hmap : matched.flatMap (RoutingTable.build s.rules s.handles).handlesOf =
      (matched.flatMap fun id => s.handles.list.filter (·.takes s.rules id)).map Handle.id := by
    rw [List.map_flatMap]
    exact congrArg (fun f => List.flatMap f matched) (funext hfed)
  rw [RoutingTable.targets_eq, hmap, fed]
  refine RoutingTable.eraseDups_map fun g hg h hh hid => hsound.eq_of_id ?_ ?_ hid
  · obtain ⟨id, -, hmem⟩ := List.mem_flatMap.mp hg
    exact List.mem_of_mem_filter hmem
  · obtain ⟨id, -, hmem⟩ := List.mem_flatMap.mp hh
    exact List.mem_of_mem_filter hmem

/-- A handle is a target if it takes one of the matched ids. -/
theorem Subscribed.mem_targets_iff (hs : s.Subscribed) {h : Handle} (hh : h ∈ s.handles.list)
    {matched : List RuleId} :
    h.id ∈ (RoutingTable.build s.rules s.handles).targets matched ↔
      ∃ id ∈ matched, h.takes s.rules id = true := by
  rw [hs.targets_eq, List.mem_map]
  constructor
  · rintro ⟨g, hg, hid⟩
    obtain ⟨hmem, htakes⟩ := mem_fed_iff.mp hg
    rwa [hs.handles.sound.eq_of_id hmem hh hid] at htakes
  · intro htakes
    exact ⟨h, mem_fed_iff.mpr ⟨hh, htakes⟩, rfl⟩

variable [RuleStore σ]

theorem Subscribed.deleteRule (hs : s.Subscribed) {name : String} {rule : Rule}
    (h : (deleteRule name).run s = .ok rule t) : t.Subscribed := by
  obtain ⟨rules, hremoved, ⟨hnone, rfl⟩ | ⟨id, store, hid, -, rfl⟩⟩ := deleteRule_eq_ok h
  · exact ⟨hs.handles, fun h hh other hlisted =>
      Rulebook.registers_removed (hs.registered h hh other hlisted) hremoved (by simp [hnone])⟩
  · refine ⟨hs.handles.step (.ruleForgotten _ id), fun h hh other hlisted => ?_⟩
    obtain ⟨g, hg, rfl⟩ := List.mem_map.mp hh
    obtain ⟨hmem, hne⟩ := List.mem_filter.mp hlisted
    refine Rulebook.registers_removed (hs.registered g hg other hmem) hremoved ?_
    rw [hid]
    rintro ⟨⟩
    simp at hne

theorem Subscribed.failed (hs : s.Subscribed) {e : CommandError} (h : s.Failed e t) :
    t.Subscribed := by
  cases h <;> exact ⟨hs.handles, hs.registered⟩

theorem Subscribed.change (hs : s.Subscribed) (h : s.Change t) : t.Subscribed := by
  cases h with
  | none => exact hs
  | failed hfailed => exact hs.failed hfailed
  | stopped => exact ⟨hs.handles, hs.registered⟩
  | added hadd =>
      obtain ⟨id, expression, tag, store, -, rfl⟩ := addRule_eq_ok hadd
      exact ⟨hs.handles, fun h hh id hid =>
        (Rulebook.registers_insert_iff ..).mpr (.inr (hs.registered h hh id hid))⟩
  | deleted hdelete => exact hs.deleteRule hdelete
  | cleared hclear =>
      obtain ⟨store, rfl⟩ := deleteAllRules_eq_ok hclear
      refine ⟨hs.handles.step (.allForgotten _), fun h hh id hid => ?_⟩
      obtain ⟨g, -, rfl⟩ := List.mem_map.mp hh
      cases hid
  | synced hsync =>
      obtain ⟨listing, rfl⟩ := sync_eq_ok hsync
      exact ⟨hs.handles, fun h hh id hid =>
        (Rulebook.registers_mergeEntries_iff ..).mpr (.inr (hs.registered h hh id hid))⟩
  | handleAdded hids hadd =>
      refine ⟨hs.handles.step (.added hadd), fun h hh id hlisted => ?_⟩
      unfold Handles.add at hadd
      split at hadd
      · cases (Prod.mk.inj hadd).2
      · obtain ⟨rfl, -⟩ := Prod.mk.inj hadd
        rcases List.mem_append.mp hh with hold | hnew
        · exact hs.registered h hold id hlisted
        · rw [List.mem_singleton.mp hnew, mem_subscribeTo] at hlisted
          exact registered_of_ruleIds hids id (hlisted.resolve_left List.not_mem_nil)
  | handleRemoved hremove =>
      refine ⟨hs.handles.step (.removed hremove), fun h hh id hlisted => ?_⟩
      obtain rfl := (Handles.remove_eq_some hremove).2
      exact hs.registered h (List.mem_of_mem_eraseP hh) id hlisted
  | fileSet hset =>
      exact hs.changeHandle hset (.fileSet hset) fun g hg id hlisted =>
        hs.registered g hg id hlisted
  | subscribed hids hset =>
      refine hs.changeHandle hset (.subscribed hset) fun g hg id hlisted => ?_
      rcases mem_subscribeTo.mp hlisted with hold | hnew
      · exact hs.registered g hg id hold
      · exact registered_of_ruleIds hids id hnew
  | unsubscribed hids hset =>
      exact hs.changeHandle hset (.unsubscribed hset) fun g hg id hlisted =>
        hs.registered g hg id (List.mem_of_mem_filter hlisted)

/-- A session before its first line, which may have taken the store's listing over, and
every session that a line leads to from such a one. -/
inductive Reached : Session σ → Prop where
  | new (config : Config) (store : σ) (workDir : String) : Reached (Session.new config store workDir)
  | started (config : Config) (store : σ) (workDir : String) (out : Output) :
      Reached ((Session.new config store workDir).startupSync out).1
  | line {s : Session σ} {out : Output} {line : String} {o : Outcome (Session σ)} :
      Reached s → (s.execute out line).EndsIn o → Reached o.state

/-- What holds of new sessions and is kept by every change holds of every session that
lines lead to. -/
theorem Reached.of_change {P : Session σ → Prop}
    (hnew : ∀ config store workDir, P (Session.new config store workDir))
    (hchange : ∀ {s t : Session σ}, s.Change t → P s → P t) (h : s.Reached) : P s := by
  induction h with
  | new config store workDir => exact hnew config store workDir
  | started config store workDir out =>
      exact hchange (startupSync_change _ out) (hnew config store workDir)
  | line _ hline ih => exact hchange (execute_change hline) ih

theorem Leads.reached {s t : Session MemoryStore} {lines : List String} {adds : Nat}
    (h : Leads s lines adds t) (hs : s.Reached) : t.Reached := by
  induction h with
  | stay s => exact hs
  | line hline _ ih => exact ih (hs.line hline)

theorem Reached.subscribed (h : s.Reached) : s.Subscribed :=
  h.of_change subscribed_new fun hchange hs => hs.change hchange

end Session
end RuleDesk
