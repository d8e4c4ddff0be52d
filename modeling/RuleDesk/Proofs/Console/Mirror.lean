import RuleDesk.Proofs.Console.Change
import RuleDesk.Proofs.Console.Lines
import RuleDesk.Proofs.Rule.Mirror
import RuleDesk.Proofs.Rule.Numbering
import Mathlib.Data.List.Nodup

/-!
# Local rules mirror the store

From the first merge on, the rulebook of a session and its store hold the same
rules in the same order, whatever lines are carried out. The invariant says that
the book mirrors the store's listing, that the listed ids are distinct, and that
the store's counter stands above all of them that are numbers: hence a rule that
is added gets a new id, and both sides append it.
-/
namespace RuleDesk.Session

/-- The rulebook holds what the store lists, and the next id is new. -/
structure Mirrored (s : Session MemoryStore) : Prop where
  mirrors : s.rules.Mirrors s.store.rules
  ids : (s.store.rules.map ListedRule.id).Nodup
  numbered : s.store.Numbered

variable {s t : Session MemoryStore}

/-- The store loses the rule: one that it does not hold is no failure. -/
theorem unstoreRule_eq (s : Session MemoryStore) (id : RuleId) :
    (unstoreRule id).run s =
      .ok () { s with store.rules := s.store.rules.eraseP (·.id == id) } := by
  simp only [unstoreRule, EStateM.run]
  by_cases hheld : s.store.rules.any (·.id == id) = true
  · have hdelete : RuleStore.delete s.store id =
        .ok () { s.store with rules := s.store.rules.eraseP (·.id == id) } := if_pos hheld
    rw [hdelete]
  · have hdelete : RuleStore.delete s.store id = .error (.unknownRule id) s.store := if_neg hheld
    have hkept : s.store.rules.eraseP (·.id == id) = s.store.rules :=
      List.eraseP_of_forall_not fun entry hentry hid =>
        hheld (List.any_eq_true.mpr ⟨entry, hentry, hid⟩)
    rw [hdelete, hkept]

/-- A mirrored session is left as it is by a sync, which reports nothing. -/
theorem Mirrored.sync_eq (hs : s.Mirrored) : sync.run s = .ok {} s := by
  have hmerged : sync.run s = .ok (s.rules.merge s.store.rules).2
      { s with rules := (s.rules.merge s.store.rules).1 } := rfl
  rw [hmerged, hs.mirrors.merge_eq hs.ids]

theorem Mirrored.addRule (hs : s.Mirrored) {name? tag? : Option String} {text : String}
    {rule : Rule} (h : (addRule name? text tag?).run s = .ok rule t) : t.Mirrored := by
  obtain ⟨id, expression, tag, store, hadd, rfl⟩ := addRule_eq_ok h
  have hnumbered : store.Numbered := hs.numbered.add hadd
  obtain ⟨rfl, -, hstore⟩ := MemoryStore.add_eq_ok hadd
  have hfresh : toString s.store.nextId.toNat ∉ s.store.rules.map ListedRule.id :=
    hs.numbered.fresh
  have hids : (s.store.rules.map ListedRule.id ++ [toString s.store.nextId.toNat]).Nodup := by
    rw [← List.concat_eq_append]
    exact List.Nodup.concat hfresh hs.ids
  refine ⟨?_, ?_, hnumbered⟩
  · rw [hstore]
    exact hs.mirrors.insert hfresh name? expression tag
  · rw [hstore]
    simpa using hids

theorem Mirrored.deleteRule (hs : s.Mirrored) {name : String} {rule : Rule}
    (h : (deleteRule name).run s = .ok rule t) : t.Mirrored := by
  obtain ⟨rules, hremoved, hcases⟩ := deleteRule_eq_ok h
  obtain ⟨_, hfound, heq⟩ := Option.map_eq_some_iff.mp hremoved
  cases heq
  obtain ⟨entry, -, hmatch⟩ := Rulebook.exists_entry hs.mirrors (List.mem_of_find?_eq_some hfound)
  rw [hmatch.id] at hcases
  obtain ⟨hnone, -⟩ | ⟨id, store, hid, hstore, rfl⟩ := hcases
  · cases hnone
  · obtain rfl := Option.some.inj hid
    rw [unstoreRule_eq] at hstore
    cases hstore
    have hsublist : (s.store.rules.eraseP (·.id == entry.id)).Sublist s.store.rules :=
      List.eraseP_sublist
    exact ⟨hs.mirrors.erase hs.ids hfound hmatch.id,
      hs.ids.sublist (hsublist.map ListedRule.id), hs.numbered.sublist hsublist⟩

theorem Mirrored.deleteAllRules (hs : s.Mirrored) {count : Nat}
    (h : deleteAllRules.run s = .ok count t) : t.Mirrored := by
  cases h
  exact ⟨.clear, .nil, hs.numbered.sublist (List.nil_sublist _)⟩

/-- No change comes between the rulebook and the store. -/
theorem Change.mirrored (h : s.Change t) (hs : s.Mirrored) : t.Mirrored := by
  cases h with
  | failed hfailed =>
      cases hfailed with
      | unchanged => exact hs
      | refused hcall =>
          rw [hcall.eq_self]
          exact hs
      | broken => exact ⟨hs.mirrors, hs.ids, hs.numbered⟩
  | added hadd => exact hs.addRule hadd
  | deleted hdelete => exact hs.deleteRule hdelete
  | cleared hclear => exact hs.deleteAllRules hclear
  | synced hsync =>
      rw [hs.sync_eq] at hsync
      cases hsync
      exact hs
  | _ => exact ⟨hs.mirrors, hs.ids, hs.numbered⟩

/-- One if the store is asked in between for a number, whether or not there is one, and zero
otherwise: it then holds more rules, or the program has broken down. -/
def additions (s t : Session MemoryStore) : Nat :=
  if s.store.rules.length < t.store.rules.length ∨ s.fault ≠ t.fault then 1 else 0

theorem addRule_counts {name? tag? : Option String} {text : String} {rule : Rule}
    (h : (addRule name? text tag?).run s = .ok rule t) :
    additions s t = 1 ∧ t.store.nextId.toNat = s.store.nextId.toNat + 1 := by
  obtain ⟨id, expression, tag, store, hstored, rfl⟩ := addRule_eq_ok h
  obtain ⟨-, hnext, hstore⟩ := MemoryStore.add_eq_ok hstored
  have hlonger : s.store.rules.length < store.rules.length := by
    rw [hstore, List.length_append, List.length_singleton]
    exact Nat.lt_succ_self _
  exact ⟨if_pos (.inl hlonger), hnext⟩

theorem deleteRule_nextId {name : String} {rule : Rule}
    (h : (deleteRule name).run s = .ok rule t) : t.store.nextId = s.store.nextId := by
  obtain ⟨rules, -, ⟨-, rfl⟩ | ⟨id, store, -, hstore, rfl⟩⟩ := deleteRule_eq_ok h
  · rfl
  · rw [unstoreRule_eq] at hstore
    cases hstore
    rfl

/-- The counter of the store goes on by one for an added rule, and only for one. -/
theorem Change.nextId_le (h : s.Change t) :
    t.store.nextId.toNat ≤ s.store.nextId.toNat + additions s t := by
  cases h with
  | failed hfailed =>
      cases hfailed with
      | refused hcall =>
          rw [hcall.eq_self]
          exact Nat.le_add_right _ _
      | _ => exact Nat.le_add_right _ _
  | added hadd =>
      obtain ⟨hone, hnext⟩ := addRule_counts hadd
      rw [hone, hnext]
  | deleted hdelete =>
      rw [deleteRule_nextId hdelete]
      exact Nat.le_add_right _ _
  | cleared hclear =>
      cases hclear
      exact Nat.le_add_right _ _
  | synced hsync =>
      cases hsync
      exact Nat.le_add_right _ _
  | _ => exact Nat.le_add_right _ _

/-- As long as there is a number for a rule, the program does not break down. -/
theorem Change.fault_eq (h : s.Change t)
    (hroom : s.store.nextId.toNat + additions s t < UInt64.size) : t.fault = s.fault := by
  cases h with
  | failed hfailed =>
      cases hfailed with
      | broken hadd =>
          have hlast := MemoryStore.add_eq_fault hadd
          by_contra hbroken
          rw [additions, if_pos (.inr (Ne.symm hbroken))] at hroom
          omega
      | _ => rfl
  | added hadd =>
      obtain ⟨id, expression, tag, store, -, rfl⟩ := addRule_eq_ok hadd
      rfl
  | deleted hdelete =>
      obtain ⟨rules, -, ⟨-, rfl⟩ | ⟨id, store, -, -, rfl⟩⟩ := deleteRule_eq_ok hdelete <;> rfl
  | cleared hclear =>
      cases hclear
      rfl
  | synced hsync =>
      cases hsync
      rfl
  | _ => rfl

/-- Lines lead from a session to another, each with an output of its own. The number
counts the lines that asked the store for a number. -/
inductive Leads : Session MemoryStore → List String → Nat → Session MemoryStore → Prop where
  | stay (s : Session MemoryStore) : Leads s [] 0 s
  | line {s t : Session MemoryStore} {out : Output} {line : String} {lines : List String}
      {adds : Nat} {outcome : Outcome (Session MemoryStore)} :
      (s.execute out line).EndsIn outcome → Leads outcome.state lines adds t →
        Leads s (line :: lines) (additions s outcome.state + adds) t

/-- Carries out lines with files that refuse everything. -/
def refusedRun (s : Session MemoryStore) : List String → Nat × Session MemoryStore
  | [] => (0, s)
  | line :: lines =>
    let t := (s.execute {} line).refused.state
    let (adds, u) := refusedRun t lines
    (additions s t + adds, u)

/-- All lines can be carried out, one after the other. -/
theorem leads_refusedRun (s : Session MemoryStore) (lines : List String) :
    Leads s lines (refusedRun s lines).1 (refusedRun s lines).2 := by
  induction lines generalizing s with
  | nil => exact .stay s
  | cons line lines ih => exact .line (FileTask.endsIn_refused _) (ih _)

/-- What every change keeps is kept by all lines. -/
theorem Leads.kept {P : Session MemoryStore → Prop}
    (hchange : ∀ {s t : Session MemoryStore}, s.Change t → P s → P t)
    {lines : List String} {adds : Nat} (h : Leads s lines adds t) (hs : P s) : P t := by
  induction h with
  | stay s => exact hs
  | line hline _ ih => exact ih (hchange (execute_change hline) hs)

/-- With numbers for all rules, no line makes the program break down. -/
theorem Leads.fault_eq {lines : List String} {adds : Nat} (h : Leads s lines adds t)
    (hroom : s.store.nextId.toNat + adds < UInt64.size) : t.fault = s.fault := by
  induction h with
  | stay s => rfl
  | line hline _ ih =>
      have hone := execute_change hline
      -- what a line uses up of the counter is among the adds that are counted
      have hnext := hone.nextId_le
      exact (ih (by omega)).trans (hone.fault_eq (by omega))

/-- The first sync takes over the whole listing, whether or not the output takes
the report. -/
theorem startupSync_state {report : SyncReport} (h : sync.run s = .ok report t) (out : Output) :
    (s.startupSync out).1 = t := by
  unfold startupSync
  rw [h]
  dsimp only
  split
  · rfl
  · split <;> rfl

/-- The session behind the first sync over a store with a listing. -/
theorem startupSync_ofListing (config : Config) {listing : List ListedRule} {store : MemoryStore}
    (hstore : MemoryStore.ofListing listing = .ok store) (cap : Option Nat) (workDir : String)
    (out : Output) (hids : (listing.map ListedRule.id).Nodup) :
    let s := ((Session.new config { store with cap } workDir).startupSync out).1
    s.Mirrored ∧ s.fault = none ∧
      s.store.nextId.toNat = (MemoryStore.greatestNumber? listing).getD 0 + 1 := by
  obtain ⟨hnext, hrules⟩ := MemoryStore.ofListing_eq_ok_iff.mp hstore
  have hheld : store.rules = listing := by rw [hrules]
  have hnumbered : store.Numbered := MemoryStore.numbered_ofListing hstore
  rw [startupSync_state rfl]
  refine ⟨⟨Rulebook.merge_mirrors rfl ?_, ?_, hnumbered⟩, rfl, hnext⟩ <;>
    exact hheld.symm ▸ hids

/-- After the first sync and any lines, the rules of the book are the rules that the
store lists, in the same order, and a sync has nothing to report. With numbers for all
rules there is a store that begins with the listing, and no line makes the program
break down. -/
theorem rules_mirror_store (config : Config) {listing : List ListedRule} (cap : Option Nat)
    (workDir : String) (out : Output) (hids : (listing.map ListedRule.id).Nodup)
    (hlisted : (MemoryStore.greatestNumber? listing).getD 0 < UInt64.size - 1) :
    ∃ store, MemoryStore.ofListing listing = .ok store ∧
      ∀ {lines : List String} {adds : Nat} {s : Session MemoryStore},
        Leads ((Session.new config { store with cap } workDir).startupSync out).1 lines adds s →
        (MemoryStore.greatestNumber? listing).getD 0 + adds < UInt64.size - 1 →
        s.fault = none ∧
        (∃ entries, RuleStore.list s.store = .ok entries ∧
          s.rules.rules.map (fun rule => (rule.id, rule.expression, rule.tag)) =
            entries.map fun entry => (some entry.id, entry.text, entry.tag)) ∧
        sync.run s = .ok {} s ∧
        ∀ out line, tokenize line = ["rules", "sync"] →
          s.execute out line = .done (.ofText s out "rules sync" "Rules are in sync\n") := by
  obtain ⟨store, hstore⟩ := MemoryStore.exists_ofListing listing (by omega)
  refine ⟨store, hstore, fun {lines adds s} hrun hroom => ?_⟩
  obtain ⟨hstart, hworks, hnext⟩ :=
    startupSync_ofListing config hstore cap workDir out hids
  have hmirrored : s.Mirrored := hrun.kept Change.mirrored hstart
  have hfault : s.fault = none := (hrun.fault_eq (by omega)).trans hworks
  refine ⟨hfault, ⟨s.store.rules, rfl, hmirrored.mirrors.map_eq⟩, hmirrored.sync_eq, ?_⟩
  intro out line hline
  exact Console.execute_sync s out hline hmirrored.sync_eq

/-- A listing with a number and a word as ids, a rule that is added, one that is
refused, and one that goes. -/
theorem rules_mirror_store_mixed_ids :
    ∃ store, MemoryStore.ofListing [⟨"5", "cat", "pets"⟩, ⟨"x", "dog", "pets"⟩] = .ok store ∧
    let s := (refusedRun ((Session.new {} { store with cap := some 3 } "").startupSync {}).1
      ["rules add birds '(OR owl jay)'", "rules add more (", "rules delete Rule0"]).2
    s.store.rules.map ListedRule.id = ["x", "6"] ∧ sync.run s = .ok {} s := by
  have hids : (([⟨"5", "cat", "pets"⟩, ⟨"x", "dog", "pets"⟩] : List ListedRule).map
      ListedRule.id).Nodup := by decide
  obtain ⟨store, hstore, hruns⟩ := rules_mirror_store {} (some 3) "" {} hids (by decide +kernel)
  have hvalue : MemoryStore.ofListing [⟨"5", "cat", "pets"⟩, ⟨"x", "dog", "pets"⟩] =
      .ok { rules := [⟨"5", "cat", "pets"⟩, ⟨"x", "dog", "pets"⟩], nextId := 6 } := by rfl
  obtain rfl := Except.ok.inj (hstore.symm.trans hvalue)
  obtain ⟨-, -, hsync, -⟩ := hruns (leads_refusedRun _
    ["rules add birds '(OR owl jay)'", "rules add more (", "rules delete Rule0"])
    (by decide +kernel)
  exact ⟨_, hvalue, by decide +kernel, hsync⟩

end RuleDesk.Session
