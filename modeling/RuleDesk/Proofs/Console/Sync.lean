import RuleDesk.Proofs.Console.Lines
import RuleDesk.Proofs.Rule.Settled

/-!
# A second sync

A session that has synced is left as it is by another sync, as long as the store does not
change in between, and so all further syncs report the same. What they may still report are
rules that the store does not list, and rules whose id the listing gives to entries that
differ.
-/
namespace RuleDesk.Session

/-- A sync takes over what the store holds, and leaves the store as it is. -/
theorem sync_eq (s : Session MemoryStore) :
    sync.run s = .ok (s.rules.merge s.store.rules).2
      { s with rules := (s.rules.merge s.store.rules).1 } := rfl

/-- After a sync another one changes nothing. It reports no new rule and the same unlisted
ones, and updated rules exactly if different entries of the store share an id; both lines
show their report. -/
theorem sync_settles (s : Session MemoryStore) :
    ∃ first second t, sync.run s = .ok first t ∧ sync.run t = .ok second t ∧
      second.pulled = [] ∧ second.unlisted = first.unlisted ∧
      (second.updated = [] ↔ ∀ entry ∈ s.store.rules, ∀ other ∈ s.store.rules,
        entry.id = other.id → entry = other) ∧
      ∀ out line, tokenize line = ["rules", "sync"] →
        s.execute out line =
            .done (.ofText t out "rules sync" (Console.reportText first)) ∧
          t.execute out line =
            .done (.ofText t out "rules sync" (Console.reportText second)) := by
  obtain ⟨hsame, hpulled, hunlisted, hupdated⟩ := s.rules.merge_again s.store.rules
  let t : Session MemoryStore := { s with rules := (s.rules.merge s.store.rules).1 }
  have hkept : (t.rules.merge t.store.rules).1 = t.rules := hsame
  have hsecond : sync.run t = .ok (t.rules.merge t.store.rules).2 t := by
    rw [sync_eq, hkept]
  refine ⟨_, _, t, s.sync_eq, hsecond, hpulled, hunlisted, hupdated, ?_⟩
  intro out line hline
  exact ⟨Console.execute_sync s out hline s.sync_eq, Console.execute_sync t out hline hsecond⟩

/-- A listing with two entries under one id: each of the syncs after the first one reports
the rule twice, though it is the same before and after. -/
theorem sync_repeats_update :
    ∃ store, MemoryStore.ofListing [⟨"1", "cat", "pets"⟩, ⟨"1", "dog", "pets"⟩] = .ok store ∧
    let s : Session MemoryStore := .new {} store ""
    ∃ first t, sync.run s = .ok first t ∧
      sync.run t = .ok { pulled := [], updated := ["Rule0", "Rule0"], unlisted := [] } t ∧
      t.execute {} "rules sync" =
        .done (.ofText t {} "rules sync" "Updated: Rule0, Rule0\n") := by
  refine ⟨{ rules := [⟨"1", "cat", "pets"⟩, ⟨"1", "dog", "pets"⟩], nextId := 2 }, by rfl, ?_⟩
  intro s
  let t : Session MemoryStore :=
    { s with rules := ⟨[⟨some "1", "Rule0", "dog", "pets"⟩], 1, "Rule"⟩ }
  have hfirst : s.rules.merge s.store.rules =
      (t.rules, { pulled := ["Rule0"], updated := ["Rule0"], unlisted := [] }) := by
    decide +kernel
  have hsecond : t.rules.merge t.store.rules =
      (t.rules, { pulled := [], updated := ["Rule0", "Rule0"], unlisted := [] }) := by
    decide +kernel
  have hsync : sync.run t =
      .ok { pulled := [], updated := ["Rule0", "Rule0"], unlisted := [] } t := by
    rw [sync_eq, hsecond]
  have hline : tokenize "rules sync" = ["rules", "sync"] := by decide +kernel
  refine ⟨_, t, by rw [sync_eq, hfirst], hsync, ?_⟩
  exact Console.execute_sync t {} hline hsync

end RuleDesk.Session
