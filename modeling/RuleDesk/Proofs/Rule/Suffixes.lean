import RuleDesk.Proofs.Rule.Requests
import Mathlib.Data.List.Perm.Subperm
import Mathlib.Order.Bounds.Defs

/-!
# How a name gets its suffixes

A name that a rule has gets a suffix, and so does the longer name, until no rule has it. Nothing
bounds the rounds of this search beforehand. But the names that it tries are all different, and all
of them but the last belong to rules: there are no more rounds than rules, and the search stops at
the least number of suffixes that makes the name free.
-/
namespace RuleDesk

theorem suffixed_eq_append (name : String) (k : Nat) :
    suffixed name k = name ++ String.join (List.replicate k "(1)") := by
  induction k with
  | zero => simp [suffixed]
  | succ k ih => simp [suffixed, ih, List.replicate_succ', String.append_assoc]

theorem length_suffixed (name : String) (k : Nat) :
    (suffixed name k).length = name.length + 3 * k := by
  induction k with
  | zero => rfl
  | succ k ih =>
      have hsuffix : "(1)".length = 3 := rfl
      rw [suffixed, String.length_append, ih, hsuffix]
      omega

theorem suffixed_injective (name : String) : Function.Injective (suffixed name) := by
  intro j k hsame
  have hlength := congrArg String.length hsame
  rw [length_suffixed, length_suffixed] at hlength
  omega

namespace Rulebook

variable {b : Rulebook} {name found : String} {rounds : Nat}

/-- The search for a free name: from `name` it takes so many rounds, each of which meets a rule of
the name that is tried, and ends at `found`. -/
inductive Search (b : Rulebook) : String → Nat → String → Prop
  | free {name : String} : b.byName? name = none → Search b name 0 name
  | taken {name found : String} {rule : Rule} {rounds : Nat} :
      b.byName? name = some rule → Search b (name ++ "(1)") rounds found →
      Search b name (rounds + 1) found

theorem exists_byName?_iff : (∃ rule, b.byName? name = some rule) ↔ name ∈ b.names := by
  rw [← Option.ne_none_iff_exists', ne_eq, byName?_eq_none_iff, not_not]

/-- What a search of so many rounds has met. -/
theorem search_iff : b.Search name rounds found ↔ found = suffixed name rounds ∧
    suffixed name rounds ∉ b.names ∧ ∀ j < rounds, suffixed name j ∈ b.names := by
  constructor
  · intro h
    induction h with
    | free hfree => exact ⟨rfl, byName?_eq_none_iff.mp hfree, fun j hj => absurd hj j.not_lt_zero⟩
    | @taken name found rule rounds htaken _ ih =>
        simp only [suffixed_append] at ih
        obtain ⟨hfound, hfree, hearlier⟩ := ih
        refine ⟨hfound, hfree, fun j hj => ?_⟩
        cases j with
        | zero => exact exists_byName?_iff.mp ⟨rule, htaken⟩
        | succ j => exact hearlier j (Nat.lt_of_succ_lt_succ hj)
  · rintro ⟨rfl, hfree, hearlier⟩
    induction rounds generalizing name with
    | zero => exact .free (byName?_eq_none_iff.mpr hfree)
    | succ rounds ih =>
        obtain ⟨rule, htaken⟩ := exists_byName?_iff.mpr (hearlier 0 rounds.succ_pos)
        have hlater := @ih (name ++ "(1)")
        simp only [suffixed_append] at hlater
        exact .taken htaken (hlater hfree fun j hj => hearlier (j + 1) (Nat.succ_lt_succ hj))

/-- The names that have been tried are different names of rules. -/
theorem Search.rounds_le (h : b.Search name rounds found) : rounds ≤ b.rules.length := by
  obtain ⟨-, -, hearlier⟩ := search_iff.mp h
  have hnodup : ((List.range rounds).map (suffixed name)).Nodup :=
    List.nodup_range.map (suffixed_injective name)
  have htaken : (List.range rounds).map (suffixed name) ⊆ b.names := by
    intro tried htried
    obtain ⟨j, hj, rfl⟩ := List.mem_map.mp htried
    exact hearlier j (List.mem_range.mp hj)
  calc rounds = ((List.range rounds).map (suffixed name)).length := by simp
    _ ≤ b.names.length := (List.subperm_of_subset hnodup htaken).length_le
    _ = b.rules.length := List.length_map _

theorem Search.unique {rounds' : Nat} {found' : String} (h : b.Search name rounds found)
    (h' : b.Search name rounds' found') : rounds = rounds' ∧ found = found' := by
  obtain ⟨rfl, hfree, hearlier⟩ := search_iff.mp h
  obtain ⟨rfl, hfree', hearlier'⟩ := search_iff.mp h'
  obtain hless | rfl | hmore := Nat.lt_trichotomy rounds rounds'
  · exact absurd (hearlier' rounds hless) hfree
  · exact ⟨rfl, rfl⟩
  · exact absurd (hearlier rounds' hmore) hfree'

theorem exists_search (b : Rulebook) (name : String) :
    ∃ rounds, b.Search name rounds (b.uniqueName name) := by
  obtain ⟨k, hname, hfree, hearlier⟩ := b.uniqueName_least name
  exact ⟨k, search_iff.mpr ⟨hname, hfree, hearlier⟩⟩

/-- Whatever rules there are and whatever name is asked for, the search for a free name ends, after
no more rounds than there are rules. It finds the name with the least number of suffixes that no
rule has. -/
theorem search_finds_least (b : Rulebook) (name : String) :
    let candidate (k : Nat) := name ++ String.join (List.replicate k "(1)")
    ∃ k ≤ b.rules.length,
      b.Search name k (b.uniqueName name) ∧
      (∀ rounds found, b.Search name rounds found → rounds = k ∧ found = b.uniqueName name) ∧
      b.uniqueName name = candidate k ∧
      IsLeast {k | ∀ rule ∈ b.rules, rule.name ≠ candidate k} k := by
  intro candidate
  obtain ⟨k, hsearch⟩ := b.exists_search name
  obtain ⟨hname, hfree, hearlier⟩ := search_iff.mp hsearch
  have hcandidate (j : Nat) : (∀ rule ∈ b.rules, rule.name ≠ candidate j) ↔
      suffixed name j ∉ b.names := by
    simp [candidate, suffixed_eq_append, names]
  refine ⟨k, hsearch.rounds_le, hsearch, fun rounds found h => h.unique hsearch, ?_,
    (hcandidate k).mpr hfree, fun j hj => ?_⟩
  · rw [hname, suffixed_eq_append]
  · by_contra hless
    exact (hcandidate j).mp hj (hearlier j (Nat.lt_of_not_le hless))

-- as many rounds as rules, behind a name that has suffixes already
example : ({ rules := ["a(1)(1)", "a", "a(1)"].map fun name => ⟨none, name, "cat", "pets"⟩ } :
    Rulebook).uniqueName "a" = "a(1)(1)(1)" := by
  decide +kernel

end Rulebook
end RuleDesk
