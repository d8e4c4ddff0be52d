import RuleDesk.Rule.Basic

/-!
# Lists with one entry of a kind

In a list of which no two entries are wanted, whatever finds, drops or keeps what is wanted
agrees on the one entry. And ids that come to others one after the other, each only once, leave
those that were not there before, in the order in which they appear first.
-/
namespace RuleDesk

section
variable {α : Type} {entries : List α} {wanted : α → Bool} {a : α}

theorem pairwise_beq_of_nodup_map {β : Type} [BEq β] [LawfulBEq β] {f : α → β}
    (h : (entries.map f).Nodup) (value : β) :
    entries.Pairwise fun a b => (f a == value) = true → (f b == value) = false :=
  (List.pairwise_map.mp h).imp fun hne ha => by
    rw [beq_iff_eq] at ha
    exact beq_eq_false_iff_ne.mpr (ha ▸ Ne.symm hne)

theorem eraseP_eq_filter_not
    (h : entries.Pairwise fun a b => wanted a = true → wanted b = false) :
    entries.eraseP wanted = entries.filter (!wanted ·) := by
  induction h with
  | nil => rfl
  | @cons first rest hlater _ ih =>
      by_cases hfirst : wanted first = true
      · have hothers : rest.filter (!wanted ·) = rest :=
          List.filter_eq_self.mpr fun other hother => by simp [hlater other hother hfirst]
        rw [List.eraseP_cons_of_pos hfirst, List.filter_cons_of_neg (by simp [hfirst]), hothers]
      · rw [List.eraseP_cons_of_neg hfirst, List.filter_cons_of_pos (by simp [hfirst]), ih]

theorem filter_eq_singleton
    (h : entries.Pairwise fun a b => wanted a = true → wanted b = false) (ha : a ∈ entries)
    (hwanted : wanted a = true) : entries.filter wanted = [a] := by
  induction h with
  | nil => cases ha
  | @cons first rest hlater _ ih =>
      by_cases hfirst : wanted first = true
      · have hothers : rest.filter wanted = [] :=
          List.filter_eq_nil_iff.mpr fun other hother => by simp [hlater other hother hfirst]
        have hsame : a = first := (List.mem_cons.mp ha).resolve_right fun hmem => by
          simp [hlater a hmem hfirst] at hwanted
        rw [List.filter_cons_of_pos hfirst, hothers, hsame]
      · have hne : a ≠ first := fun hsame => hfirst (hsame ▸ hwanted)
        rw [List.filter_cons_of_neg hfirst, ih ((List.mem_cons.mp ha).resolve_left hne)]

theorem find?_eq_some_iff_of_pairwise
    (h : entries.Pairwise fun a b => wanted a = true → wanted b = false) :
    entries.find? wanted = some a ↔ a ∈ entries ∧ wanted a = true := by
  constructor
  · intro hfound
    exact ⟨List.mem_of_find?_eq_some hfound, List.find?_some hfound⟩
  · rintro ⟨ha, hwanted⟩
    rw [← List.head?_filter, filter_eq_singleton h ha hwanted]
    rfl

end

/-- The ids that are not known yet, each where it appears first. -/
def newcomers (known ids : List RuleId) : List RuleId :=
  (ids.filter (· ∉ known)).eraseDups

variable {known : List RuleId} {id : RuleId}

theorem mem_of_mem_newcomers {ids : List RuleId} (h : id ∈ newcomers known ids) : id ∈ ids :=
  (List.mem_filter.mp (List.mem_eraseDups.mp h)).1

theorem newcomers_of_mem (h : id ∈ known) (ids : List RuleId) :
    newcomers known (id :: ids) = newcomers known ids := by
  rw [newcomers, List.filter_cons_of_neg (by simpa using h), newcomers]

/-- An id that comes in is known to those behind it. -/
theorem newcomers_of_not_mem (h : id ∉ known) (ids : List RuleId) :
    newcomers known (id :: ids) = id :: newcomers (known ++ [id]) ids := by
  rw [newcomers, List.filter_cons_of_pos (by simpa using h), List.eraseDups_cons,
    List.filter_filter, newcomers]
  refine congrArg (fun later => id :: List.eraseDups later) (List.filter_congr fun other _ => ?_)
  rw [Bool.eq_iff_iff]
  simp [and_comm]

theorem newcomers_cons (known : List RuleId) (id : RuleId) (ids : List RuleId) :
    newcomers known (id :: ids) =
      newcomers known [id] ++ newcomers (known ++ newcomers known [id]) ids := by
  by_cases h : id ∈ known
  · rw [newcomers_of_mem h, newcomers_of_mem h]
    simp [newcomers]
  · rw [newcomers_of_not_mem h, newcomers_of_not_mem h]
    simp [newcomers]

end RuleDesk
