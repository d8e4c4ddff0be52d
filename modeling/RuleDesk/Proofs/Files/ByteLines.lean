import RuleDesk.Files.Bytes
import Mathlib.Data.List.TakeDrop

/-!
# Lines of bytes

Bytes without a line feed are at most one line. Others are a first line, up to its
line feed, and the lines of what is behind it; cutting finds the same first line.
-/
namespace RuleDesk.Bytes

theorem linesFrom_append {line : Bytes} (hline : 10 ∉ line) (before rest : Bytes) :
    linesFrom before (line ++ rest) = linesFrom (line.reverse ++ before) rest := by
  induction line generalizing before with
  | nil => rfl
  | cons b line ih =>
      obtain ⟨hb, hline⟩ : 10 ≠ b ∧ 10 ∉ line := by simpa using hline
      rw [List.cons_append, linesFrom, if_neg (Ne.symm hb), ih hline]
      simp

theorem toLines_append {line : Bytes} (hline : 10 ∉ line) (rest : Bytes) :
    toLines (line ++ 10 :: rest) = (line ++ [10]) :: toLines rest := by
  rw [toLines, linesFrom_append hline, linesFrom, if_pos rfl]
  simp [toLines]

theorem toLines_of_not_mem {b : Bytes} (hb : 10 ∉ b) :
    toLines b = if b.isEmpty then [] else [b] := by
  have hwhole := linesFrom_append hb [] []
  rw [List.append_nil] at hwhole
  rw [toLines, hwhole, linesFrom]
  simp

/-- Whole lines are cut off by any line feed. -/
theorem toLines_append_feed (front rest : Bytes) :
    toLines (front ++ 10 :: rest) = toLines (front ++ [10]) ++ toLines rest := by
  have hfrom (line : Bytes) : linesFrom line (front ++ 10 :: rest) =
      linesFrom line (front ++ [10]) ++ linesFrom [] rest := by
    induction front generalizing line with
    | nil => simp [linesFrom]
    | cons b front ih =>
        rw [List.cons_append, List.cons_append, linesFrom, linesFrom, ih, ih]
        split <;> rfl
  exact hfrom []

theorem flatten_toLines (b : Bytes) : b.toLines.flatten = b := by
  have hfrom (line : Bytes) : (linesFrom line b).flatten = line.reverse ++ b := by
    induction b generalizing line with
    | nil => cases line <;> simp [linesFrom]
    | cons b rest ih =>
        rw [linesFrom]
        split <;> simp [ih]
  exact hfrom []

/-- Lines taken from the front of some bytes are lines again. -/
theorem toLines_flatten {front : List Bytes} {b : Bytes} (h : front <+: b.toLines) :
    toLines front.flatten = front := by
  induction front generalizing b with
  | nil => rfl
  | cons line front ih =>
      by_cases hb : 10 ∈ b
      · obtain ⟨first, later, rfl, hfirst⟩ := List.eq_append_cons_of_mem hb
        rw [toLines_append hfirst, List.cons_prefix_cons] at h
        obtain ⟨rfl, hfront⟩ := h
        rw [List.flatten_cons, List.append_assoc, List.singleton_append, toLines_append hfirst,
          ih hfront]
      · -- the only line is the last one, which lacks its line feed
        rw [toLines_of_not_mem hb] at h
        split at h
        · simp at h
        · next hnonempty =>
            rw [List.cons_prefix_cons, List.prefix_nil] at h
            obtain ⟨rfl, rfl⟩ := h
            simp [toLines_of_not_mem hb, hnonempty]

theorem span_append {line : Bytes} (hline : 10 ∉ line) (rest : Bytes) :
    (line ++ 10 :: rest).span (· != 10) = (line, 10 :: rest) := by
  have hall : ∀ b ∈ line, (b != 10) = true := fun b hb => by
    rw [bne_iff_ne]
    rintro rfl
    exact hline hb
  rw [List.span_eq_takeWhile_dropWhile, List.takeWhile_append_of_pos hall,
    List.dropWhile_append_of_pos hall]
  simp

theorem cutLine?_append {line : Bytes} (hline : 10 ∉ line) (rest : Bytes) :
    (line ++ 10 :: rest).cutLine? = some (line ++ [10], rest) := by
  rw [cutLine?, span_append hline]

theorem cutLine?_of_not_mem {b : Bytes} (hb : 10 ∉ b) : b.cutLine? = none := by
  have hall : ∀ a ∈ b, (a != 10) = true := fun a ha => by
    rw [bne_iff_ne]
    rintro rfl
    exact hb ha
  have hspan : b.span (· != 10) = (b, []) := by
    have htake := @List.takeWhile_append_of_pos _ (· != 10) b [] hall
    have hdrop := @List.dropWhile_append_of_pos _ (· != 10) b [] hall
    simp only [List.append_nil, List.takeWhile_nil, List.dropWhile_nil] at htake hdrop
    rw [List.span_eq_takeWhile_dropWhile, htake, hdrop]
  rw [cutLine?, hspan]

/-- What a cut finds. -/
theorem cutLine?_eq_some {b line rest : Bytes} (h : b.cutLine? = some (line, rest)) :
    b = line ++ rest ∧ (∀ more, (b ++ more).cutLine? = some (line, rest ++ more)) ∧
      toLines b = line :: toLines rest := by
  by_cases hb : 10 ∈ b
  · obtain ⟨first, later, rfl, hfirst⟩ := List.eq_append_cons_of_mem hb
    rw [cutLine?_append hfirst] at h
    obtain ⟨rfl, rfl⟩ := Prod.mk.inj (Option.some.inj h)
    refine ⟨by simp, fun more => ?_, toLines_append hfirst later⟩
    rw [List.append_assoc, List.cons_append, cutLine?_append hfirst]
  · rw [cutLine?_of_not_mem hb] at h
    cases h

theorem cutLine?_eq_none {b : Bytes} (h : b.cutLine? = none) :
    toLines b = if b.isEmpty then [] else [b] := by
  refine toLines_of_not_mem fun hb => ?_
  obtain ⟨first, later, rfl, hfirst⟩ := List.eq_append_cons_of_mem hb
  rw [cutLine?_append hfirst] at h
  cases h

/-- Every line has a byte. -/
theorem length_toLines_le (b : Bytes) : (toLines b).length ≤ b.length := by
  by_cases hb : 10 ∈ b
  · obtain ⟨first, later, hsplit, hfirst⟩ := List.eq_append_cons_of_mem hb
    have hshorter : later.length < b.length := by simp [hsplit]; omega
    have hlater := length_toLines_le later
    rw [hsplit, toLines_append hfirst, List.length_cons, ← hsplit]
    omega
  · rw [toLines_of_not_mem hb]
    cases b <;> simp
termination_by b.length

end RuleDesk.Bytes
