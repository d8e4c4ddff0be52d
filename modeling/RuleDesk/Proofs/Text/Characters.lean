import RuleDesk.Text.Blank
import Mathlib.Tactic.ByContra

/-!
# Classes of characters

Blanks, quotes, the backslash and the parentheses are classes of their own: a character of
one of them is in no other. And no blank is a digit or a small letter, and no digit is a letter.
-/
namespace RuleDesk

variable {c : Char}

theorem isLower_iff_toNat : c.isLower = true ↔ 'a'.toNat ≤ c.toNat ∧ c.toNat ≤ 'z'.toNat := by
  have hlower : c.isLower = (decide (c.val ≥ 'a'.val) && decide (c.val ≤ 'z'.val)) := rfl
  rw [hlower, Bool.and_eq_true, decide_eq_true_eq, decide_eq_true_eq]
  exact Iff.rfl

/-- Of the printable ASCII characters only the space is a blank. -/
theorem toNat_of_blank (h : isBlank c = true) : c.toNat ≤ 0x20 ∨ 0x7f < c.toNat := by
  simp only [isBlank, Bool.or_eq_true, Bool.and_eq_true, decide_eq_true_eq, beq_iff_eq] at h
  omega

theorem not_digit_of_lower (h : c.isLower = true) : c.isDigit = false := by
  rw [Bool.eq_false_iff, ne_eq, Char.isDigit_iff_toNat]
  rw [isLower_iff_toNat] at h
  simp only [Char.reduceToNat] at h ⊢
  omega

theorem not_digit_of_blank (h : isBlank c = true) : c.isDigit = false := by
  rw [Bool.eq_false_iff, ne_eq, Char.isDigit_iff_toNat]
  have hcode := toNat_of_blank h
  simp only [Char.reduceToNat]
  omega

theorem not_lower_of_blank (h : isBlank c = true) : c.isLower = false := by
  rw [Bool.eq_false_iff, ne_eq, isLower_iff_toNat]
  have hcode := toNat_of_blank h
  simp only [Char.reduceToNat]
  omega

theorem not_quote_of_blank (h : isBlank c = true) : isQuote c = false := by
  by_contra hquote
  rw [Bool.not_eq_false] at hquote
  simp only [isQuote, Bool.or_eq_true, beq_iff_eq] at hquote
  rcases hquote with rfl | rfl <;> cases h

theorem ne_backslash_of_blank (h : isBlank c = true) : c ≠ '\\' := by
  intro hslash
  rw [hslash] at h
  cases h

theorem ne_parenthesis_of_blank (h : isBlank c = true) : c ≠ '(' ∧ c ≠ ')' := by
  constructor
  · intro hopen
    rw [hopen] at h
    cases h
  · intro hclose
    rw [hclose] at h
    cases h

theorem ne_backslash_of_quote (h : isQuote c = true) : c ≠ '\\' := by
  intro hslash
  rw [hslash] at h
  cases h

theorem ne_parenthesis_of_quote (h : isQuote c = true) : c ≠ '(' ∧ c ≠ ')' := by
  constructor
  · intro hopen
    rw [hopen] at h
    cases h
  · intro hclose
    rw [hclose] at h
    cases h

theorem not_blank_of_quote (h : isQuote c = true) : isBlank c = false := by
  by_contra hblank
  rw [Bool.not_eq_false] at hblank
  rw [not_quote_of_blank hblank] at h
  cases h

end RuleDesk
