import RuleDesk.Proofs.Json.Lexing
import Mathlib.Data.List.Basic
import Mathlib.Data.List.TakeWhile
import Mathlib.Data.List.TakeDrop

/-!
# Integers in JSON

An integer that was read is in the range of integers. And an integer of that range is written in
digits that no zero leads, with a minus sign if it is negative, and is read back from them.
-/
namespace RuleDesk.Json

namespace Number

/-- Whether a number is an integer and not a float. -/
def isInteger : Number → Bool
  | integer _ => true
  | real _ => false

/-- Integers lie between `-2 ^ 63` and `2 ^ 64 - 1`. -/
def InRange : Number → Prop
  | integer n => -0x8000000000000000 ≤ n ∧ n < 0x10000000000000000
  | real _ => True

theorem inRange_of_ofLiteral? {l : NumberLiteral} {x : Number} (h : ofLiteral? l = some x) :
    x.InRange := by
  have hreal {y : Number} (hy : Number.real <$> realOf? l = some y) : y.InRange := by
    obtain ⟨_, -, rfl⟩ := Option.map_eq_some_iff.mp hy
    trivial
  unfold ofLiteral? at h
  dsimp only at h
  split at h
  · exact hreal h
  · split at h
    · next hnat =>
        simp only [Bool.and_eq_true, decide_eq_true_eq] at hnat
        obtain rfl := Option.some.inj h
        have hsize : UInt64.size = 0x10000000000000000 := rfl
        simp only [InRange]
        omega
    · split at h
      · next hnegative =>
          simp only [Bool.and_eq_true, decide_eq_true_eq] at hnegative
          obtain rfl := Option.some.inj h
          simp only [InRange]
          omega
      · exact hreal h

end Number

theorem isDigit_of_mem_toDigits {n : Nat} {c : Char} (hc : c ∈ Nat.toDigits 10 n) :
    c.isDigit = true :=
  Nat.isDigit_of_mem_toDigits (by decide) (by decide) hc

theorem digitChar_ne_zero : ∀ d < 10, d ≠ 0 → Nat.digitChar d ≠ '0' := by
  decide

/-- Zeros lead no other number than zero. -/
theorem head?_toDigits {n : Nat} (hn : n ≠ 0) : (Nat.toDigits 10 n).head? ≠ some '0' := by
  induction n using Nat.strong_induction_on with
  | _ n ih =>
      by_cases hsmall : n < 10
      · rw [Nat.toDigits_of_lt_base hsmall]
        simpa using digitChar_ne_zero n hsmall hn
      · have hlarge : 10 ≤ n := Nat.le_of_not_lt hsmall
        have hfront := ih (n / 10) (by omega) (by omega)
        rw [Nat.toDigits_of_base_le (by decide) hlarge, List.head?_append_of_ne_nil]
        · exact hfront
        · exact Nat.toDigits_ne_nil

/-- The spelling of an integer. -/
def NumberLiteral.ofInt (n : Int) : NumberLiteral :=
  ⟨decide (n < 0), Nat.toDigits 10 n.natAbs, none, none⟩

theorem toList_text_integer (n : Int) : (Number.integer n).text.toList =
    if n < 0 then '-' :: Nat.toDigits 10 n.natAbs else Nat.toDigits 10 n.natAbs := by
  rw [Number.text, Int.toString_eq_repr, Int.repr_eq_if]
  by_cases hn : n < 0
  · have habs : (-n).toNat = n.natAbs := by omega
    rw [if_neg (by omega), if_pos hn, habs]
    simp [Nat.repr_eq_ofList_toDigits]
  · have habs : n.toNat = n.natAbs := by omega
    rw [if_pos (by omega), if_neg hn, habs]
    simp [Nat.repr_eq_ofList_toDigits]

theorem span_toDigits (n : Nat) :
    (Nat.toDigits 10 n).span Char.isDigit = (Nat.toDigits 10 n, []) := by
  have hall : ∀ c ∈ Nat.toDigits 10 n, c.isDigit = true := fun c => isDigit_of_mem_toDigits
  rw [List.span_eq_takeWhile_dropWhile, List.takeWhile_eq_self_iff.mpr hall,
    List.dropWhile_eq_nil_iff.mpr hall]

/-- Digits are not missing, and no zero leads them. -/
theorem plain_toDigits (n : Nat) : ((Nat.toDigits 10 n).isEmpty ||
    ((Nat.toDigits 10 n).head? == some '0' && 1 < (Nat.toDigits 10 n).length)) = false := by
  by_cases hn : n = 0
  · rw [hn]
    rfl
  · simp [head?_toDigits hn]

theorem ofChars?_text (n : Int) :
    NumberLiteral.ofChars? (Number.integer n).text.toList = some (.ofInt n) := by
  rw [toList_text_integer, NumberLiteral.ofInt]
  unfold NumberLiteral.ofChars?
  split
  next negative digits hsplit =>
    have hsign : negative = decide (n < 0) ∧ digits = Nat.toDigits 10 n.natAbs := by
      by_cases hn : n < 0
      · rw [if_pos hn] at hsplit
        cases hsplit
        exact ⟨(decide_eq_true hn).symm, rfl⟩
      · rw [if_neg hn] at hsplit
        split at hsplit
        · next rest hdigits =>
            -- a sign is no digit
            have hminus : ('-').isDigit = true :=
              isDigit_of_mem_toDigits (n := n.natAbs) (by rw [hdigits]; exact List.mem_cons_self)
            cases hminus
        · cases hsplit
          exact ⟨(decide_eq_false hn).symm, rfl⟩
    obtain ⟨rfl, rfl⟩ := hsign
    rw [span_toDigits]
    dsimp only
    rw [plain_toDigits, if_neg Bool.false_ne_true]
    rfl

theorem spells_integer (n : Int) :
    Spells (Number.integer n).text.toList [.number (.ofInt n)] := by
  have hliteral := ofChars?_text n
  rw [toList_text_integer] at hliteral ⊢
  have hdigits : ∀ c ∈ Nat.toDigits 10 n.natAbs, Lexer.isNumberChar c = true := fun c hc => by
    rw [Lexer.isNumberChar, isDigit_of_mem_toDigits hc]
    rfl
  by_cases hn : n < 0
  · rw [if_pos hn] at hliteral ⊢
    exact spells_number (.inr rfl) hdigits hliteral
  · rw [if_neg hn] at hliteral ⊢
    have hne : Nat.toDigits 10 n.natAbs ≠ [] := Nat.toDigits_ne_nil
    obtain ⟨c, cs, hsplit⟩ := List.exists_cons_of_ne_nil hne
    have hc : c.isDigit = true := isDigit_of_mem_toDigits (n := n.natAbs) (by simp [hsplit])
    rw [hsplit] at hliteral hdigits ⊢
    exact spells_number (.inl hc) (fun d hd => hdigits d (List.mem_cons_of_mem c hd)) hliteral

theorem ofLiteral?_ofInt {n : Int} (h : (Number.integer n).InRange) :
    Number.ofLiteral? (.ofInt n) = some (.integer n) := by
  have hvalue : Nat.ofDigitChars 10 (Nat.toDigits 10 n.natAbs) 0 = n.natAbs :=
    Nat.ofDigitChars_toDigits (by decide) (by decide)
  have hsize : UInt64.size = 0x10000000000000000 := rfl
  obtain ⟨hleast, hgreatest⟩ := h
  unfold Number.ofLiteral? NumberLiteral.ofInt
  simp only [hvalue, Option.isSome_none, Bool.or_self, Bool.false_eq_true, if_false]
  by_cases hn : n < 0
  · have hsmall : 0 < n.natAbs ∧ n.natAbs ≤ 0x8000000000000000 := by omega
    have hneg : -(n.natAbs : Int) = n := by omega
    simp only [hn, hsmall.1, hsmall.2, hneg, decide_true, Bool.not_true, Bool.false_and,
      Bool.false_eq_true, Bool.and_self, if_true, if_false]
  · have hsmall : n.natAbs < UInt64.size := by omega
    have hpos : (n.natAbs : Int) = n := by omega
    simp only [hn, hsmall, hpos, decide_true, decide_false, Bool.not_false, Bool.and_self, if_true]

end RuleDesk.Json
