import RuleDesk.Proofs.Command.Words
import RuleDesk.Proofs.Filter.OperatorText

/-!
# Lines that spell words

Any words can be said in a line, whatever characters they are made of: a word with a
backslash before each of its characters is read as that word. Blanks between spelled words
keep them apart.
-/
namespace RuleDesk

/-- Blanks that keep words apart. -/
structure Separates (gap : String) : Prop where
  nonempty : gap ≠ ""
  blank : ∀ c ∈ gap.toList, isBlank c = true

namespace Token

theorem scan_escapes (w word rest : List Char) :
    scan none word (w.flatMap (fun c => ['\\', c]) ++ rest) =
      scan none (w.reverse ++ word) rest := by
  induction w generalizing word with
  | nil => rfl
  | cons c w ih =>
      change scan none (c :: word) (w.flatMap (fun c => ['\\', c]) ++ rest) = _
      rw [ih]
      simp

/-- A spelled word at the end of the line. -/
theorem scan_escaped {w : String} (hw : w ≠ "") :
    scan none [] (Expression.escaped w).toList = [w] := by
  have hne : w.toList.reverse ≠ [] := by simpa using hw
  rw [Expression.escaped, String.toList_ofList]
  calc scan none [] (w.toList.flatMap fun c => ['\\', c])
      = scan none [] (w.toList.flatMap (fun c => ['\\', c]) ++ []) := by rw [List.append_nil]
    _ = emit w.toList.reverse [] := by rw [scan_escapes, List.append_nil]; rfl
    _ = [w] := by rw [emit_of_ne_nil hne, List.reverse_reverse, String.ofList_toList]

/-- Blanks end the word that is being read. -/
theorem scan_separator {gap : String} (hgap : Separates gap) (word rest : List Char) :
    scan none word (gap.toList ++ rest) = emit word (scan none [] rest) := by
  have hblank := hgap.blank
  cases hchars : gap.toList with
  | nil => exact absurd hchars (by simpa using hgap.nonempty)
  | cons b blanks =>
      rw [hchars] at hblank
      obtain ⟨hb, hothers⟩ := List.forall_mem_cons.mp hblank
      rw [List.cons_append, scan_blank hb, scan_blanks_append hothers]

/-- A spelled word with blanks behind it. -/
theorem scan_escaped_append {gap w : String} (hgap : Separates gap) (hw : w ≠ "")
    (rest : List Char) :
    scan none [] ((Expression.escaped w).toList ++ (gap.toList ++ rest)) =
      w :: scan none [] rest := by
  have hword : w.toList.reverse ≠ [] := by simpa using hw
  rw [Expression.escaped, String.toList_ofList, scan_escapes, List.append_nil,
    scan_separator hgap, emit_of_ne_nil hword, List.reverse_reverse, String.ofList_toList]

end Token

/-- A word of the line for each word, every character behind a backslash. -/
theorem tokenize_escaped {gap : String} (hgap : Separates gap) {words : List String}
    (hwords : ∀ w ∈ words, w ≠ "") :
    tokenize (gap.intercalate (words.map Expression.escaped)) = words := by
  unfold tokenize
  induction words with
  | nil => rfl
  | cons w words ih =>
      obtain ⟨hw, hothers⟩ := List.forall_mem_cons.mp hwords
      cases words with
      | nil => exact Token.scan_escaped hw
      | cons next later =>
          rw [List.map_cons, List.map_cons, String.intercalate_cons_cons, String.toList_append,
            String.toList_append, List.append_assoc, Token.scan_escaped_append hgap hw,
            ← List.map_cons, ih hothers]

/-- A line that begins with some words and a blank, and then spells another word. -/
theorem tokenize_append_escaped {head : String} {words : List String}
    (hhead : ∀ rest, Token.scan none [] (head.toList ++ rest) = words ++ Token.scan none [] rest)
    {w : String} (hw : w ≠ "") : tokenize (head ++ Expression.escaped w) = words ++ [w] := by
  unfold tokenize
  rw [String.toList_append, hhead, Token.scan_escaped hw]

end RuleDesk
