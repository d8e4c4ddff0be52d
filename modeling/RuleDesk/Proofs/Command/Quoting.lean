import RuleDesk.Proofs.Command.Spelling

/-!
# Quoted words

A word can be quoted in three ways: with a backslash before each of its characters, or
inside a span of either kind, where a backslash guards the span's quote and the backslash
itself. A line of quoted words with blanks between them is read as these words, whatever
characters they are made of and however each of them is quoted.
-/
namespace RuleDesk

inductive Quoting where
  | backslashes
  | double
  | single
deriving Repr, DecidableEq

namespace Quoting

/-- What stands for a word between two quotes `q`. -/
def guarded (q : Char) (w : List Char) : List Char :=
  w.flatMap fun c => if c = '\\' ∨ c = q then ['\\', c] else [c]

def wrapped (q : Char) (w : String) : String :=
  String.ofList (q :: guarded q w.toList ++ [q])

/-- The text that quotes a word. -/
def quote : Quoting → String → String
  | backslashes, w => Expression.escaped w
  | double, w => wrapped '"' w
  | single, w => wrapped '\'' w

end Quoting

/-- A word of a line, with the blanks in front of it and the way it is quoted. -/
structure QuotedWord where
  gap : String
  quoting : Quoting
  word : String
deriving Repr, DecidableEq

def QuotedWord.text (w : QuotedWord) : String :=
  w.gap ++ w.quoting.quote w.word

namespace Token

variable {q : Char}

/-- Inside its span a guarded word is read as it is. -/
theorem scan_guarded (q : Char) (w word rest : List Char) :
    scan (some q) word (Quoting.guarded q w ++ rest) = scan (some q) (w.reverse ++ word) rest := by
  induction w generalizing word with
  | nil => rfl
  | cons c w ih =>
      have hrest := ih (c :: word)
      rw [Quoting.guarded, List.flatMap_cons, List.append_assoc, List.reverse_cons,
        List.append_assoc]
      by_cases hguard : c = '\\' ∨ c = q
      · rw [if_pos hguard]
        exact hrest
      · obtain ⟨hslash, hquote⟩ := not_or.mp hguard
        have hspan : spanAfter (some q) c = some q := by
          simp [spanAfter, Ne.symm hquote]
        rw [if_neg hguard, List.singleton_append, scan_kept hslash (by simp), hspan, if_pos rfl]
        exact hrest

theorem scan_wrapped (hq : isQuote q = true) (w word rest : List Char) :
    scan none word (q :: Quoting.guarded q w ++ q :: rest) =
      scan none (w.reverse ++ word) rest := by
  have hslash := ne_backslash_of_quote hq
  calc scan none word (q :: Quoting.guarded q w ++ q :: rest)
      = scan (some q) word (Quoting.guarded q w ++ q :: rest) := by
        rw [List.cons_append, scan_cons hslash, if_pos hq]
    _ = scan (some q) (w.reverse ++ word) (q :: rest) := scan_guarded q w word _
    _ = scan none (w.reverse ++ word) rest := by
        rw [scan_cons hslash, if_pos hq]
        simp

/-- However it is quoted, a word is read as it is. -/
theorem scan_quote (quoting : Quoting) (w : String) (word rest : List Char) :
    scan none word ((quoting.quote w).toList ++ rest) =
      scan none (w.toList.reverse ++ word) rest := by
  cases quoting with
  | backslashes =>
      rw [Quoting.quote, Expression.escaped, String.toList_ofList]
      exact scan_escapes w.toList word rest
  | double =>
      rw [Quoting.quote, Quoting.wrapped, String.toList_ofList, List.append_assoc]
      exact scan_wrapped (by decide) w.toList word rest
  | single =>
      rw [Quoting.quote, Quoting.wrapped, String.toList_ofList, List.append_assoc]
      exact scan_wrapped (by decide) w.toList word rest

/-- Quoted words behind a word that is being read: each is kept apart by its blanks. -/
theorem scan_quotedWords {words : List QuotedWord} {trail : List Char}
    (hwords : ∀ w ∈ words, w.word ≠ "") (hgaps : ∀ w ∈ words, Separates w.gap)
    (htrail : ∀ c ∈ trail, isBlank c = true) (word : List Char) :
    scan none word (words.flatMap (fun w => w.text.toList) ++ trail) =
      emit word (words.map QuotedWord.word) := by
  induction words generalizing word with
  | nil => exact scan_blanks htrail word
  | cons w words ih =>
      obtain ⟨hw, hothers⟩ := List.forall_mem_cons.mp hwords
      obtain ⟨hgap, hotherGaps⟩ := List.forall_mem_cons.mp hgaps
      have hrest := ih hothers hotherGaps (w.word.toList.reverse ++ [])
      rw [emit_of_ne_nil (by simpa using hw)] at hrest
      rw [List.flatMap_cons, List.append_assoc, QuotedWord.text, String.toList_append,
        List.append_assoc, scan_separator hgap, scan_quote, hrest]
      simp

end Token

/-- Any words can be quoted in a line, each in its own way, with any blanks that keep them
apart and any blanks at both ends, and come back unchanged. -/
theorem tokenize_quotedWords (words : List QuotedWord) (trail : String)
    (hwords : ∀ w ∈ words, w.word ≠ "")
    (hblank : ∀ w ∈ words, ∀ c ∈ w.gap.toList, isBlank c = true)
    (hgaps : ∀ w ∈ words.tail, w.gap ≠ "")
    (htrail : ∀ c ∈ trail.toList, isBlank c = true) :
    tokenize (String.join (words.map QuotedWord.text) ++ trail) = words.map QuotedWord.word := by
  cases words with
  | nil => exact Token.scan_blanks htrail []
  | cons w words =>
      obtain ⟨hw, hothers⟩ := List.forall_mem_cons.mp hwords
      obtain ⟨hlead, hotherBlanks⟩ := List.forall_mem_cons.mp hblank
      have hseparated : ∀ v ∈ words, Separates v.gap := by
        intro v hv
        exact ⟨hgaps v hv, hotherBlanks v hv⟩
      have hrest := Token.scan_quotedWords hothers hseparated htrail (w.word.toList.reverse ++ [])
      have hline : (String.join ((w :: words).map QuotedWord.text) ++ trail).toList =
          w.gap.toList ++ ((w.quoting.quote w.word).toList ++
            (words.flatMap (fun v => v.text.toList) ++ trail.toList)) := by
        simp [QuotedWord.text, List.flatMap, Function.comp_def]
      rw [Token.emit_of_ne_nil (by simpa using hw)] at hrest
      rw [tokenize, hline, Token.scan_blanks_append hlead, Token.scan_quote, hrest]
      simp

/-- Words with quotes, backslashes and blanks in them. -/
def awkwardWords : List QuotedWord :=
  [⟨" ", .double, "a \"b\" \\"⟩, ⟨"\t ", .single, "it's \"c\""⟩, ⟨"\u3000", .backslashes, " \\'"⟩]

theorem tokenize_quotedWords_awkward :
    ((∀ w ∈ awkwardWords, w.word ≠ "") ∧
      (∀ w ∈ awkwardWords, ∀ c ∈ w.gap.toList, isBlank c = true) ∧
      (∀ w ∈ awkwardWords.tail, w.gap ≠ "") ∧ ∀ c ∈ "\t".toList, isBlank c = true) ∧
    String.join (awkwardWords.map QuotedWord.text) ++ "\t" =
        " \"a \\\"b\\\" \\\\\"\t 'it\\'s \"c\"'\u3000\\ \\\\\\'\t" ∧
      tokenize (String.join (awkwardWords.map QuotedWord.text) ++ "\t") =
        ["a \"b\" \\", "it's \"c\"", " \\'"] := by
  have hwords : ∀ w ∈ awkwardWords, w.word ≠ "" := by decide
  have hblank : ∀ w ∈ awkwardWords, ∀ c ∈ w.gap.toList, isBlank c = true := by
    have hall : (awkwardWords.all fun w => w.gap.toList.all isBlank) = true := by decide
    simpa only [List.all_eq_true] using hall
  have hgaps : ∀ w ∈ awkwardWords.tail, w.gap ≠ "" := by decide
  have htrail : ∀ c ∈ "\t".toList, isBlank c = true := List.all_eq_true.mp (by decide)
  exact ⟨⟨hwords, hblank, hgaps, htrail⟩, by decide,
    tokenize_quotedWords awkwardWords "\t" hwords hblank hgaps htrail⟩

end RuleDesk
