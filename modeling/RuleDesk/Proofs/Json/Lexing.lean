import RuleDesk.Json.Token
import RuleDesk.Proofs.Text.Characters

/-!
# Printed texts and their tokens

A text spells tokens if the lexer reads them from it wherever a number or a word may end behind
it, and if no control character is in it. Punctuation, words and numbers are such texts, and so is
what is put together from them, as long as nothing that could belong to a number or a word directly
follows one.
-/
namespace RuleDesk.Json

/-- No number or word goes on here. -/
def Ends (rest : List Char) : Prop :=
  ∀ c ∈ rest.head?, Lexer.isNumberChar c = false ∧ c.isLower = false

theorem ends_cons {c : Char} (hnumber : Lexer.isNumberChar c = false) (hword : c.isLower = false)
    (rest : List Char) : Ends (c :: rest) := by
  simp [Ends, hnumber, hword]

theorem Ends.append {text : List Char} (h : Ends text) (hne : text ≠ []) (rest : List Char) :
    Ends (text ++ rest) := by
  cases text with
  | nil => exact absurd rfl hne
  | cons c text => exact h

/-- The text is read as these tokens, and it has no control characters: none of it ends a line. -/
structure Spells (text : List Char) (tokens : List Token) : Prop where
  run : ∀ done rest, Ends rest → Lexer.run done .between (text ++ rest) =
    Lexer.run (tokens.reverse ++ done) .between rest
  printable : ∀ c ∈ text, 0x20 ≤ c.toNat

namespace Spells

variable {text more : List Char} {tokens others : List Token} {token : Token} {c : Char}

theorem append (h : Spells text tokens) (hmore : Spells more others) (hends : Ends more)
    (hne : more ≠ []) : Spells (text ++ more) (tokens ++ others) where
  run done rest hrest := by
    rw [List.append_assoc, h.run done _ (hends.append hne rest), hmore.run _ rest hrest,
      List.reverse_append, List.append_assoc]
  printable c hc := (List.mem_append.mp hc).elim (h.printable c) (hmore.printable c)

theorem nil : Spells [] [] where
  run _ _ _ := rfl
  printable _ hc := absurd hc List.not_mem_nil

/-- A character that is a token, or none, on its own may stand in front of anything. -/
theorem cons (hstart : Lexer.start c = some (tokens, .between)) (hc : 0x20 ≤ c.toNat)
    (h : Spells text others) : Spells (c :: text) (tokens ++ others) where
  run done rest hrest := by
    have hstep : Lexer.run done .between (c :: (text ++ rest)) =
        Lexer.run (tokens.reverse ++ done) .between (text ++ rest) := by
      rw [Lexer.run, Lexer.step, hstart]
    rw [List.cons_append, hstep, h.run _ rest hrest, List.reverse_append, List.append_assoc]
  printable := List.forall_mem_cons.mpr ⟨hc, h.printable⟩

end Spells

theorem spells_punctuation {c : Char} {token : Token}
    (hstart : Lexer.start c = some ([token], .between)) (hc : 0x20 ≤ c.toNat) :
    Spells [c] [token] :=
  .cons hstart hc .nil

namespace Lexer

variable {done : List Token} {read cs rest : List Char} {c : Char} {tokens : List Token}

/-- Characters that a number or word goes on with are kept. -/
theorem run_goes {within : List Char → Lexer}
    (hcs : ∀ read, ∀ c ∈ cs, step (within read) c = some ([], within (c :: read))) :
    run done (within read) (cs ++ rest) = run done (within (cs.reverse ++ read)) rest := by
  induction cs generalizing read with
  | nil => rfl
  | cons c cs ih =>
      rw [List.cons_append, run, hcs read c List.mem_cons_self]
      simpa using @ih (c :: read) fun read c hc => hcs read c (List.mem_cons_of_mem _ hc)

/-- A number or word that does not go on ends in its token. -/
theorem run_finish {s : Lexer} (hs : (∃ read, s = .number read) ∨ ∃ read, s = .word read)
    (hfinish : finish s = some tokens) (hrest : Ends rest) :
    run done s rest = run (tokens.reverse ++ done) .between rest := by
  cases rest with
  | nil =>
      have hbetween : finish .between = some [] := rfl
      rw [run, run, hfinish, hbetween]
      simp
  | cons c rest =>
      obtain ⟨hnumber, hword⟩ := hrest c rfl
      have hstep : step s c = step.endAt s c := by
        obtain ⟨read, rfl⟩ | ⟨read, rfl⟩ := hs
        · rw [step, hnumber, if_neg Bool.false_ne_true]
        · rw [step, hword, if_neg Bool.false_ne_true]
      rw [run, run, hstep, step.endAt, hfinish, step]
      cases start c with
      | none => rfl
      | some next => simp

theorem printable_of_isLower (h : c.isLower = true) : 0x20 ≤ c.toNat :=
  Nat.le_trans (by decide) (isLower_iff_toNat.mp h).1

theorem printable_of_isNumberChar (h : isNumberChar c = true) : 0x20 ≤ c.toNat := by
  simp only [isNumberChar, Char.isDigit_iff_toNat, Bool.or_eq_true, beq_iff_eq] at h
  rcases h with ((((hdigit | rfl) | rfl) | rfl) | rfl) | rfl
  · exact Nat.le_trans (by decide) hdigit.1
  all_goals decide

theorem start_number (h : c.isDigit = true ∨ c = '-') : start c = some ([], .number [c]) := by
  have hother : ∀ d : Char, d.isDigit = false → d ≠ '-' → c ≠ d := by
    rintro d hdigit hminus rfl
    simp [hdigit, hminus] at h
  simp [start, hother, h]

theorem start_word (h : c.isLower = true) : start c = some ([], .word [c]) := by
  have hother : ∀ d : Char, d.isLower = false → c ≠ d := by
    rintro d hlower rfl
    rw [hlower] at h
    cases h
  simp [start, hother, h, not_digit_of_lower h]

end Lexer

/-- A text of which the first character opens a number or a word and the others go on with it. -/
theorem spells_of_goes {within : List Char → Lexer} {c : Char} {cs : List Char} {token : Token}
    (hwithin : within = .number ∨ within = .word)
    (hstart : Lexer.start c = some ([], within [c]))
    (hgoes : ∀ read, ∀ d ∈ cs, Lexer.step (within read) d = some ([], within (d :: read)))
    (hfinish : Lexer.finish (within (c :: cs).reverse) = some [token])
    (hprintable : ∀ d ∈ c :: cs, 0x20 ≤ d.toNat) : Spells (c :: cs) [token] where
  run done rest hrest := by
    have hstep : Lexer.run done .between (c :: (cs ++ rest)) =
        Lexer.run done (within [c]) (cs ++ rest) := by
      rw [Lexer.run, Lexer.step, hstart]
      rfl
    have hkind : (∃ read, within (c :: cs).reverse = .number read) ∨
        ∃ read, within (c :: cs).reverse = .word read := by
      obtain rfl | rfl := hwithin
      · exact .inl ⟨_, rfl⟩
      · exact .inr ⟨_, rfl⟩
    rw [List.cons_append, hstep, Lexer.run_goes hgoes, ← List.reverse_cons,
      Lexer.run_finish hkind hfinish hrest]
  printable := hprintable

theorem spells_number {c : Char} {cs : List Char} {literal : NumberLiteral}
    (hc : c.isDigit = true ∨ c = '-') (hcs : ∀ d ∈ cs, Lexer.isNumberChar d = true)
    (hliteral : NumberLiteral.ofChars? (c :: cs) = some literal) :
    Spells (c :: cs) [.number literal] := by
  have hfirst : Lexer.isNumberChar c = true := by
    obtain hdigit | rfl := hc
    · rw [Lexer.isNumberChar, hdigit]
      rfl
    · rfl
  refine spells_of_goes (.inl rfl) (Lexer.start_number hc) (fun read d hd => ?_) ?_ fun d hd => ?_
  · rw [Lexer.step, if_pos (hcs d hd)]
  · rw [Lexer.finish, List.reverse_reverse, hliteral]
    rfl
  · obtain rfl | hd := List.mem_cons.mp hd
    · exact Lexer.printable_of_isNumberChar hfirst
    · exact Lexer.printable_of_isNumberChar (hcs d hd)

theorem spells_word {word : String} {token : Token} (hne : word ≠ "")
    (hchars : word.toList.all (·.isLower) = true) (hword : Lexer.wordToken? word = some token) :
    Spells word.toList [token] := by
  rw [List.all_eq_true] at hchars
  obtain ⟨c, cs, hsplit⟩ : ∃ c cs, word.toList = c :: cs :=
    List.exists_cons_of_ne_nil (by simpa using hne)
  have hread : String.ofList (c :: cs) = word := by rw [← hsplit, String.ofList_toList]
  rw [hsplit] at hchars ⊢
  refine spells_of_goes (.inr rfl) (Lexer.start_word (hchars c List.mem_cons_self))
    (fun read d hd => ?_) ?_ fun d hd => Lexer.printable_of_isLower (hchars d hd)
  · rw [Lexer.step, if_pos (hchars d (List.mem_cons_of_mem _ hd))]
  · rw [Lexer.finish, List.reverse_reverse, hread, hword]
    rfl

end RuleDesk.Json
