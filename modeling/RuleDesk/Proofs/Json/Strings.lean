import RuleDesk.Proofs.Json.Lexing

/-!
# Texts between quotes

The written form of a text is one token, a string that denotes the text. Control characters of the
text are written as escapes, so none is in the written form.
-/
namespace RuleDesk.Json

/-- A unit that is not from the surrogate range denotes its character, whatever follows. -/
theorem chars?_unit {u : Nat} (hu : u < 0xD800) (rest : RawText) :
    chars? (.unit u :: rest) = (Char.ofNat u :: ·) <$> chars? rest := by
  have hhigh : isHighSurrogate u = false := by
    simp only [isHighSurrogate, Bool.and_eq_false_iff, decide_eq_false_iff_not]
    omega
  have hlow : isLowSurrogate u = false := by
    simp only [isLowSurrogate, Bool.and_eq_false_iff, decide_eq_false_iff_not]
    omega
  cases rest with
  | nil => simp [chars?, hhigh, hlow]
  | cons next rest => cases next <;> simp [chars?, hhigh, hlow]

theorem hexDigit?_digitChar : ∀ d < 16, hexDigit? (Nat.digitChar d) = some d := by
  decide

theorem printable_digitChar : ∀ d < 16, 0x20 ≤ (Nat.digitChar d).toNat := by
  decide

/-- A control character is read as the unit in whose digits it is written. -/
theorem run_control {n : Nat} (hn : n < 0x20) (done : List Token) (read : RawText)
    (rest : List Char) :
    Lexer.run done (.string read)
        (['\\', 'u', '0', '0', Nat.digitChar (n / 16), Nat.digitChar (n % 16)] ++ rest) =
      Lexer.run done (.string (.unit n :: read)) rest := by
  have hfirst := hexDigit?_digitChar (n / 16) (by omega)
  have hlast := hexDigit?_digitChar (n % 16) (by omega)
  have hopen : Lexer.run done (.string read)
        (['\\', 'u', '0', '0', Nat.digitChar (n / 16), Nat.digitChar (n % 16)] ++ rest) =
      Lexer.run done (.hex read 0 2) (Nat.digitChar (n / 16) :: Nat.digitChar (n % 16) :: rest) :=
    rfl
  have hvalue : (0 * 16 + n / 16) * 16 + n % 16 = n := by omega
  rw [hopen, Lexer.run, Lexer.step, hfirst]
  simp only [Option.map_some, Nat.reduceLeDiff, if_false, List.reverse_nil, List.nil_append]
  rw [Lexer.run, Lexer.step, hlast]
  simp only [Option.map_some, Nat.reduceSub, Nat.le_refl, if_true, List.reverse_nil,
    List.nil_append, hvalue]

/-- Each character has a unit in which it is read from its written form. -/
theorem exists_unit (c : Char) : ∃ unit : TextUnit,
    (∀ rest, chars? (unit :: rest) = (c :: ·) <$> chars? rest) ∧
      (∀ done read rest, Lexer.run done (.string read) (escape c ++ rest) =
        Lexer.run done (.string (unit :: read)) rest) ∧
      ∀ d ∈ escape c, 0x20 ≤ d.toNat := by
  unfold escape
  split
  case h_8 hquote hslash hb hf hn hr ht =>
    split
    case isTrue hcontrol =>
      refine ⟨.unit c.toNat, fun rest => ?_, run_control hcontrol, ?_⟩
      · rw [chars?_unit (by omega), Char.ofNat_toNat]
      · have hfirst := printable_digitChar (c.toNat / 16) (by omega)
        have hlast := printable_digitChar (c.toNat % 16) (by omega)
        simp [hfirst, hlast]
    case isFalse hcontrol =>
      refine ⟨.char c, fun _ => rfl, fun done read rest => ?_, ?_⟩
      · rw [List.singleton_append, Lexer.run, Lexer.step, if_neg hquote, if_neg hslash,
          if_neg hcontrol]
        rfl
      · simpa using hcontrol
  all_goals exact ⟨.char _, fun _ => rfl, fun done read rest => rfl, by simp⟩

theorem exists_units (cs : List Char) : ∃ units : RawText, chars? units = some cs ∧
    (∀ done read rest, Lexer.run done (.string read) (cs.flatMap escape ++ rest) =
      Lexer.run done (.string (units.reverse ++ read)) rest) ∧
    ∀ d ∈ cs.flatMap escape, 0x20 ≤ d.toNat := by
  induction cs with
  | nil => exact ⟨[], rfl, fun _ _ _ => rfl, by simp⟩
  | cons c cs ih =>
      obtain ⟨unit, hunit, hrun, hprintable⟩ := exists_unit c
      obtain ⟨units, hunits, hruns, hothers⟩ := ih
      refine ⟨unit :: units, ?_, fun done read rest => ?_, ?_⟩
      · rw [hunit, hunits]
        rfl
      · rw [List.flatMap_cons, List.append_assoc, hrun, hruns, List.reverse_cons,
          List.append_assoc, List.singleton_append]
      · rw [List.flatMap_cons, List.forall_mem_append]
        exact ⟨hprintable, hothers⟩

/-- The written form of a text is a string token that denotes it. -/
theorem exists_spells_quote (s : String) :
    ∃ units : RawText, units.text? = some s ∧ Spells (quote s).toList [.string units] := by
  obtain ⟨units, hunits, hrun, hprintable⟩ := exists_units s.toList
  have hquoted : (quote s).toList = '"' :: (s.toList.flatMap escape ++ ['"']) := by
    simp [quote]
  refine ⟨units, ?_, fun done rest _ => ?_, ?_⟩
  · rw [RawText.text?, hunits]
    simp
  · have hopen : ∀ text, Lexer.run done .between ('"' :: text) =
        Lexer.run done (.string []) text := fun _ => rfl
    have hclose : Lexer.run done (.string (units.reverse ++ [])) (['"'] ++ rest) =
        Lexer.run (.string (units.reverse ++ []).reverse :: done) .between rest := rfl
    rw [hquoted, List.cons_append, hopen, List.append_assoc, hrun, hclose]
    simp
  · rw [hquoted, List.forall_mem_cons, List.forall_mem_append]
    exact ⟨by decide, hprintable, by simp⟩

end RuleDesk.Json
