import RuleDesk.Proofs.Filter.Tree
import RuleDesk.Proofs.Filter.Writing

/-!
# Expressions in operator form

Every expression can be typed: each operator as a group that begins with the
operator's atom, each term with a backslash before every character. Reading that
text gives the expression back, whatever characters its terms are made of.
-/
namespace RuleDesk.Expression

/-- A backslash before every character. -/
def escaped (t : String) : String :=
  String.ofList (t.toList.flatMap fun c => ['\\', c])

mutual

/-- The text that stands for an expression, with single spaces between the items of
a group. -/
def operatorText : Expression → String
  | term t => escaped t
  | and children => "(" ++ " ".intercalate ("AND" :: operatorTexts children) ++ ")"
  | or children => "(" ++ " ".intercalate ("OR" :: operatorTexts children) ++ ")"
  | not children => "(" ++ " ".intercalate ("-" :: operatorTexts children) ++ ")"

def operatorTexts : List Expression → List String
  | [] => []
  | child :: rest => operatorText child :: operatorTexts rest

end

mutual

/-- The structure that the operator form is read as. -/
def toSexp : Expression → Sexp
  | term t => .atom t
  | and children => .group (.atom "AND" :: toSexps children)
  | or children => .group (.atom "OR" :: toSexps children)
  | not children => .group (.atom "-" :: toSexps children)

def toSexps : List Expression → List Sexp
  | [] => []
  | child :: rest => toSexp child :: toSexps rest

end

theorem operatorTexts_eq_map (cs : List Expression) :
    operatorTexts cs = cs.map operatorText := by
  induction cs with
  | nil => rfl
  | cons c cs ih => simp [operatorTexts, ih]

theorem toSexps_eq_map (cs : List Expression) : toSexps cs = cs.map toSexp := by
  induction cs with
  | nil => rfl
  | cons c cs ih => simp [toSexps, ih]

theorem run_escapes (w : List Char) : Sexp.Run (w.flatMap fun c => ['\\', c]) w := by
  induction w with
  | nil => exact .nil
  | cons c w ih => exact .pair ih

theorem run_ordinaries {w : List Char} (hw : ∀ c ∈ w, Sexp.isOrdinary c = true) :
    Sexp.Run w w := by
  induction w with
  | nil => exact .nil
  | cons c w ih =>
      obtain ⟨hc, hothers⟩ := List.forall_mem_cons.mp hw
      exact .ordinary hc (ih hothers)

/-- A group that begins with an operator's atom. -/
theorem spells_operatorGroup {op : String} (hop : ∀ c ∈ op.toList, Sexp.isOrdinary c = true)
    (hne : op ≠ "") {cs : List Expression}
    (hcs : ∀ c ∈ cs, Sexp.Spells c.operatorText.toList c.toSexp) :
    Sexp.Spells ("(" ++ " ".intercalate (op :: operatorTexts cs) ++ ")").toList
      (.group (.atom op :: toSexps cs)) := by
  have hhead : Sexp.Spells op.toList (.atom op) := by
    simpa using Sexp.Spells.run (run_ordinaries hop) (by simpa using hne)
  have hothers : List.Forall₂ (fun t e => Sexp.Spells t.toList e) (operatorTexts cs)
      (toSexps cs) := by
    rw [operatorTexts_eq_map, toSexps_eq_map, List.forall₂_map_left_iff,
      List.forall₂_map_right_iff, List.forall₂_same]
    exact hcs
  exact .group (.cons hhead hothers) (by simp)

theorem spells_operatorText {e : Expression} (he : e.WellFormed (· ≠ "")) :
    Sexp.Spells e.operatorText.toList e.toSexp := by
  induction he with
  | @term t ht =>
      have hrun := Sexp.Spells.run (run_escapes t.toList) (by simpa using ht)
      rw [operatorText, escaped, String.toList_ofList]
      simpa [toSexp] using hrun
  | and _ _ ih => exact spells_operatorGroup (List.all_eq_true.mp (by decide)) (by decide) ih
  | or _ _ ih => exact spells_operatorGroup (List.all_eq_true.mp (by decide)) (by decide) ih
  | not _ _ ih => exact spells_operatorGroup (List.all_eq_true.mp (by decide)) (by decide) ih

theorem parse_operatorText_sexp {e : Expression} (he : e.WellFormed (· ≠ "")) :
    Sexp.parse e.operatorText = .ok e.toSexp :=
  (spells_operatorText he).parse

/-- The children are read one by one, and the operator is not among them. -/
theorem ofSexps_toSexps {cs : List Expression} (ih : ∀ c ∈ cs, ofSexp c.toSexp = .ok c) :
    ofSexps (toSexps cs) = .ok cs := by
  induction cs with
  | nil => rfl
  | cons c cs hrest =>
      have hc := ih c (by simp)
      have hcs := hrest fun d hd => ih d (by simp [hd])
      rw [toSexps, ofSexps, hc, hcs]
      rfl

theorem ofSexp_operatorGroup (op : Operator) {head : String}
    (hop : Operator.ofAtom? head = some op) {cs : List Expression} (hne : cs ≠ [])
    (ih : ∀ c ∈ cs, ofSexp c.toSexp = .ok c) :
    ofSexp (.group (.atom head :: toSexps cs)) = .ok (op.apply cs) := by
  have hlength : ¬ (Sexp.atom head :: toSexps cs).length = 1 := by
    simpa [toSexps_eq_map] using hne
  rw [ofSexp, Operator.leading?, hop]
  simp only [hlength, if_false, ofSexps, ofSexp, ofSexps_toSexps ih]
  rfl

theorem ofSexp_toSexp {e : Expression} (he : e.WellFormed (· ≠ "")) :
    ofSexp e.toSexp = .ok e := by
  induction he with
  | term _ => rfl
  | and hne _ ih => exact ofSexp_operatorGroup .and (by decide) hne ih
  | or hne _ ih => exact ofSexp_operatorGroup .or (by decide) hne ih
  | not hne _ ih => exact ofSexp_operatorGroup .not (by decide) hne ih

/-- Every expression can be typed: its operator form is read as the expression itself. -/
theorem parse_operatorText (e : Expression) (he : e.WellFormed (· ≠ "")) :
    parse e.operatorText = .ok e := by
  rw [parse, parse_operatorText_sexp he]
  exact ofSexp_toSexp he

/-- Terms that look like operators or hold blanks and parentheses come back too. -/
theorem parse_operatorText_awkward_terms :
    (or [term "AND", not [term "a b)"]]).WellFormed (· ≠ "") ∧
      (or [term "AND", not [term "a b)"]]).operatorText =
        "(OR \\A\\N\\D (- \\a\\ \\b\\)))" ∧
      parse (or [term "AND", not [term "a b)"]]).operatorText =
        .ok (or [term "AND", not [term "a b)"]]) :=
  ⟨by simp, by decide, parse_operatorText _ (by simp)⟩

end RuleDesk.Expression
