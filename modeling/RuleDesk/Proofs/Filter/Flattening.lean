import RuleDesk.Proofs.Filter.Query
import RuleDesk.Proofs.Filter.Tree

/-!
# Flattened text as a query

The flattened text of an expression over plain words is a sentence of the search
grammar. Its parse tree is built here from the expression itself: a conjunction
or disjunction below the top is one factor, and a negation writes all factors of
all its children in a row, with a minus sign before the first factor of each
child only.
-/
namespace RuleDesk.Expression

/-- A minus sign before a conjunction goes to its first factor. -/
def negateFirst : Conjunction → Conjunction
  | [] => []
  | f :: rest => .minus f :: rest

mutual

/-- The factors that a node is written as at a level. -/
def factors (level : Nat) : Expression → Conjunction
  | term t => [.word t]
  | and children =>
    if level = 0 then factorsOfAll 1 children
    else [.group [factorsOfAll (level + 1) children]]
  | or children =>
    if level = 0 then factorsOfAll 1 children
    else [.group (arms (level + 1) children)]
  | not children => negatedFactors level children

/-- The factors of each child in turn. -/
def factorsOfAll (level : Nat) : List Expression → Conjunction
  | [] => []
  | child :: rest => factors level child ++ factorsOfAll level rest

/-- One conjunction for each child. -/
def arms (level : Nat) : List Expression → List Conjunction
  | [] => []
  | child :: rest => factors level child :: arms level rest

def negatedFactors (level : Nat) : List Expression → Conjunction
  | [] => []
  | child :: rest =>
    negateFirst (factors (levelBelow level child) child) ++ negatedFactors level rest

end

/-- The query that the flattened text of an expression is read as. -/
def asQuery : Expression → Query
  | or children => arms 1 children
  | e => [factors 0 e]

theorem factorsOfAll_eq_flatMap (level : Nat) (cs : List Expression) :
    factorsOfAll level cs = cs.flatMap (factors level) := by
  induction cs with
  | nil => rfl
  | cons c cs ih => simp [factorsOfAll, ih]

theorem arms_eq_map (level : Nat) (cs : List Expression) :
    arms level cs = cs.map (factors level) := by
  induction cs with
  | nil => rfl
  | cons c cs ih => simp [arms, ih]

theorem negatedFactors_eq_flatMap (level : Nat) (cs : List Expression) :
    negatedFactors level cs =
      cs.flatMap fun c => negateFirst (factors (levelBelow level c) c) := by
  induction cs with
  | nil => rfl
  | cons c cs ih => simp [negatedFactors, ih]

theorem parses_append {c d : Conjunction} {t u : String} (hc : c.Parses t)
    (hd : d.Parses u) : Conjunction.Parses (c ++ d) (t ++ " " ++ u) := by
  match hc with
  | .one hf => exact .more hf hd
  | .more hf hc =>
      have htail := Conjunction.Parses.more hf (parses_append hc hd)
      simpa [String.append_assoc] using htail

theorem parses_negateFirst {c : Conjunction} {t : String} (hc : c.Parses t) :
    (negateFirst c).Parses ("-" ++ t) := by
  cases hc with
  | one hf => exact .one (.minus hf)
  | more hf hc =>
      have hneg := Conjunction.Parses.more (.minus hf) hc
      simpa [negateFirst, String.append_assoc] using hneg

/-- Conjunctions in a row, joined by spaces, are one conjunction. -/
theorem parses_flatMap {cs : List Expression} (hne : cs ≠ []) {piece : Expression → Conjunction}
    {text : Expression → String} (hcs : ∀ c ∈ cs, (piece c).Parses (text c)) :
    Conjunction.Parses (cs.flatMap piece) (" ".intercalate (cs.map text)) := by
  induction cs with
  | nil => exact absurd rfl hne
  | cons c cs ih =>
      have hc := hcs c (by simp)
      cases cs with
      | nil => simpa using hc
      | cons d cs =>
          have hrest := ih (by simp) fun e he => hcs e (by simp [he])
          simpa using parses_append hc hrest

theorem parses_arms {cs : List Expression} (hne : cs ≠ []) {piece : Expression → Conjunction}
    {text : Expression → String} (hcs : ∀ c ∈ cs, (piece c).Parses (text c)) :
    Query.Parses (cs.map piece) (" OR ".intercalate (cs.map text)) := by
  induction cs with
  | nil => exact absurd rfl hne
  | cons c cs ih =>
      have hc := hcs c (by simp)
      cases cs with
      | nil => simpa using Query.Parses.one hc
      | cons d cs =>
          have hrest := ih (by simp) fun e he => hcs e (by simp [he])
          simpa using Query.Parses.more hc hrest

/-- At the top only a node that is not compound is a conjunction for sure. -/
def IsConjunct (level : Nat) (e : Expression) : Prop :=
  level = 0 → e.isCompound = false

theorem isConjunct_succ (level : Nat) (e : Expression) : IsConjunct (level + 1) e := by
  simp [IsConjunct]

/-- A negation moves its compound children off the top. -/
theorem isConjunct_levelBelow (level : Nat) (e : Expression) :
    IsConjunct (levelBelow level e) e := by
  unfold IsConjunct levelBelow
  cases level <;> cases e.isCompound <;> simp

/-- A group at the top that is a conjunct has one child. -/
theorem IsConjunct.and_singleton {cs : List Expression} (h : IsConjunct 0 (and cs))
    (hne : cs ≠ []) : ∃ c, cs = [c] := by
  have hnarrow : ¬ 1 < cs.length := by simpa [isCompound] using h rfl
  have hpos := List.length_pos_iff.mpr hne
  exact List.length_eq_one_iff.mp (by omega)

theorem IsConjunct.or_singleton {cs : List Expression} (h : IsConjunct 0 (or cs))
    (hne : cs ≠ []) : ∃ c, cs = [c] :=
  IsConjunct.and_singleton h hne

theorem parses_factors {e : Expression} (he : e.WellFormed IsPlainWord) (level : Nat)
    (hlevel : IsConjunct level e) : (factors level e).Parses (textAt level e) := by
  induction he generalizing level with
  | @term t ht => exact .one (.word ht)
  | @and cs hne _ ih =>
      rw [factors, textAt, factorsOfAll_eq_flatMap, factorsOfAll_eq_flatMap, textsAt_eq_map]
      have hcs := parses_flatMap hne fun c hc => ih c hc (level + 1) (isConjunct_succ level c)
      cases level with
      | zero => simpa [wrapAt] using hcs
      | succ level => simpa [wrapAt] using Conjunction.Parses.one (.group (.one hcs))
  | @or cs hne _ ih =>
      rw [factors, textAt, factorsOfAll_eq_flatMap, arms_eq_map, textsAt_eq_map]
      cases level with
      | zero =>
          obtain ⟨c, rfl⟩ := hlevel.or_singleton hne
          simpa [wrapAt] using ih c (by simp) 1 (isConjunct_succ 0 c)
      | succ level =>
          have hcs := parses_arms hne fun c hc =>
            ih c hc (level + 2) (isConjunct_succ (level + 1) c)
          simpa [wrapAt] using Conjunction.Parses.one (.group hcs)
  | @not cs hne _ ih =>
      rw [factors, textAt, negatedFactors_eq_flatMap, negationsAt_eq_map]
      exact parses_flatMap hne fun c hc =>
        parses_negateFirst (ih c hc _ (isConjunct_levelBelow level c))

/-- The flattened text is a sentence of the search grammar. -/
theorem parses_asQuery {e : Expression} (he : e.WellFormed IsPlainWord) :
    e.asQuery.Parses e.text := by
  cases he with
  | term ht => exact .one (.one (.word ht))
  | and hne hcs =>
      simp only [asQuery, text, factors, textAt, factorsOfAll_eq_flatMap, textsAt_eq_map]
      exact .one (parses_flatMap hne fun c hc =>
        parses_factors (hcs c hc) 1 (isConjunct_succ 0 c))
  | or hne hcs =>
      rw [asQuery, text, textAt, arms_eq_map, textsAt_eq_map]
      exact parses_arms hne fun c hc => parses_factors (hcs c hc) 1 (isConjunct_succ 0 c)
  | not hne hcs => exact .one (parses_factors (.not hne hcs) 0 fun _ => rfl)

end RuleDesk.Expression
