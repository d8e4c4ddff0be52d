import RuleDesk.Proofs.Filter.Flattening

/-!
# What flattened text means

The flattened text of an expression is read by the search grammar as the
expression itself unless a negation of several children stands right behind a
minus sign: its text begins with a minus sign of its own, and the sign before it
reaches the first of its factors only. `faithful` tells whether that happens.
-/
namespace RuleDesk.Expression

mutual

/-- No negation of several children stands right behind a minus sign. `negated` tells
whether a minus sign stands right before the node. -/
def faithful (negated : Bool) (level : Nat) : Expression → Bool
  | term _ => true
  | and children => allFaithful (negated && level == 0) (level + 1) children
  | or children => allFaithful (negated && level == 0) (level + 1) children
  | not children =>
    (!negated || children.length == 1) && negationsFaithful (!negated) level children

def allFaithful (negated : Bool) (level : Nat) : List Expression → Bool
  | [] => true
  | child :: rest => faithful negated level child && allFaithful negated level rest

def negationsFaithful (negated : Bool) (level : Nat) : List Expression → Bool
  | [] => true
  | child :: rest =>
    faithful negated (levelBelow level child) child && negationsFaithful negated level rest

end

theorem allFaithful_iff {negated : Bool} {level : Nat} {cs : List Expression} :
    allFaithful negated level cs = true ↔ ∀ c ∈ cs, c.faithful negated level = true := by
  induction cs with
  | nil => simp [allFaithful]
  | cons c cs ih => simp [allFaithful, ih]

theorem negationsFaithful_iff {negated : Bool} {level : Nat} {cs : List Expression} :
    negationsFaithful negated level cs = true ↔
      ∀ c ∈ cs, c.faithful negated (levelBelow level c) = true := by
  induction cs with
  | nil => simp [negationsFaithful]
  | cons c cs ih => simp [negationsFaithful, ih]

/-- The factors of a node behind a minus sign or behind none. -/
def written (negated : Bool) (level : Nat) (e : Expression) : Conjunction :=
  if negated then negateFirst (factors level e) else factors level e

/-- The truth of what is written of a node. -/
def said (v : String → Bool) (negated : Bool) (level : Nat) (e : Expression) : Bool :=
  Conjunction.holds v (written negated level e)

section Said

variable (v : String → Bool) (negated : Bool) (level : Nat)

theorem all_factorsOfAll (cs : List Expression) :
    (factorsOfAll level cs).all (Factor.holds v) = cs.all fun c => c.said v false level := by
  simp [factorsOfAll_eq_flatMap, List.all_flatMap, said, written]

theorem any_arms (cs : List Expression) :
    (arms level cs).any (Conjunction.holds v) = cs.any fun c => c.said v false level := by
  simp [arms_eq_map, List.any_map, said, written, Function.comp_def]

theorem all_negatedFactors (cs : List Expression) :
    (negatedFactors level cs).all (Factor.holds v) =
      cs.all fun c => c.said v true (levelBelow level c) := by
  simp [negatedFactors_eq_flatMap, List.all_flatMap, said, written]

@[simp] theorem said_term (t : String) : (term t).said v negated level = (negated ^^ v t) := by
  cases negated <;> simp [said, written, factors, negateFirst, Factor.holds]

/-- Below the top a conjunction is one factor. -/
theorem said_and_succ (cs : List Expression) :
    (and cs).said v negated (level + 1) =
      (negated ^^ cs.all fun c => c.said v false (level + 2)) := by
  rw [← all_factorsOfAll]
  cases negated <;> simp [said, written, factors, negateFirst, Factor.holds]

theorem said_or_succ (cs : List Expression) :
    (or cs).said v negated (level + 1) =
      (negated ^^ cs.any fun c => c.said v false (level + 2)) := by
  rw [← any_arms]
  cases negated <;> simp [said, written, factors, negateFirst, Factor.holds]

/-- At the top a single child stands for its conjunction or disjunction. -/
theorem said_and_zero (c : Expression) : (and [c]).said v negated 0 = c.said v negated 1 := by
  simp [said, written, factors, factorsOfAll]

theorem said_or_zero (c : Expression) : (or [c]).said v negated 0 = c.said v negated 1 := by
  simp [said, written, factors, factorsOfAll]

theorem said_not (cs : List Expression) :
    (not cs).said v false level = cs.all fun c => c.said v true (levelBelow level c) := by
  rw [← all_negatedFactors]
  simp [said, written, factors]

/-- A second minus sign undoes the first one, and the factors behind stay. -/
theorem holds_negateFirst_twice (c : Conjunction) :
    Conjunction.holds v (negateFirst (negateFirst c)) = Conjunction.holds v c := by
  cases c with
  | nil => rfl
  | cons f c => simp [negateFirst, Factor.holds]

theorem negateFirst_append {c : Conjunction} (hc : c ≠ []) (d : Conjunction) :
    negateFirst (c ++ d) = negateFirst c ++ d := by
  cases c with
  | nil => exact absurd rfl hc
  | cons f c => rfl

theorem factors_ne_nil {word : String → Prop} {e : Expression} (he : e.WellFormed word) :
    factors level e ≠ [] := by
  induction he generalizing level with
  | term _ => simp [factors]
  | @and cs hne _ ih | @or cs hne _ ih =>
      obtain ⟨c, rest, rfl⟩ := List.exists_cons_of_ne_nil hne
      cases level <;> simp [factors, factorsOfAll, ih c (by simp)]
  | @not cs hne _ ih =>
      obtain ⟨c, rest, rfl⟩ := List.exists_cons_of_ne_nil hne
      have hc := ih c (by simp) (levelBelow level c)
      obtain ⟨f, fs, hf⟩ := List.exists_cons_of_ne_nil hc
      simp [factors, negatedFactors, hf, negateFirst]

/-- Behind a minus sign only the first child of a negation is denied. -/
theorem said_not_negated {word : String → Prop} {c : Expression} (hc : c.WellFormed word)
    (cs : List Expression) :
    (not (c :: cs)).said v true level =
      (c.said v false (levelBelow level c) &&
        cs.all fun d => d.said v true (levelBelow level d)) := by
  have hfirst := factors_ne_nil (levelBelow level c) hc
  have hne : negateFirst (factors (levelBelow level c) c) ≠ [] := by
    obtain ⟨f, fs, hf⟩ := List.exists_cons_of_ne_nil hfirst
    simp [hf, negateFirst]
  have htwice := holds_negateFirst_twice v (factors (levelBelow level c) c)
  rw [← all_negatedFactors]
  simp only [said, written, factors, negatedFactors, if_true, Bool.false_eq_true, if_false]
  rw [negateFirst_append hne, Conjunction.holds_eq_all, List.all_append,
    ← Conjunction.holds_eq_all, htwice]

end Said

theorem said_of_faithful {word : String → Prop} {e : Expression} (he : e.WellFormed word)
    {negated : Bool} {level : Nat} (hlevel : IsConjunct level e)
    (hf : e.faithful negated level = true) (v : String → Bool) :
    e.said v negated level = (negated ^^ e.holds v) := by
  induction he generalizing negated level with
  | term _ => simp
  | @and cs hne _ ih =>
      rw [faithful, allFaithful_iff] at hf
      cases level with
      | zero =>
          obtain ⟨c, rfl⟩ := hlevel.and_singleton hne
          rw [said_and_zero, ih c (by simp) (isConjunct_succ 0 c) (by simpa using hf)]
          simp
      | succ level =>
          have hcs : ∀ c ∈ cs, c.said v false (level + 2) = c.holds v := by
            intro c hc
            have hread := ih c hc (isConjunct_succ (level + 1) c) (hf c hc)
            simpa using hread
          rw [said_and_succ, holds_and, all_congr_mem cs hcs]
  | @or cs hne _ ih =>
      rw [faithful, allFaithful_iff] at hf
      cases level with
      | zero =>
          obtain ⟨c, rfl⟩ := hlevel.or_singleton hne
          rw [said_or_zero, ih c (by simp) (isConjunct_succ 0 c) (by simpa using hf)]
          simp
      | succ level =>
          have hcs : ∀ c ∈ cs, c.said v false (level + 2) = c.holds v := by
            intro c hc
            have hread := ih c hc (isConjunct_succ (level + 1) c) (hf c hc)
            simpa using hread
          rw [said_or_succ, holds_or, any_congr_mem cs hcs]
  | @not cs hne hcs ih =>
      rw [faithful, Bool.and_eq_true, negationsFaithful_iff] at hf
      obtain ⟨hsingle, hf⟩ := hf
      cases negated with
      | false =>
          have hdenied : ∀ c ∈ cs, c.said v true (levelBelow level c) = !c.holds v := by
            intro c hc
            have hread := ih c hc (isConjunct_levelBelow level c) (hf c hc)
            simpa using hread
          rw [said_not, holds_not, all_congr_mem cs hdenied, Bool.false_xor]
      | true =>
          -- the only child takes both minus signs, and they cancel
          obtain ⟨c, rfl⟩ := List.length_eq_one_iff.mp (by simpa using hsingle)
          have hc := ih c (by simp) (isConjunct_levelBelow level c) (hf c (by simp))
          rw [Bool.not_true] at hc
          rw [said_not_negated v level (hcs c (by simp)), hc]
          simp

theorem asQuery_holds_of_faithful {e : Expression} (he : e.WellFormed IsPlainWord)
    (hf : e.faithful false 0 = true) (v : String → Bool) : Query.holds v e.asQuery = e.holds v := by
  have children : ∀ {cs : List Expression}, (∀ c ∈ cs, c.WellFormed IsPlainWord) →
      allFaithful false 1 cs = true → ∀ c ∈ cs, c.said v false 1 = c.holds v := by
    intro cs hcs hfaithful c hc
    have hread := said_of_faithful (hcs c hc) (isConjunct_succ 0 c)
      (allFaithful_iff.mp hfaithful c hc) v
    simpa using hread
  cases he with
  | term _ => simp [asQuery, factors, Factor.holds]
  | @and cs hne hcs =>
      rw [holds_and, ← all_congr_mem cs (children hcs (by simpa [faithful] using hf)),
        ← all_factorsOfAll]
      simp [asQuery, factors]
  | @or cs hne hcs =>
      rw [holds_or, ← any_congr_mem cs (children hcs (by simpa [faithful] using hf)), ← any_arms]
      simp [asQuery]
  | not hne hcs =>
      have hread := said_of_faithful (.not hne hcs) (fun _ => rfl) hf v
      simpa [asQuery, said, written] using hread

/-- An expression without the conjunctions and disjunctions of one child around it. -/
def stripped : Expression → Expression
  | and [child] => stripped child
  | or [child] => stripped child
  | e => e

/-- A negation of several children. -/
def isWideNegation : Expression → Bool
  | not children => 1 < children.length
  | _ => false

mutual

/-- No child of a negation is, once stripped, a negation of several children. -/
def negationsNarrow : Expression → Bool
  | term _ => true
  | and children => allNegationsNarrow children
  | or children => allNegationsNarrow children
  | not children =>
    children.all (fun child => !child.stripped.isWideNegation) && allNegationsNarrow children

def allNegationsNarrow : List Expression → Bool
  | [] => true
  | child :: rest => negationsNarrow child && allNegationsNarrow rest

end

theorem allNegationsNarrow_iff {cs : List Expression} :
    allNegationsNarrow cs = true ↔ ∀ c ∈ cs, c.negationsNarrow = true := by
  induction cs with
  | nil => simp [allNegationsNarrow]
  | cons c cs ih => simp [allNegationsNarrow, ih]

/-- The induction carries whether a minus sign stands right before the node. It stays
there when a single child takes its parent's place at the top. -/
theorem faithful_of_negationsNarrow {word : String → Prop} {e : Expression}
    (he : e.WellFormed word) (hnarrow : e.negationsNarrow = true) {negated : Bool} {level : Nat}
    (hlevel : negated = true → IsConjunct level e)
    (hstripped : negated = true → e.stripped.isWideNegation = false) :
    e.faithful negated level = true := by
  induction he generalizing negated level with
  | term _ => rfl
  | @and cs hne _ ih =>
      rw [negationsNarrow, allNegationsNarrow_iff] at hnarrow
      rw [faithful, allFaithful_iff]
      intro c hc
      refine ih c hc (hnarrow c hc) (fun _ => isConjunct_succ level c) fun hnegated => ?_
      obtain ⟨rfl, rfl⟩ : negated = true ∧ level = 0 := by simpa using hnegated
      obtain ⟨d, rfl⟩ := (hlevel rfl).and_singleton hne
      obtain rfl : c = d := by simpa using hc
      simpa [stripped] using hstripped rfl
  | @or cs hne _ ih =>
      rw [negationsNarrow, allNegationsNarrow_iff] at hnarrow
      rw [faithful, allFaithful_iff]
      intro c hc
      refine ih c hc (hnarrow c hc) (fun _ => isConjunct_succ level c) fun hnegated => ?_
      obtain ⟨rfl, rfl⟩ : negated = true ∧ level = 0 := by simpa using hnegated
      obtain ⟨d, rfl⟩ := (hlevel rfl).or_singleton hne
      obtain rfl : c = d := by simpa using hc
      simpa [stripped] using hstripped rfl
  | @not cs hne _ ih =>
      rw [negationsNarrow, Bool.and_eq_true, allNegationsNarrow_iff, List.all_eq_true] at hnarrow
      rw [faithful, Bool.and_eq_true, negationsFaithful_iff]
      refine ⟨?_, fun c hc => ?_⟩
      · cases negated with
        | false => rfl
        | true =>
            have hwide : ¬ 1 < cs.length := by
              simpa [stripped, isWideNegation] using hstripped rfl
            have hpos := List.length_pos_iff.mpr hne
            simp only [Bool.not_true, Bool.false_or, beq_iff_eq]
            omega
      · exact ih c hc (hnarrow.2 c hc) (fun _ => isConjunct_levelBelow level c)
          fun _ => by simpa using hnarrow.1 c hc

/-- The flattened text of an expression with narrow negations has one parse tree in the
search grammar, and it means what the expression means. -/
theorem text_has_one_parse (e : Expression) (he : e.WellFormed IsPlainWord)
    (hnarrow : e.negationsNarrow = true) :
    ∃ q : Query, q.Parses e.text ∧ (∀ p : Query, p.Parses e.text → p = q) ∧
      ∀ v, Query.holds v q = e.holds v := by
  have hparse := parses_asQuery he
  have hf : e.faithful false 0 = true := faithful_of_negationsNarrow he hnarrow (by simp) (by simp)
  exact ⟨e.asQuery, hparse, fun p hp => hp.unique hparse, asQuery_holds_of_faithful he hf⟩

/-- Two children of a negation, one of them a disjunction and one negated again. -/
theorem text_has_one_parse_nested :
    (and [term "news", not [or [term "a", term "b"], and [not [term "c"]]]]).WellFormed
        IsPlainWord ∧
      (and [term "news", not [or [term "a", term "b"], and [not [term "c"]]]]).negationsNarrow ∧
      ∃ q : Query, q.Parses "news -(a OR b) -(-c)" ∧
        (∀ p : Query, p.Parses "news -(a OR b) -(-c)" → p = q) ∧
        ∀ v, Query.holds v q = (v "news" && (!(v "a" || v "b") && v "c")) := by
  refine ⟨by simp; decide, by decide, ?_⟩
  obtain ⟨q, hq, hone, hv⟩ := text_has_one_parse
    (and [term "news", not [or [term "a", term "b"], and [not [term "c"]]]])
    (by simp; decide) (by decide)
  have htext : (and [term "news", not [or [term "a", term "b"], and [not [term "c"]]]]).text =
      "news -(a OR b) -(-c)" := by decide
  rw [htext] at hq hone
  exact ⟨q, hq, hone, fun v => by rw [hv v]; simp⟩

end RuleDesk.Expression
