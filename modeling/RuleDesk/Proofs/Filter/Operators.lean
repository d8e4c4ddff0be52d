import RuleDesk.Proofs.Filter.Printing
import RuleDesk.Proofs.Filter.Tree

/-!
# Operators of a structure

A structure that was read becomes an expression unless an operator is alone in its group.
The fault is that of the first such group, where a group comes before the groups inside it.
The terms of the expression are the atoms of the structure but for the operators that begin
groups.
-/
namespace RuleDesk

namespace Sexp

/-- The atom of an operator. -/
def isOperator : Sexp → Bool
  | .atom t => t == "AND" || t == "OR" || t == "-"
  | .group _ => false

/-- A group that is nothing but an operator. -/
def isLoneOperator : List Sexp → Bool
  | [item] => item.isOperator
  | _ => false

theorem isLoneOperator_cons (first : Sexp) (rest : List Sexp) :
    isLoneOperator (first :: rest) = (first.isOperator && rest.isEmpty) := by
  cases rest <;> simp [isLoneOperator]

mutual

/-- The groups of a structure, each by its items. A group comes before those inside it. -/
def groups : Sexp → List (List Sexp)
  | .atom _ => []
  | .group items => items :: groupsOfAll items

def groupsOfAll : List Sexp → List (List Sexp)
  | [] => []
  | item :: rest => groups item ++ groupsOfAll rest

end

mutual

/-- The atoms of a structure from left to right, without the operator that a group begins
with. -/
def operands : Sexp → List String
  | .atom t => [t]
  | .group items => operandsOfGroup items

/-- The first item of a group is left out if it is an operator. -/
def operandsOfGroup : List Sexp → List String
  | [] => []
  | first :: rest => (if first.isOperator then [] else operands first) ++ operandsOfAll rest

def operandsOfAll : List Sexp → List String
  | [] => []
  | item :: rest => operands item ++ operandsOfAll rest

end

end Sexp

namespace Operator

theorem ofAtom?_eq_none {t : String} (h : (Sexp.atom t).isOperator = false) : ofAtom? t = none := by
  simp only [Sexp.isOperator, Bool.or_eq_false_iff, beq_eq_false_iff_ne, ne_eq] at h
  simp [ofAtom?, atom, eq_comm, h]

theorem ofAtom?_atom (op : Operator) : ofAtom? op.atom = some op := by
  cases op <;> decide

theorem exists_operator {item : Sexp} (h : item.isOperator = true) :
    ∃ op : Operator, item = .atom op.atom := by
  cases item with
  | atom t =>
      simp only [Sexp.isOperator, Bool.or_eq_true, beq_iff_eq] at h
      rcases h with (rfl | rfl) | rfl
      · exact ⟨and, rfl⟩
      · exact ⟨or, rfl⟩
      · exact ⟨not, rfl⟩
  | group _ => cases h

theorem leading?_eq_none {first : Sexp} (h : first.isOperator = false) (rest : List Sexp) :
    leading? (first :: rest) = none := by
  cases first with
  | atom t => exact ofAtom?_eq_none h
  | group _ => rfl

theorem wellFormed_apply {word : String → Prop} {cs : List Expression} (op : Operator)
    (hne : cs ≠ []) (hcs : ∀ c ∈ cs, c.WellFormed word) : (op.apply cs).WellFormed word := by
  cases op with
  | and => exact .and hne hcs
  | or => exact .or hne hcs
  | not => exact .not hne hcs

theorem words_apply (op : Operator) (cs : List Expression) :
    (op.apply cs).words = cs.flatMap Expression.words := by
  cases op <;> simp [apply, Expression.words]

end Operator

namespace Expression

/-- A result for some groups: the first one with a lone operator is the fault, and without
such a group the result is as it should be. -/
structure Settles {α : Type} (groups : List (List Sexp)) (result : Except FilterError α)
    (good : α → Prop) : Prop where
  fault : ∀ g, groups.find? Sexp.isLoneOperator = some g →
    ∃ t, g = [.atom t] ∧ result = .error (.missingOperands t)
  value : groups.find? Sexp.isLoneOperator = none → ∃ a, result = .ok a ∧ good a

namespace Settles

variable {α β : Type} {gs hs : List (List Sexp)} {result : Except FilterError α}
  {good : α → Prop} {fine : β → Prop}

theorem ok {a : α} (h : good a) : Settles [] (.ok a) good where
  fault := by simp
  value := fun _ => ⟨a, rfl, h⟩

theorem bind (h : Settles gs result good) {next : α → Except FilterError β}
    (hnext : ∀ a, good a → Settles hs (next a) fine) : Settles (gs ++ hs) (result >>= next) fine := by
  cases hfirst : gs.find? Sexp.isLoneOperator with
  | some g =>
      obtain ⟨t, hg, hresult⟩ := h.fault g hfirst
      constructor
      · intro g' hg'
        rw [List.find?_append, hfirst] at hg'
        cases hg'
        exact ⟨t, hg, by rw [hresult]; rfl⟩
      · intro hnone
        rw [List.find?_append, hfirst] at hnone
        cases hnone
  | none =>
      obtain ⟨a, hresult, ha⟩ := h.value hfirst
      rw [hresult]
      constructor
      · intro g hg
        rw [List.find?_append, hfirst] at hg
        exact (hnext a ha).fault g hg
      · intro hnone
        rw [List.find?_append, hfirst] at hnone
        exact (hnext a ha).value hnone

theorem map (h : Settles gs result good) {f : α → β} (hf : ∀ a, good a → fine (f a)) :
    Settles gs (f <$> result) fine := by
  have hbind : Settles (gs ++ []) (result >>= fun a => .ok (f a)) fine :=
    h.bind fun a ha => ok (hf a ha)
  rw [List.append_nil] at hbind
  cases result with
  | error _ => exact hbind
  | ok _ => exact hbind

theorem lone {t : String} (ht : (Sexp.atom t).isOperator = true) (gs : List (List Sexp))
    (good : α → Prop) : Settles ([.atom t] :: gs) (.error (.missingOperands t)) good where
  fault := by
    intro g hg
    rw [List.find?_cons_of_pos (by exact ht)] at hg
    cases hg
    exact ⟨t, rfl, rfl⟩
  value := by
    intro hnone
    rw [List.find?_cons_of_pos (by exact ht)] at hnone
    cases hnone

/-- A group in front whose operator has operands, if it has one at all. -/
theorem behind (h : Settles gs result good) {g : List Sexp} (hg : Sexp.isLoneOperator g = false) :
    Settles (g :: gs) result good where
  fault := by
    rw [List.find?_cons_of_neg (by simp [hg])]
    exact h.fault
  value := by
    rw [List.find?_cons_of_neg (by simp [hg])]
    exact h.value

end Settles

/-- An expression that has the operands of a structure as its terms, none of them empty, and
no operator without children. -/
def Keeps (s : Sexp) (e : Expression) : Prop :=
  e.WellFormed (· ≠ "") ∧ e.words = s.operands

section Keeps

variable {items : List Sexp} {es : List Expression}

theorem keeps_words (h : List.Forall₂ Keeps items es) :
    es.flatMap words = Sexp.operandsOfAll items := by
  induction h with
  | nil => rfl
  | cons he _ ih => rw [List.flatMap_cons, Sexp.operandsOfAll, he.2, ih]

theorem keeps_wellFormed (h : List.Forall₂ Keeps items es) : ∀ e ∈ es, e.WellFormed (· ≠ "") := by
  induction h with
  | nil => simp
  | cons he _ ih => exact List.forall_mem_cons.mpr ⟨he.1, ih⟩

/-- Children of an operator that are what is kept of its operands. -/
theorem keeps_apply (op : Operator) (hne : items ≠ []) (h : List.Forall₂ Keeps items es) :
    (op.apply es).WellFormed (· ≠ "") ∧ (op.apply es).words = Sexp.operandsOfAll items := by
  have hchildren : es ≠ [] := by
    intro hnil
    rw [hnil] at h
    cases h
    exact hne rfl
  constructor
  · exact op.wellFormed_apply hchildren (keeps_wellFormed h)
  · rw [op.words_apply, keeps_words h]

end Keeps

theorem settles_ofSexps {items : List Sexp}
    (hitems : ∀ item ∈ items, Settles item.groups (ofSexp item) (Keeps item)) :
    Settles (Sexp.groupsOfAll items) (ofSexps items) (List.Forall₂ Keeps items) := by
  induction items with
  | nil => exact .ok .nil
  | cons item items ih =>
      obtain ⟨hitem, hothers⟩ := List.forall_mem_cons.mp hitems
      rw [Sexp.groupsOfAll, ofSexps]
      apply hitem.bind
      intro e he
      have hall : Settles (Sexp.groupsOfAll items) ((e :: ·) <$> ofSexps items)
          (List.Forall₂ Keeps (item :: items)) :=
        (ih hothers).map fun es hes => .cons he hes
      exact hall

/-- A group that begins with an operator and has operands. -/
theorem ofSexp_operator (op : Operator) {rest : List Sexp} (hne : rest ≠ []) :
    ofSexp (.group (.atom op.atom :: rest)) =
      (fun children => op.apply children.tail) <$> ofSexps (.atom op.atom :: rest) := by
  have hmany : (Sexp.atom op.atom :: rest).length ≠ 1 := by simpa using hne
  rw [ofSexp, Operator.leading?, Operator.ofAtom?_atom]
  simp only [if_neg hmany]

theorem ofSexp_lone (op : Operator) :
    ofSexp (.group [.atom op.atom]) = .error (.missingOperands op.atom) := by
  rw [ofSexp, Operator.leading?, Operator.ofAtom?_atom]
  rfl

/-- Any other group means that all its items hold. -/
theorem ofSexp_plain {first : Sexp} (h : first.isOperator = false) (rest : List Sexp) :
    ofSexp (.group (first :: rest)) = and <$> ofSexps (first :: rest) := by
  rw [ofSexp, Operator.leading?_eq_none h]

theorem settles_ofSexp {s : Sexp} (hs : s.WellFormed (· ≠ "")) :
    Settles s.groups (ofSexp s) (Keeps s) := by
  induction hs with
  | @atom t ht => exact .ok ⟨.term ht, rfl⟩
  | @group items hne _ ih =>
      have hitems := settles_ofSexps ih
      rw [Sexp.groups]
      cases items with
      | nil => exact absurd rfl hne
      | cons first rest =>
          by_cases hop : first.isOperator = true
          · obtain ⟨op, rfl⟩ := Operator.exists_operator hop
            by_cases hrest : rest = []
            · rw [hrest, ofSexp_lone]
              exact .lone hop _ _
            · have hmany : Sexp.isLoneOperator (.atom op.atom :: rest) = false := by
                simp [Sexp.isLoneOperator_cons, hrest]
              rw [ofSexp_operator op hrest]
              apply (hitems.map _).behind hmany
              have hbehind : (Sexp.group (.atom op.atom :: rest)).operands =
                  Sexp.operandsOfAll rest := by
                simp [Sexp.operands, Sexp.operandsOfGroup, hop]
              intro es hes
              cases hes with
              | cons _ hothers =>
                  rw [Keeps, hbehind]
                  exact keeps_apply op hrest hothers
          · rw [Bool.not_eq_true] at hop
            have hplain : Sexp.isLoneOperator (first :: rest) = false := by
              simp [Sexp.isLoneOperator_cons, hop]
            rw [ofSexp_plain hop]
            apply (hitems.map _).behind hplain
            have hall : (Sexp.group (first :: rest)).operands =
                Sexp.operandsOfAll (first :: rest) := by
              simp [Sexp.operands, Sexp.operandsOfGroup, Sexp.operandsOfAll, hop]
            intro es hes
            rw [Keeps, hall]
            exact keeps_apply .and hne hes

/-- Reading operator text fails exactly for a group that is a lone operator, at the first
such group, and otherwise keeps every operand: no operator of the expression is without
children, no term is empty, and the terms are the atoms of the structure from left to right
but for the operators that begin groups. -/
theorem parse_operators {text : String} {s : Sexp} (h : Sexp.parse text = .ok s) :
    ((∃ fault, parse text = .error fault) ↔ ∃ g ∈ s.groups, Sexp.isLoneOperator g = true) ∧
      (∀ g, s.groups.find? Sexp.isLoneOperator = some g →
        ∃ t, g = [.atom t] ∧ parse text = .error (.missingOperands t)) ∧
      (s.groups.find? Sexp.isLoneOperator = none →
        ∃ e, parse text = .ok e ∧ e.WellFormed (· ≠ "") ∧ e.words = s.operands) := by
  have hwell : s.WellFormed (· ≠ "") := (Sexp.wellFormed_of_parse h).mono fun _ ht => ht.1
  have hparse : parse text = ofSexp s := by
    rw [parse, h]
    rfl
  obtain ⟨hfault, hvalue⟩ := settles_ofSexp hwell
  rw [hparse]
  refine ⟨?_, hfault, hvalue⟩
  constructor
  · intro hfails
    obtain ⟨fault, hresult⟩ := hfails
    by_contra hnone
    have hfind : s.groups.find? Sexp.isLoneOperator = none := by
      apply List.find?_eq_none.mpr
      intro g hg hlone
      exact hnone ⟨g, hg, hlone⟩
    obtain ⟨e, he, -⟩ := hvalue hfind
    rw [he] at hresult
    cases hresult
  · intro hlone
    obtain ⟨first, hfind⟩ := Option.isSome_iff_exists.mp (List.find?_isSome.mpr hlone)
    obtain ⟨t, -, hresult⟩ := hfault first hfind
    exact ⟨_, hresult⟩

/-- Two lone operators, of which the first one counts, and operators that are operands. -/
theorem parse_operators_nested :
    Sexp.parse "(a ((OR) -) (AND))" = .ok (.group [.atom "a",
        .group [.group [.atom "OR"], .atom "-"], .group [.atom "AND"]]) ∧
      parse "(a ((OR) -) (AND))" = .error (.missingOperands "OR") ∧
      Sexp.parse "(OR a (- AND b) OR)" = .ok (.group [.atom "OR", .atom "a",
        .group [.atom "-", .atom "AND", .atom "b"], .atom "OR"]) ∧
      ∃ e, parse "(OR a (- AND b) OR)" = .ok e ∧ e.WellFormed (· ≠ "") ∧
        e.words = ["a", "AND", "b", "OR"] := by
  have hfaulty : Sexp.parse "(a ((OR) -) (AND))" = .ok (.group [.atom "a",
      .group [.group [.atom "OR"], .atom "-"], .group [.atom "AND"]]) := by
    cbv
  have hsound : Sexp.parse "(OR a (- AND b) OR)" = .ok (.group [.atom "OR", .atom "a",
      .group [.atom "-", .atom "AND", .atom "b"], .atom "OR"]) := by
    cbv
  obtain ⟨t, ht, hfault⟩ := (parse_operators hfaulty).2.1 [.atom "OR"] rfl
  cases ht
  exact ⟨hfaulty, hfault, hsound, (parse_operators hsound).2.2 rfl⟩

end Expression
end RuleDesk
