import RuleDesk.Filter.Expression

/-!
# Trees of filter expressions

What every statement about expressions needs: trees in which each operator has a
child, the truth of a tree, its words, and the functions on lists of children
written with the operations of lists.
-/
namespace RuleDesk.Expression

/-- Every operator has a child and every term is a word of the given kind. -/
inductive WellFormed (word : String → Prop) : Expression → Prop where
  | term {t : String} : word t → WellFormed word (term t)
  | and {cs : List Expression} :
      cs ≠ [] → (∀ c ∈ cs, WellFormed word c) → WellFormed word (and cs)
  | or {cs : List Expression} :
      cs ≠ [] → (∀ c ∈ cs, WellFormed word c) → WellFormed word (or cs)
  | not {cs : List Expression} :
      cs ≠ [] → (∀ c ∈ cs, WellFormed word c) → WellFormed word (not cs)

section WellFormed

variable {word : String → Prop} {t : String} {cs : List Expression}

@[simp] theorem wellFormed_term : (term t).WellFormed word ↔ word t :=
  ⟨fun h => by cases h; assumption, .term⟩

@[simp] theorem wellFormed_and :
    (and cs).WellFormed word ↔ cs ≠ [] ∧ ∀ c ∈ cs, c.WellFormed word :=
  ⟨fun h => by cases h with | and hne hcs => exact ⟨hne, hcs⟩, fun h => .and h.1 h.2⟩

@[simp] theorem wellFormed_or :
    (or cs).WellFormed word ↔ cs ≠ [] ∧ ∀ c ∈ cs, c.WellFormed word :=
  ⟨fun h => by cases h with | or hne hcs => exact ⟨hne, hcs⟩, fun h => .or h.1 h.2⟩

@[simp] theorem wellFormed_not :
    (not cs).WellFormed word ↔ cs ≠ [] ∧ ∀ c ∈ cs, c.WellFormed word :=
  ⟨fun h => by cases h with | not hne hcs => exact ⟨hne, hcs⟩, fun h => .not h.1 h.2⟩

end WellFormed

mutual

/-- The truth of an expression when `v` tells which words hold. A negation holds when
none of its children does. -/
def holds (v : String → Bool) : Expression → Bool
  | term t => v t
  | and children => allHold v children
  | or children => someHolds v children
  | not children => !someHolds v children

def allHold (v : String → Bool) : List Expression → Bool
  | [] => true
  | child :: rest => holds v child && allHold v rest

def someHolds (v : String → Bool) : List Expression → Bool
  | [] => false
  | child :: rest => holds v child || someHolds v rest

end

section Truth

variable (v : String → Bool) (cs : List Expression)

@[simp] theorem allHold_eq_all : allHold v cs = cs.all (holds v) := by
  induction cs with
  | nil => rfl
  | cons c cs ih => simp [allHold, ih]

@[simp] theorem someHolds_eq_any : someHolds v cs = cs.any (holds v) := by
  induction cs with
  | nil => rfl
  | cons c cs ih => simp [someHolds, ih]

@[simp] theorem holds_term (t : String) : (term t).holds v = v t := rfl

@[simp] theorem holds_and : (and cs).holds v = cs.all (holds v) := by
  simp [holds]

@[simp] theorem holds_or : (or cs).holds v = cs.any (holds v) := by
  simp [holds]

/-- Each child is denied on its own. -/
@[simp] theorem holds_not : (not cs).holds v = cs.all fun c => !c.holds v := by
  simp [holds, List.not_any_eq_all_not]

variable {v} {p q : Expression → Bool}

theorem all_congr_mem (h : ∀ c ∈ cs, p c = q c) : cs.all p = cs.all q := by
  induction cs with
  | nil => rfl
  | cons c cs ih =>
      rw [List.all_cons, List.all_cons, h c (by simp), ih fun d hd => h d (by simp [hd])]

theorem any_congr_mem (h : ∀ c ∈ cs, p c = q c) : cs.any p = cs.any q := by
  induction cs with
  | nil => rfl
  | cons c cs ih =>
      rw [List.any_cons, List.any_cons, h c (by simp), ih fun d hd => h d (by simp [hd])]

end Truth

mutual

/-- The words of an expression from left to right. -/
def words : Expression → List String
  | term t => [t]
  | and children => wordsOfAll children
  | or children => wordsOfAll children
  | not children => wordsOfAll children

def wordsOfAll : List Expression → List String
  | [] => []
  | child :: rest => words child ++ wordsOfAll rest

end

@[simp] theorem wordsOfAll_eq_flatMap (cs : List Expression) :
    wordsOfAll cs = cs.flatMap words := by
  induction cs with
  | nil => rfl
  | cons c cs ih => simp [wordsOfAll, ih]

/-- The level at which a child of a negation is written. -/
def levelBelow (level : Nat) (child : Expression) : Nat :=
  if child.isCompound && level == 0 then 1 else level

@[simp] theorem levelBelow_succ (level : Nat) (child : Expression) :
    levelBelow (level + 1) child = level + 1 := by
  simp [levelBelow]

theorem textsAt_eq_map (level : Nat) (cs : List Expression) :
    textsAt level cs = cs.map (textAt level) := by
  induction cs with
  | nil => rfl
  | cons c cs ih => simp [textsAt, ih]

theorem negationsAt_eq_map (level : Nat) (cs : List Expression) :
    negationsAt level cs = cs.map fun c => "-" ++ textAt (levelBelow level c) c := by
  induction cs with
  | nil => rfl
  | cons c cs ih => simp [negationsAt, levelBelow, ih]

end RuleDesk.Expression
