import RuleDesk.Filter.Sexp

/-!
# Filter expressions

A group whose first item is the atom `AND`, `OR` or `-` applies that operator to
the rest of the group; any other group means that all its items must hold.

An expression is flattened to the text of a search grammar in which a space
binds tighter than ` OR ` and `-` negates the factor after it. A conjunction or
disjunction is put in parentheses except at the top; a negation writes `-`
before each of its children.
-/
namespace RuleDesk

inductive Operator where
  | and
  | or
  | not
deriving Repr, DecidableEq

inductive Expression where
  | term (text : String)
  /-- Every child holds. -/
  | and (children : List Expression)
  /-- Some child holds. -/
  | or (children : List Expression)
  /-- No child holds. -/
  | not (children : List Expression)
deriving Repr, BEq, Inhabited

namespace Operator

/-- The atom that stands for an operator, capitals only. -/
def atom : Operator → String
  | and => "AND"
  | or => "OR"
  | not => "-"

def ofAtom? (text : String) : Option Operator :=
  [and, or, not].find? (·.atom = text)

/-- The operator that a group begins with, if it begins with one. -/
def leading? : List Sexp → Option Operator
  | .atom head :: _ => ofAtom? head
  | _ => none

def apply : Operator → List Expression → Expression
  | and => .and
  | or => .or
  | not => .not

end Operator

namespace Expression

mutual

/-- The boolean meaning of a structure. A leading operator is read as a term like
the other items and then left out. -/
def ofSexp : Sexp → Except FilterError Expression
  | .atom text => .ok (.term text)
  | .group items =>
    match Operator.leading? items with
    | some operator =>
      if items.length = 1 then .error (.missingOperands operator.atom)
      else (fun children => operator.apply children.tail) <$> ofSexps items
    | none => and <$> ofSexps items

/-- The first faulty item decides. -/
def ofSexps : List Sexp → Except FilterError (List Expression)
  | [] => .ok []
  | item :: rest => do
    let child ← ofSexp item
    let children ← ofSexps rest
    return child :: children

end

/-- Reads operator text such as `(OR cat (- dog))`. -/
def parse (text : String) : Except FilterError Expression :=
  Sexp.parse text >>= ofSexp

/-- A conjunction or disjunction of more than one child. -/
def isCompound : Expression → Bool
  | and children | or children => 1 < children.length
  | _ => false

/-- Parentheses are left out at level 0 only. -/
def wrapAt (level : Nat) (body : String) : String :=
  if level = 0 then body else "(" ++ body ++ ")"

mutual

/-- The flattened text of a node that has `level` conjunctions and disjunctions
above it. A compound child of a negation at the top counts as one level down, so
the negation covers all of it. -/
def textAt (level : Nat) : Expression → String
  | term t => t
  | and children => wrapAt level (" ".intercalate (textsAt (level + 1) children))
  | or children => wrapAt level (" OR ".intercalate (textsAt (level + 1) children))
  | not children => " ".intercalate (negationsAt level children)

def textsAt (level : Nat) : List Expression → List String
  | [] => []
  | child :: rest => textAt level child :: textsAt level rest

def negationsAt (level : Nat) : List Expression → List String
  | [] => []
  | child :: rest =>
    ("-" ++ textAt (if child.isCompound && level == 0 then 1 else level) child) ::
      negationsAt level rest

end

/-- The flattened text for the search grammar. -/
def text (e : Expression) : String :=
  e.textAt 0

end Expression

/-- Reads operator text and flattens it. -/
def compile (text : String) : Except FilterError String :=
  Expression.text <$> Expression.parse text

end RuleDesk
