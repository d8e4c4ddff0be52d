import RuleDesk.Text.Blank
import RuleDesk.Filter.Error

/-!
# Nested groups of atoms

A filter text is a sequence of atoms and parenthesised groups. A quoted span
belongs to its atom and keeps its quotes, and inside it a backslash pair is kept
whole. Outside spans a backslash is dropped and makes the next character
literal. Several items at the top form one group.

The reader walks the text once. Positions are kept as the rest of the text from
there on, so a fault can quote the text that it points at.
-/
namespace RuleDesk

inductive Sexp where
  | atom (text : String)
  | group (items : List Sexp)
deriving Repr, BEq, Inhabited

namespace Sexp

mutual

/-- The written form: items of a group between parentheses, one space apart. -/
def text : Sexp → String
  | atom t => t
  | group items => "(" ++ " ".intercalate (texts items) ++ ")"

def texts : List Sexp → List String
  | [] => []
  | item :: rest => item.text :: texts rest

end

def atom? : Sexp → Option String
  | atom t => some t
  | group _ => none

/-- A group whose closing parenthesis is still to come. -/
structure OpenGroup where
  /-- The text from the opening parenthesis on. -/
  start : List Char
  /-- Items read so far, the last one first. -/
  items : List Sexp
deriving Repr

/-- What has been read of a text outside quoted spans. -/
structure Reader where
  /-- The innermost open group comes first. -/
  groups : List OpenGroup := []
  /-- Items outside every group, the last one first. -/
  top : List Sexp := []
  /-- Characters of the atom being read, the last one first. -/
  atom : List Char := []
deriving Repr

namespace Reader

/-- Adds an item to the innermost open group. -/
def push (r : Reader) (item : Sexp) : Reader :=
  match r.groups with
  | [] => { r with top := item :: r.top }
  | g :: outer => { r with groups := { g with items := item :: g.items } :: outer }

/-- Ends the atom being read, if it has any character. -/
def flush (r : Reader) : Reader :=
  if r.atom.isEmpty then r
  else ({ r with atom := [] } : Reader).push (.atom (String.ofList r.atom.reverse))

def take (r : Reader) (c : Char) : Reader :=
  { r with atom := c :: r.atom }

/-- Opens a group at the parenthesis that `start` begins with. -/
def openGroup (r : Reader) (start : List Char) : Reader :=
  { r.flush with groups := ⟨start, []⟩ :: r.flush.groups }

/-- Closes the innermost group at the parenthesis that `close` begins with. -/
def closeGroup (r : Reader) (close : List Char) : Except FilterError Reader :=
  match r.flush.groups with
  | [] => .error (.unmatchedClose (String.ofList close))
  | g :: outer =>
    if g.items.isEmpty then
      .error (.emptyGroup (String.ofList (g.start.take (g.start.length + 1 - close.length))))
    else
      .ok (({ r.flush with groups := outer } : Reader).push (.group g.items.reverse))

/-- Ends the text: everything must be closed, and one item at least be read. -/
def finish (r : Reader) : Except FilterError Sexp :=
  match r.groups.getLast? with
  | some g => .error (.unclosedGroup (String.ofList g.start))
  | none =>
    match r.flush.top.reverse with
    | [] => .error .empty
    | [item] => .ok item
    | items => .ok (.group items)

end Reader

/-- Reads on; `span?` holds the quote of the span being read and the text from
that quote on. -/
def read (r : Reader) (span? : Option (Char × List Char)) :
    List Char → Except FilterError Sexp
  | [] =>
    match span? with
    | some (_, start) => .error (.unterminatedQuote (String.ofList start))
    | none => r.finish
  | c :: rest =>
    match span? with
    | some (q, start) =>
      if c = '\\' then
        match rest with
        | [] => .error (.unterminatedQuote (String.ofList start))
        | d :: rest => read ((r.take c).take d) span? rest
      else
        read (r.take c) (if c = q then none else span?) rest
    | none =>
      if c = '\\' then
        match rest with
        | [] => r.finish
        | d :: rest => read (r.take d) none rest
      else if isQuote c then read (r.take c) (some (c, c :: rest)) rest
      else if c = '(' then read (r.openGroup (c :: rest)) none rest
      else if c = ')' then
        match r.closeGroup (c :: rest) with
        | .error e => .error e
        | .ok r => read r none rest
      else if isBlank c then read r.flush none rest
      else read (r.take c) none rest

/-- Reads a whole text. -/
def parse (text : String) : Except FilterError Sexp :=
  read {} none text.toList

end Sexp
end RuleDesk
