import RuleDesk.Json.Token

/-!
# The structure of a JSON text

`Tree` is what a text spells, before anything is asked of its strings and
numbers. The reader keeps the arrays and objects that are still open on a stack
and takes one token at a time.
-/
namespace RuleDesk.Json

inductive Tree where
  | null
  | bool (b : Bool)
  | number (literal : NumberLiteral)
  | string (units : RawText)
  | array (items : List Tree)
  | object (members : List (RawText × Tree))
deriving Repr, BEq

/-- An array or object that is still open; what it holds comes last first. -/
inductive Frame where
  | array (items : List Tree)
  | object (members : List (RawText × Tree))
  /-- An object in which the value of `key` is to come. -/
  | member (members : List (RawText × Tree)) (key : RawText)
deriving Repr

/-- What may come next. -/
inductive Awaiting where
  | value
  /-- The start of an array. -/
  | valueOrClose
  | key
  /-- The start of an object. -/
  | keyOrClose
  | colon (key : RawText)
  /-- Behind an item or member. -/
  | commaOrClose
  /-- Behind the outermost value. -/
  | nothing (value : Tree)
deriving Repr

structure TreeReader where
  openFrames : List Frame := []
  awaiting : Awaiting := .value
deriving Repr

namespace TreeReader

/-- Puts a complete value where it belongs. -/
def put (value : Tree) : List Frame → Option TreeReader
  | [] => some ⟨[], .nothing value⟩
  | .array items :: outer => some ⟨.array (value :: items) :: outer, .commaOrClose⟩
  | .member members key :: outer => some ⟨.object ((key, value) :: members) :: outer, .commaOrClose⟩
  | .object _ :: _ => none

/-- A token where a value is due. -/
def takeValue (r : TreeReader) : Token → Option TreeReader
  | .null => put .null r.openFrames
  | .bool b => put (.bool b) r.openFrames
  | .number l => put (.number l) r.openFrames
  | .string s => put (.string s) r.openFrames
  | .openArray => some ⟨.array [] :: r.openFrames, .valueOrClose⟩
  | .openObject => some ⟨.object [] :: r.openFrames, .keyOrClose⟩
  | _ => none

/-- Closes the innermost array or object by the token that fits it. -/
def close (r : TreeReader) (token : Token) : Option TreeReader :=
  match r.openFrames, token with
  | .array items :: outer, .closeArray => put (.array items.reverse) outer
  | .object members :: outer, .closeObject => put (.object members.reverse) outer
  | _, _ => none

def takeKey (r : TreeReader) : Token → Option TreeReader
  | .string s => some { r with awaiting := .colon s }
  | _ => none

def step (r : TreeReader) (token : Token) : Option TreeReader :=
  match r.awaiting with
  | .value => r.takeValue token
  | .valueOrClose => if token = .closeArray then r.close token else r.takeValue token
  | .key => r.takeKey token
  | .keyOrClose => if token = .closeObject then r.close token else r.takeKey token
  | .colon key =>
    match r.openFrames, token with
    | .object members :: outer, .colon => some ⟨.member members key :: outer, .value⟩
    | _, _ => none
  | .commaOrClose =>
    match r.openFrames, token with
    | .array _ :: _, .comma => some { r with awaiting := .value }
    | .object _ :: _, .comma => some { r with awaiting := .key }
    | _, _ => r.close token
  | .nothing _ => none

def run (r : TreeReader) : List Token → Option TreeReader
  | [] => some r
  | token :: rest => (r.step token).bind (·.run rest)

end TreeReader

/-- The structure of a text that holds exactly one value. -/
def Tree.parse? (text : String) : Option Tree := do
  let tokens ← tokens? text
  let r ← TreeReader.run {} tokens
  match r.awaiting with
  | .nothing value => some value
  | _ => none

end RuleDesk.Json
