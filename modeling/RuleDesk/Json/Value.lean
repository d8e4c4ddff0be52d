import RuleDesk.Json.Syntax

/-!
# JSON values

A value is a structure whose strings are texts, whose numbers are in range and
whose arrays and objects are not nested too deeply. The members of an object are
ordered by name; of members of one name the last one counts.
-/
namespace RuleDesk.Json

inductive Value where
  | null
  | bool (b : Bool)
  | number (n : Number)
  | string (s : String)
  | array (items : List Value)
  | object (members : List (String × Value))
deriving Repr

namespace Value

/-- Puts a member where its name belongs, in place of one of that name. -/
def insertMember (name : String) (value : Value) :
    List (String × Value) → List (String × Value)
  | [] => [(name, value)]
  | (other, v) :: rest =>
    if name = other then (name, value) :: rest
    else if name < other then (name, value) :: (other, v) :: rest
    else (other, v) :: insertMember name value rest

def sortMembers (members : List (String × Value)) : List (String × Value) :=
  members.foldl (fun sorted m => insertMember m.1 m.2 sorted) []

mutual

/-- The value of a structure with room for `room` nested arrays and objects. -/
def ofTree? (room : Nat) : Tree → Option Value
  | .null => some .null
  | .bool b => some (.bool b)
  | .number l => number <$> Number.ofLiteral? l
  | .string s => string <$> s.text?
  | .array items =>
    match room with
    | 0 => none
    | room + 1 => array <$> ofTrees? room items
  | .object members =>
    match room with
    | 0 => none
    | room + 1 => (object ∘ sortMembers) <$> ofMembers? room members

def ofTrees? (room : Nat) : List Tree → Option (List Value)
  | [] => some []
  | item :: rest => do
    let value ← ofTree? room item
    let values ← ofTrees? room rest
    return value :: values

def ofMembers? (room : Nat) : List (RawText × Tree) → Option (List (String × Value))
  | [] => some []
  | (key, item) :: rest => do
    let name ← key.text?
    let value ← ofTree? room item
    let values ← ofMembers? room rest
    return (name, value) :: values

end

mutual

/-- The compact written form. -/
def text : Value → String
  | null => "null"
  | bool true => "true"
  | bool false => "false"
  | number n => n.text
  | string s => quote s
  | array items => "[" ++ ",".intercalate (texts items) ++ "]"
  | object members => "\x7b" ++ ",".intercalate (memberTexts members) ++ "\x7d"

def texts : List Value → List String
  | [] => []
  | item :: rest => item.text :: texts rest

def memberTexts : List (String × Value) → List String
  | [] => []
  | (name, value) :: rest => (quote name ++ ":" ++ value.text) :: memberTexts rest

end

end Value
end RuleDesk.Json
