import RuleDesk.Json.Value

/-!
# Records written in JSON

A record is an object with known fields, each at most once and others ignored, or
an array of the fields in their order. The content of an ignored field need only
be well spelled.
-/
namespace RuleDesk.Json

/-- The text of a string. -/
def Tree.text? : Tree → Option String
  | .string s => s.text?
  | _ => none

/-- The members of an object under their names. -/
def namedMembers? : List (RawText × Tree) → Option (List (String × Tree))
  | [] => some []
  | (key, value) :: rest => do
    let name ← key.text?
    let members ← namedMembers? rest
    return (name, value) :: members

/-- The value of a field that stands at most once; a field that stands twice has
none, not even a missing one. -/
def fieldOnce? (name : String) (members : List (String × Tree)) : Option (Option Tree) :=
  match members.filter (·.1 == name) with
  | [] => some none
  | [(_, value)] => some (some value)
  | _ => none

/-- The values of the named fields, missing ones included. An array may end early,
but may not go on behind the last field. -/
def Tree.fields? (names : List String) : Tree → Option (List (Option Tree))
  | .object members => do
    let members ← namedMembers? members
    names.mapM (fieldOnce? · members)
  | .array items =>
    if names.length < items.length then none
    else some (items.map some ++ List.replicate (names.length - items.length) none)
  | _ => none

/-- The items of an array. -/
def Tree.items? : Tree → Option (List Tree)
  | .array items => some items
  | _ => none

/-- How many arrays and objects may be nested in one another. -/
def depthLimit : Nat := 127

end RuleDesk.Json
