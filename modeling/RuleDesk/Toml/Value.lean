/-!
# Values and tables of TOML

A document is a table. Tables remember how they came about, since a table may be
written in one way only: under a header of its own, implied by the header of a
table inside it, or by dotted keys.
-/
namespace RuleDesk.Toml

inductive Value where
  | string (s : String)
  | integer (n : Int)
  | boolean (b : Bool)
  /-- A float, as it is spelled. -/
  | float (spelling : String)
  /-- A date, a time or both, as it is spelled. -/
  | moment (spelling : String)
  | array (items : List Value)
  | inlineTable (entries : List (String × Value))
deriving Repr, BEq

/-- What stands under a key. -/
inductive Item where
  | value (v : Value)
  /-- A table; `implied` if no header of its own was met, `dotted` if dotted keys
  made it. -/
  | table (implied dotted : Bool) (entries : List (String × Item))
  /-- Tables under one repeated header. -/
  | tables (list : List (List (String × Item)))
deriving Repr, BEq

abbrev Entries := List (String × Item)

namespace Entries

def set (entries : Entries) (key : String) (item : Item) : Entries :=
  if (entries.lookup key).isSome then entries.map fun e => if e.1 = key then (key, item) else e
  else entries ++ [(key, item)]

/-- Changes the table that a path leads to. Missing tables on the way are made.
`dotted` tells a path of dotted keys from one of a header; dotted keys may not
enter a table that has a header. `change` learns whether the table was made by
dotted keys. -/
def change (change : (tableDotted : Bool) → Entries → Option Entries) (dotted : Bool) :
    (path : List String) → (tableDotted : Bool) → Entries → Option Entries
  | [], tableDotted, entries => change tableDotted entries
  | key :: rest, _, entries =>
    match entries.lookup key with
    | none => do
      let inner ← Entries.change change dotted rest dotted []
      return entries.set key (.table true dotted inner)
    | some (.value _) => none
    | some (.table implied tableDotted inner) =>
      if dotted && !implied then none
      else do
        let inner ← Entries.change change dotted rest tableDotted inner
        return entries.set key (.table implied tableDotted inner)
    | some (.tables list) => do
      let inner ← Entries.change change dotted rest false (← list.getLast?)
      return entries.set key (.tables (list.dropLast ++ [inner]))

/-- Puts a value under a dotted key. No key is written twice. -/
def assign (entries : Entries) (path : List String) (v : Value) : Option Entries := do
  let key ← path.getLast?
  let parents := path.dropLast
  Entries.change (fun tableDotted inner =>
    if tableDotted = parents.isEmpty || (inner.lookup key).isSome then none
    else some (inner ++ [(key, .value v)])) true parents false entries

end Entries
end RuleDesk.Toml
