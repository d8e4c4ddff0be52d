import RuleDesk.Rule.Basic

/-!
# Output handles

A handle writes the matches of some rules to a file. Handles are known by name
and numbered in order of creation; a number is never given twice.
-/
namespace RuleDesk

abbrev HandleId := Nat

structure Handle where
  id : HandleId
  name : String
  file : String
  /-- The subscribed rules, each once; none means every rule. -/
  rules : List RuleId
deriving Repr, DecidableEq

def Handle.receivesAll (h : Handle) : Bool :=
  h.rules.isEmpty

/-- Appends the ids that are not in the list yet, in order of first appearance. -/
def subscribeTo (subscribed : List RuleId) : List RuleId → List RuleId
  | [] => subscribed
  | id :: rest =>
    subscribeTo (if subscribed.contains id then subscribed else subscribed ++ [id]) rest

structure Handles where
  list : List Handle := []
  nextId : HandleId := 0
deriving Repr, DecidableEq

namespace Handles

def byName? (hs : Handles) (name : String) : Option Handle :=
  hs.list.find? (·.name == name)

def byId? (hs : Handles) (id : HandleId) : Option Handle :=
  hs.list.find? (·.id == id)

/-- Creates a handle unless the name is taken. -/
def add (hs : Handles) (name file : String) (rules : List RuleId) : Handles × Option Handle :=
  if (hs.byName? name).isSome then (hs, none)
  else
    let handle : Handle := ⟨hs.nextId, name, file, subscribeTo [] rules⟩
    (⟨hs.list ++ [handle], hs.nextId + 1⟩, some handle)

/-- Removes the handle of a name, if there is one. -/
def remove (hs : Handles) (name : String) : Handles × Option Handle :=
  match hs.byName? name with
  | some handle => ({ hs with list := hs.list.eraseP (·.name == name) }, some handle)
  | none => (hs, none)

/-- Changes the first handle of a name. -/
def changeFirst (name : String) (change : Handle → Handle) : List Handle → List Handle
  | [] => []
  | h :: rest => if h.name == name then change h :: rest else h :: changeFirst name change rest

/-- Changes the handle of a name, and tells whether there is one. -/
def change (hs : Handles) (name : String) (change : Handle → Handle) : Handles × Bool :=
  match hs.byName? name with
  | some _ => ({ hs with list := changeFirst name change hs.list }, true)
  | none => (hs, false)

def subscribe (hs : Handles) (name : String) (rules : List RuleId) : Handles × Bool :=
  hs.change name fun h => { h with rules := subscribeTo h.rules rules }

def unsubscribe (hs : Handles) (name : String) (rules : List RuleId) : Handles × Bool :=
  hs.change name fun h => { h with rules := h.rules.filter (!rules.contains ·) }

def setFile (hs : Handles) (name file : String) : Handles × Bool :=
  hs.change name fun h => { h with file }

/-- Drops a deleted rule from every handle. -/
def forgetRule (hs : Handles) (id : RuleId) : Handles :=
  { hs with list := hs.list.map fun h => { h with rules := h.rules.filter (· != id) } }

def forgetAllRules (hs : Handles) : Handles :=
  { hs with list := hs.list.map fun h => { h with rules := [] } }

end Handles
end RuleDesk
