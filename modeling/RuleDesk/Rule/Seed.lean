import RuleDesk.Files.Task
import RuleDesk.Json.Fields
import RuleDesk.Rule.Store

/-!
# Seeds of a store

A seed is a JSON array of listed rules, each with an id, a value and a tag that
may be missing.
-/
namespace RuleDesk

namespace ListedRule

def ofTree? (tree : Json.Tree) : Option ListedRule := do
  match ← tree.fields? ["id", "value", "tag"] with
  | [some id, some value, none] => return ⟨← id.text?, ← value.text?, standardTag⟩
  | [some id, some value, some tag] => return ⟨← id.text?, ← value.text?, ← tag.text?⟩
  | _ => none

/-- Reads a listing. -/
def parseListing? (text : String) : Option (List ListedRule) := do
  (← (← Json.Tree.parse? text).items?).mapM ofTree?

end ListedRule

/-- The store that the listing in a file describes. -/
def MemoryStore.load (path : String) :
    FileTask (Except Fault (Except StoreError MemoryStore)) := do
  match ← FileTask.readText path with
  | .error cause => return .ok (.error (.seedUnreadable path cause))
  | .ok text =>
    match ListedRule.parseListing? text with
    | some listing => return (ofListing listing).map .ok
    | none => return .ok (.error (.seedMalformed path))

end RuleDesk
