import RuleDesk.Json.Fields
import RuleDesk.Rule.Basic

/-!
# Capture records

A line of a capture holds one recorded item: its data, any JSON value, and the
rules that it matched.
-/
namespace RuleDesk

structure CaptureRecord where
  data : Json.Value
  /-- The ids of the matched rules. -/
  matched : List RuleId := []

namespace CaptureRecord

/-- A matched rule has one field, its id. -/
def matchedId? (tree : Json.Tree) : Option RuleId := do
  match ← tree.fields? ["id"] with
  | [some id] => id.text?
  | _ => none

def matchedIds? (tree : Json.Tree) : Option (List RuleId) := do
  (← tree.items?).mapM matchedId?

/-- Reads a line. The record itself counts as one level of nesting. -/
def parse? (line : String) : Option CaptureRecord := do
  let tree ← Json.Tree.parse? line
  match ← tree.fields? ["data", "matching_rules"] with
  | [some data, none] => return { data := ← Json.Value.ofTree? (Json.depthLimit - 1) data }
  | [some data, some matched] =>
    return { data := ← Json.Value.ofTree? (Json.depthLimit - 1) data
             matched := ← matchedIds? matched }
  | _ => none

end CaptureRecord
end RuleDesk
