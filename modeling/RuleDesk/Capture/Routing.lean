import RuleDesk.Capture.Sink
import RuleDesk.Rule.Book

/-!
# Which handles take which matches

A routing table gives the handles of each rule id. A handle with a rule list
takes the matches of those rules, a handle without one those of every rule that
the table knows of when the handle's turn comes.
-/
namespace RuleDesk

structure RoutingTable where
  /-- Handles in order of creation by rule id, each id once. -/
  routes : List (RuleId × List HandleId) := []
deriving Repr, DecidableEq

namespace RoutingTable

def handlesOf (t : RoutingTable) (id : RuleId) : List HandleId :=
  (t.routes.lookup id).getD []

/-- Adds a rule without handles unless the table knows it. -/
def addRule (t : RoutingTable) (id : RuleId) : RoutingTable :=
  if (t.routes.lookup id).isSome then t else ⟨t.routes ++ [(id, [])]⟩

/-- Sends the matches of a rule to a handle as well. -/
def addRoute (t : RoutingTable) (handle : HandleId) (id : RuleId) : RoutingTable :=
  ⟨(t.addRule id).routes.map fun route =>
    if route.1 = id then (route.1, route.2 ++ [handle]) else route⟩

def addHandle (t : RoutingTable) (h : Handle) : RoutingTable :=
  if h.receivesAll then ⟨t.routes.map fun route => (route.1, route.2 ++ [h.id])⟩
  else h.rules.foldl (fun t id => t.addRoute h.id id) t

/-- The table of a rulebook and its handles. -/
def build (book : Rulebook) (handles : Handles) : RoutingTable :=
  let known := (book.rules.filterMap Rule.id).foldl addRule ⟨[]⟩
  handles.list.foldl addHandle known

/-- Appends the handles that are not in the list yet. -/
def addTargets (targets : List HandleId) : List HandleId → List HandleId
  | [] => targets
  | h :: rest => addTargets (if targets.contains h then targets else targets ++ [h]) rest

/-- The handles of the matched rules, each once, in order of first appearance. -/
def targets (t : RoutingTable) (matched : List RuleId) : List HandleId :=
  matched.foldl (fun targets id => addTargets targets (t.handlesOf id)) []

variable {ρ : Type} [RecordSink ρ]

/-- Writes a record to handles in turn until one of them fails. -/
def writeTo (sink : ρ) (record : String) : List HandleId → FileTask (ρ × Except SinkError Unit)
  | [] => .done (sink, .ok ())
  | handle :: rest => do
    match ← RecordSink.write sink handle record with
    | (sink, .ok ()) => writeTo sink record rest
    | (sink, .error e) => return (sink, .error e)

/-- Writes a record to each of its handles; the result is their number. -/
def route (t : RoutingTable) (sink : ρ) (record : String) (matched : List RuleId) :
    FileTask (ρ × Except SinkError Nat) := do
  let targets := t.targets matched
  let (sink, result) ← writeTo sink record targets
  return (sink, result.map fun _ => targets.length)

end RoutingTable
end RuleDesk
