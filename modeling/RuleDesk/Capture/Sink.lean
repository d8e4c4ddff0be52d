import RuleDesk.Files.Task
import RuleDesk.Handle.Basic

/-!
# Where records go

A sink takes records for numbered handles. `Recorder` is a sink that keeps what
it is given.
-/
namespace RuleDesk

inductive SinkError where
  | unknownSink (handle : HandleId)
  | write (path : String) (cause : IoFailure)
  | capture (path : String) (cause : IoFailure)
deriving Repr, DecidableEq

def SinkError.message : SinkError → String
  | unknownSink handle => s!"No output registered for handle {handle}"
  | write path cause => s!"Failed to write output file '{path}': {cause.message}"
  | capture path cause => s!"Failed to read capture '{path}': {cause.message}"

/-- A place that takes records, one at a time, and may refuse any of them. -/
class RecordSink (ρ : Type) where
  write : ρ → HandleId → String → FileTask (ρ × Except SinkError Unit)

/-- Keeps the records that it accepts, in order, and refuses one handle. -/
structure Recorder where
  writes : List (HandleId × String) := []
  refused : Option HandleId := none
deriving Repr, DecidableEq

instance : RecordSink Recorder where
  write r handle record :=
    if r.refused = some handle then .done (r, .error (.unknownSink handle))
    else .done ({ r with writes := r.writes ++ [(handle, record)] }, .ok ())

end RuleDesk
