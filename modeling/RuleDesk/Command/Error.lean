import RuleDesk.Capture.Sink
import RuleDesk.Command.Signature
import RuleDesk.Filter.Error
import RuleDesk.Rule.Store

/-!
# Failures of commands

A handler fails with a `CommandError`; a line that could not be carried out ends
in a `DispatchError`.
-/
namespace RuleDesk

inductive CommandError where
  | notFound (message : String)
  | invalid (message : String)
  | filter (cause : FilterError)
  | store (cause : StoreError)
  | sink (cause : SinkError)
  /-- The program broke down in the middle of the command. -/
  | fault (cause : Fault)
  /-- The output did not take the command's text. -/
  | output (cause : IoFailure)
deriving Repr, DecidableEq

def CommandError.message : CommandError → String
  | notFound text | invalid text => text
  | filter cause => cause.message
  | store cause => cause.message
  | sink cause => cause.message
  | fault cause => cause.message
  | output cause => cause.message

inductive DispatchError where
  | unrecognizedCommand (word : String)
  /-- The words after a command do not fit its parameters. -/
  | usage (line : String) (reason : BindingFailure)
  | command (name : String) (cause : CommandError)
deriving Repr, DecidableEq

def DispatchError.message : DispatchError → String
  | unrecognizedCommand word => s!"sorry, I don't recognize '{word}' as a command"
  | usage line reason => s!"Incorrect usage: {line} ({reason.message})"
  | command name cause => s!"{name}: {cause.message}"

/-- The single word bound to a name, which a handler cannot do without. -/
def Args.require (args : Args) (name : String) : Except CommandError String :=
  match args.get? name with
  | some word => .ok word
  | none => .error (.invalid s!"missing argument '{name}'")

end RuleDesk
