import RuleDesk.Command.Help
import RuleDesk.Command.Token

/-!
# From a line to its command

The words of a line lead from group to group down to one command, which takes
the words that are left. A line that ends at a group shows the group's help.
-/
namespace RuleDesk

/-- An output of text, which may have stopped taking any. -/
structure Output where
  text : String := ""
  broken : Bool := false
deriving Repr, DecidableEq

namespace Output

/-- Appends a text. A broken output still takes the empty text. -/
def write (out : Output) (s : String) : Except IoFailure Output :=
  if out.broken && !s.isEmpty then .error .closed else .ok { out with text := out.text ++ s }

end Output

/-- What a line leaves behind. -/
structure Outcome (σ : Type) where
  state : σ
  out : Output
  result : Except DispatchError Unit

namespace Outcome

variable {σ : Type}

/-- Shows the text of a command; the state is in force whether or not that works. -/
def ofText (state : σ) (out : Output) (command text : String) : Outcome σ :=
  match out.write text with
  | .ok out => ⟨state, out, .ok ()⟩
  | .error cause => ⟨state, out, .error (.command command (.output cause))⟩

end Outcome

variable {σ : Type}

/-- The argument of `help` that expands every group. -/
def recursiveFlag : String := "-r"

/-- Runs a command of the group `owner`, whose path is given, on the words after
the command's name. -/
def Command.invoke (c : Command σ) (owner : Group σ) (path : String) (words : List String)
    (state : σ) (out : Output) : FileTask (Outcome σ) :=
  match c.signature.bind words with
  | .error reason => .done ⟨state, out, .error (.usage (Help.commandLine path c) reason)⟩
  | .ok args =>
    match c.action with
    | .help =>
      let mode := if args.get? "flag" = some recursiveFlag then .recursive else .simple
      .done (.ofText state out (qualify path "help") (Help.render owner path mode))
    | .run handler => do
      let (state, result) ← handler args state
      match result with
      | .ok text => return .ofText state out (qualify path c.name) text
      | .error cause => return ⟨state, out, .error (.command (qualify path c.name) cause)⟩

namespace Group

/-- Follows the words from a group inside the path `above`. -/
def dispatchWords (g : Group σ) (above : String) (state : σ) (out : Output) :
    List String → FileTask (Outcome σ)
  | [] =>
    let path := qualify above g.name
    .done (.ofText state out (qualify path "help") (Help.render g path .simple))
  | word :: words =>
    let path := qualify above g.name
    match g.child? word with
    | none => .done ⟨state, out, .error (.unrecognizedCommand word)⟩
    | some (.group name description children) =>
      dispatchWords ⟨name, description, children⟩ path state out words
    | some (.command c) => c.invoke g path words state out

/-- Carries out one line. -/
def dispatch (g : Group σ) (state : σ) (out : Output) (line : String) : FileTask (Outcome σ) :=
  g.dispatchWords "" state out (tokenize line)

end Group
end RuleDesk
