import RuleDesk.Console.Commands

/-!
# Running many lines

A script runs its lines until one fails, unless it is told to go on. The
interactive loop prompts for lines until the session stops or the input ends,
and reports failures without ending.
-/
namespace RuleDesk

variable {σ : Type}

/-- The label of reports on the error stream, red and bold if in color. -/
def errorLabel (colored : Bool) : String :=
  if colored then "\x1b[1;31merror:\x1b[0m" else "error:"

def reportLine (colored : Bool) (message : String) : String :=
  errorLabel colored ++ " " ++ message ++ "\n"

/-- A line of a script that failed. Lines are counted from one. -/
structure ScriptError where
  line : Nat
  cause : DispatchError
deriving Repr, DecidableEq

def ScriptError.message (e : ScriptError) : String :=
  s!"line {e.line}: {e.cause.message}"

structure ScriptSummary where
  executed : Nat := 0
  failed : Nat := 0
deriving Repr, DecidableEq

/-- What a run of lines leaves behind: the session, what was written to the output
and to the error stream, and how it ended. -/
structure Run (σ ρ : Type) where
  session : Session σ
  out : Output
  errors : String
  result : ρ

namespace Script

/-- A line that a script passes over. -/
def isSkipped (line : String) : Bool :=
  line.isEmpty || line.startsWith "#"

end Script

namespace Session

variable [RuleStore σ]

/-- Runs the lines of a script from the one numbered `number` on. -/
def runLines (keepGoing colored : Bool) (number : Nat) (summary : ScriptSummary)
    (s : Session σ) (out : Output) (errors : String) :
    List String → FileTask (Run σ (Except ScriptError ScriptSummary))
  | [] => .done ⟨s, out, errors, .ok summary⟩
  | line :: rest =>
    let line := Text.trim line
    if Script.isSkipped line then
      runLines keepGoing colored (number + 1) summary s out errors rest
    else do
      let outcome ← s.execute out line
      let summary := { summary with executed := summary.executed + 1 }
      match outcome.result with
      | .ok () =>
        if outcome.state.running then
          runLines keepGoing colored (number + 1) summary outcome.state outcome.out errors rest
        else return ⟨outcome.state, outcome.out, errors, .ok summary⟩
      | .error cause =>
        let error : ScriptError := ⟨number, cause⟩
        if keepGoing then
          let summary := { summary with failed := summary.failed + 1 }
          let errors := errors ++ reportLine colored error.message
          if outcome.state.running then
            runLines keepGoing colored (number + 1) summary outcome.state outcome.out errors rest
          else return ⟨outcome.state, outcome.out, errors, .ok summary⟩
        else return ⟨outcome.state, outcome.out, errors, .error error⟩

/-- Runs a script. -/
def runScript (s : Session σ) (keepGoing colored : Bool) (out : Output) (lines : List String) :
    FileTask (Run σ (Except ScriptError ScriptSummary)) :=
  s.runLines keepGoing colored 1 {} out "" lines

/-- A line of input without the line end. -/
def inputLine (line : String) : String :=
  String.ofList (line.toList.reverse.dropWhile fun c => c == '\r' || c == '\n').reverse

/-- Carries out a line of input and reports its failure. A line that is no text ends
the input with a failure. -/
def answer (s : Session σ) (colored : Bool) (out : Output) (errors : String) (line : Bytes) :
    FileTask (Run σ (Except IoFailure Unit)) :=
  match line.text? with
  | none => .done ⟨s, out, errors, .error .notText⟩
  | some line => do
    let outcome ← s.execute out (inputLine line)
    let errors := match outcome.result with
      | .ok () => errors
      | .error cause => errors ++ reportLine colored cause.message
    return ⟨outcome.state, outcome.out, errors, .ok ()⟩

/-- Prompts for lines and carries them out while the session runs. At the end of the
input the line of the last prompt is ended. -/
def converse (colored : Bool) (s : Session σ) (out : Output) (errors : String) :
    List Bytes → FileTask (Run σ (Except IoFailure Unit))
  | [] =>
    if !s.running then .done ⟨s, out, errors, .ok ()⟩
    else
      match out.write s.config.prompt >>= (·.write "\n") with
      | .error cause => .done ⟨s, out, errors, .error cause⟩
      | .ok out => .done ⟨s, out, errors, .ok ()⟩
  | line :: rest =>
    if !s.running then .done ⟨s, out, errors, .ok ()⟩
    else
      match out.write s.config.prompt with
      | .error cause => .done ⟨s, out, errors, .error cause⟩
      | .ok out => do
        let run ← s.answer colored out errors line
        match run.result with
        | .error cause => return { run with result := .error cause }
        | .ok () => converse colored run.session run.out run.errors rest

/-- Reads lines from an input until the session stops or the input ends. -/
def runInteractive (s : Session σ) (colored : Bool) (out : Output) (input : Bytes) :
    FileTask (Run σ (Except IoFailure Unit)) :=
  s.converse colored out "" input.toLines

end Session

/-- What the interactive loop asks of its surroundings. -/
structure Terminal (m : Type → Type) where
  put : String → m (Except IoFailure Unit)
  /-- Shows a text on the error stream. -/
  complain : String → m Unit
  /-- The next line of the input with its end, or nothing behind the last one. -/
  readLine : m (Except IoFailure (Option Bytes))
  perform {α : Type} : FileTask α → m α
  /-- Repeats a step up to its first result. -/
  iterate {α β : Type} : (α → m (α ⊕ β)) → α → m β

namespace Session

variable {m : Type → Type} [Monad m] [RuleStore σ]

/-- One round of the interactive loop: a prompt, a line, and what the line leads to. The
line is carried out before the next one is read. -/
def converseOnce (terminal : Terminal m) (colored : Bool) (s : Session σ) :
    m (Session σ ⊕ Session σ × Except IoFailure Unit) := do
  if !s.running then return .inr (s, .ok ())
  else
    match ← terminal.put s.config.prompt with
    | .error cause => return .inr (s, .error cause)
    | .ok () =>
      match ← terminal.readLine with
      | .error cause => return .inr (s, .error cause)
      | .ok none => return .inr (s, ← terminal.put "\n")
      | .ok (some line) =>
        let run ← terminal.perform (s.answer colored {} "" line)
        let shown ← terminal.put run.out.text
        terminal.complain run.errors
        match shown >>= fun () => run.result with
        | .error cause => return .inr (run.session, .error cause)
        | .ok () => return .inl run.session

/-- The interactive loop, on any terminal. -/
def interact (terminal : Terminal m) (colored : Bool) (s : Session σ) :
    m (Session σ × Except IoFailure Unit) :=
  terminal.iterate (converseOnce terminal colored) s

end Session
end RuleDesk
