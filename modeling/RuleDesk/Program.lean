import RuleDesk.Console.Loop
import RuleDesk.Options
import RuleDesk.Rule.Seed
import RuleDesk.Text.Lines

/-!
# A run of the program

From the arguments to the exit code: the options, the configuration, the store
and its listing, and then the lines of a script or of the input.
-/
namespace RuleDesk

/-- Why a run ends without success. -/
inductive ProgramError where
  | config (cause : ConfigError)
  | store (cause : StoreError)
  /-- The program broke down. -/
  | fault (cause : Fault)
  | startup (cause : CommandError)
  | scriptUnreadable (path : String) (cause : IoFailure)
  | script (cause : ScriptError)
  | failedCommands (count : Nat)
  | interactive (cause : IoFailure)
deriving Repr, DecidableEq

def ProgramError.message : ProgramError → String
  | config cause => cause.message
  | store cause => cause.message
  | fault cause => cause.message
  | startup cause => cause.message
  | scriptUnreadable path cause => s!"Failed to read script '{path}': {cause.message}"
  | script cause => cause.message
  | failedCommands count => s!"{count} scripted command(s) failed"
  | interactive cause => cause.message

/-- The exit code of a run that ends so. -/
def ProgramError.code : ProgramError → Nat
  | fault _ => 101
  | _ => 1

namespace Program

/-- The variable of the environment that names a configuration. -/
def configVariable : String := "RULE_CONSOLE_CONFIG"

def versionText : String := "rule-console 0.1.0\n"

/-- The store that a session starts from: the seed of the options, or that of the
configuration, or nothing. -/
def openStore (options : Options) (config : Config) :
    FileTask (Except ProgramError MemoryStore) := do
  let opened ← match options.seed.or config.seed with
    | some path => MemoryStore.load path
    | none => pure (.ok (.ok {}))
  match opened with
  | .error fault => return .error (.fault fault)
  | .ok (.error cause) => return .error (.store cause)
  | .ok (.ok store) => return .ok { store with cap := config.effectiveCap }

/-- The session that the options lead to, and what it shows before the first line. -/
def start (options : Options) (workDir : String) :
    FileTask (Except ProgramError (Session MemoryStore × Output)) := do
  match ← Config.load options.config with
  | .error cause => return .error (.config cause)
  | .ok config =>
    match ← openStore options config with
    | .error failure => return .error failure
    | .ok store =>
      match (Session.new config store workDir).startupSync {} with
      | (_, _, .error cause) => return .error (.startup cause)
      | (s, out, .ok ()) => return .ok (s, out)

/-- The lines of the script's file and then the commands of the options. -/
def scriptLines (options : Options) : FileTask (Except ProgramError (List String)) := do
  match options.script with
  | none => return .ok options.commands
  | some path =>
    match ← FileTask.readText path with
    | .error cause => return .error (.scriptUnreadable path cause)
    | .ok text => return .ok (Text.lines text ++ options.commands)

/-- How a part of a run went: the output, the error stream, and the failure that
ends the run. -/
structure Ending where
  out : Output := {}
  errors : String := ""
  failure : Option ProgramError := none

/-- Why a run of lines that ends with this session and this failure is no success. A
breakdown comes before any other reason. -/
def failureOf (s : Session MemoryStore) (failure : Option ProgramError) : Option ProgramError :=
  (s.fault.map .fault).or failure

/-- Runs the script that the options name. -/
def runScripted (options : Options) (colored : Bool) (s : Session MemoryStore) (out : Output) :
    FileTask Ending := do
  match ← scriptLines options with
  | .error failure => return { out, failure := some failure }
  | .ok lines =>
    let run ← s.runScript options.continueOnError colored out lines
    let failure := match run.result with
      | .error cause => some (.script cause)
      | .ok summary =>
        if 0 < summary.failed then some (.failedCommands summary.failed) else none
    return { out := run.out, errors := run.errors, failure := failureOf run.session failure }

/-- Why a conversation that ends like this is no success. -/
def failureOfConversation (s : Session MemoryStore) (result : Except IoFailure Unit) :
    Option ProgramError :=
  failureOf s <| match result with
    | .error cause => some (.interactive cause)
    | .ok () => none

/-- Runs the lines of the input. -/
def runConversation (colored : Bool) (s : Session MemoryStore) (out : Output) (input : Bytes) :
    FileTask Ending := do
  let run ← s.runInteractive colored out input
  return {
    out := run.out
    errors := run.errors
    failure := failureOfConversation run.session run.result }

/-- What the world sees of a run. -/
structure Result where
  code : Nat
  out : String := ""
  errors : String := ""

/-- The result of a run that ended; its failure is reported last. -/
def Ending.result (e : Ending) (colored : Bool) : Result :=
  match e.failure with
  | none => ⟨0, e.out.text, e.errors⟩
  | some failure => ⟨failure.code, e.out.text, e.errors ++ reportLine colored failure.message⟩

/-- Runs with options that have been read. -/
def runWith (options : Options) (workDir : String) (colored : Bool) (input : Bytes) :
    FileTask Result := do
  match ← start options workDir with
  | .error failure => return ({ failure := some failure } : Ending).result colored
  | .ok (s, out) =>
    let ending ← if options.isScripted then runScripted options colored s out
      else runConversation colored s out input
    return ending.result colored

/-- What the surroundings of a run say about color: whether the output is a terminal,
and the values of three variables of the environment. -/
structure ColorHints where
  terminal : Bool := false
  /-- `CLICOLOR_FORCE` asks for color. -/
  force : Option String := none
  /-- `NO_COLOR` refuses it, whatever its value. -/
  refuse : Option String := none
  /-- `CLICOLOR` asks for color on terminals. -/
  onTerminal : Option String := none
deriving Repr, DecidableEq

/-- Whether a run is in color that is not told so. The value `0` does not ask. -/
def ColorHints.decide (h : ColorHints) : Bool :=
  h.force.any (· != "0") ||
    (h.refuse.isNone && h.terminal && h.onTerminal.all (· != "0"))

/-- Whether reports are in color. -/
def isColored (mode : ColorMode) (hints : ColorHints) : Bool :=
  match mode with
  | .always => true
  | .never => false
  | .auto => hints.decide

/-- The result of arguments that ask for no run. -/
def refusal : OptionsError → Result
  | .version => ⟨0, versionText, ""⟩
  | .help => ⟨0, Options.helpText, ""⟩
  | e => ⟨2, "", reportLine false e.message ++ "\n" ++ Options.usageText⟩

/-- A whole run with all of its input at hand and no terminal. -/
def run (args : List String) (environment? : Option String) (workDir : String) (input : Bytes) :
    FileTask Result :=
  match Options.parse args environment? with
  | .error e => .done (refusal e)
  | .ok options => runWith options workDir (isColored options.color {}) input

end Program
end RuleDesk
