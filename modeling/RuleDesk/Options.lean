/-!
# Command line options

Arguments are read from left to right. A setting takes its value from the same
argument or from the next one that does not look like an option; what is wrong
with such a value is told only when the next option or the end has come, so a
fault in between is told first. No setting but the command may be given twice.
-/
namespace RuleDesk

/-- When errors are shown in color. -/
inductive ColorMode where
  | auto
  | always
  | never
deriving Repr, DecidableEq

/-- How much is logged. -/
inductive LogLevel where
  | error
  | warn
  | info
  | debug
  | trace
deriving Repr, DecidableEq

structure Options where
  config : Option String := none
  seed : Option String := none
  script : Option String := none
  /-- Console commands to run, behind those of the script. -/
  commands : List String := []
  continueOnError : Bool := false
  color : ColorMode := .auto
  verbose : Nat := 0
  quiet : Bool := false
deriving Repr, DecidableEq

/-- Why the arguments do not lead to a run. -/
inductive OptionsError where
  | unknownArgument
  | invalidValue
  | argumentConflict
  | tooManyValues
  | help
  | version
deriving Repr, DecidableEq

/-- Options that take a value. -/
inductive Setting where
  | config
  | seed
  | script
  | command
  | color
deriving Repr, DecidableEq

/-- Options that take none. -/
inductive Switch where
  | continueOnError
  | verbose
  | quiet
  | help
  | version
deriving Repr, DecidableEq

def Setting.ofLong? (name : String) : Option Setting :=
  [("config", config), ("seed", seed), ("file", script), ("command", command),
    ("color", color)].lookup name

def Setting.ofShort? (c : Char) : Option Setting :=
  [('f', script), ('c', command)].lookup c

def Switch.ofLong? (name : String) : Option Switch :=
  [("continue-on-error", continueOnError), ("verbose", verbose), ("quiet", quiet),
    ("help", help), ("version", version)].lookup name

def Switch.ofShort? (c : Char) : Option Switch :=
  [('v', verbose), ('q', quiet), ('h', help), ('V', version)].lookup c

def ColorMode.ofName? (name : String) : Option ColorMode :=
  [("auto", auto), ("always", always), ("never", never)].lookup name

def OptionsError.message : OptionsError → String
  | unknownArgument => "unexpected argument found"
  | invalidValue => "a value is missing or invalid"
  | argumentConflict => "arguments cannot be used together or more than once"
  | tooManyValues => "unexpected value for an option that takes none"
  | help => "help was asked for"
  | version => "the version was asked for"

namespace Options

def usageText : String :=
  "Usage: rule-console [OPTIONS]\n\nFor more information, try '--help'.\n"

def helpText : String :=
  "Interactive console for managing stream filter rules and their file outputs\n\n" ++
  "Usage: rule-console [OPTIONS]\n\nOptions:\n" ++
  "      --config <CONFIG>     TOML configuration file [env: RULE_CONSOLE_CONFIG=]\n" ++
  "      --seed <SEED>         JSON rule listing the store starts from (overrides the config)\n" ++
  "  -f, --file <SCRIPT>       Run console commands from a file instead of reading stdin\n" ++
  "  -c, --command <COMMANDS>  Run a console command (repeatable, runs after --file)\n" ++
  "      --continue-on-error   Keep going when a scripted command fails\n" ++
  "      --color <COLOR>       When to color output [default: auto]" ++
  " [possible values: auto, always, never]\n" ++
  "  -v, --verbose...          Increase diagnostic output (-v, -vv, -vvv)\n" ++
  "  -q, --quiet               Only report errors\n" ++
  "  -h, --help                Print help\n" ++
  "  -V, --version             Print version\n"

/-- The most that is counted of the verbose switch. -/
def verboseLimit : Nat := 255

def isScripted (o : Options) : Bool :=
  o.script.isSome || !o.commands.isEmpty

def logLevel (o : Options) : LogLevel :=
  if o.quiet then .error
  else
    match o.verbose with
    | 0 => .warn
    | 1 => .info
    | 2 => .debug
    | _ => .trace

/-- Arguments read so far. -/
structure Reading where
  options : Options := {}
  /-- The settings that have got their value. -/
  given : List Setting := []
  /-- A setting that is not stored yet, with its value if that has come. -/
  pending : Option (Setting × Option String) := none
  /-- Whether the mark `--` has come, behind which no option is read. -/
  closed : Bool := false
deriving Repr, DecidableEq

namespace Reading

/-- Stores the value of a setting. -/
def store (r : Reading) (setting : Setting) (value? : Option String) :
    Except OptionsError Reading :=
  match value? with
  | none => .error .invalidValue
  | some value =>
    if setting != .command && r.given.contains setting then .error .argumentConflict
    else
      let given := setting :: r.given
      let path (options : Options) : Except OptionsError Reading :=
        if value.isEmpty then .error .invalidValue else .ok { r with options, given }
      match setting with
      | .config => path { r.options with config := some value }
      | .seed => path { r.options with seed := some value }
      | .script => path { r.options with script := some value }
      | .command =>
        let commands := r.options.commands ++ [value]
        .ok { r with options := { r.options with commands }, given }
      | .color =>
        match ColorMode.ofName? value with
        | some color => .ok { r with options := { r.options with color }, given }
        | none => .error .invalidValue

/-- Stores what is pending. -/
def settle (r : Reading) : Except OptionsError Reading :=
  match r.pending with
  | none => .ok r
  | some (setting, value?) => { r with pending := none }.store setting value?

def set (r : Reading) (switch : Switch) : Except OptionsError Reading := do
  let r ← r.settle
  match switch with
  | .continueOnError =>
    if r.options.continueOnError then .error .argumentConflict
    else .ok { r with options := { r.options with continueOnError := true } }
  | .verbose =>
    .ok { r with options := { r.options with verbose := min (r.options.verbose + 1) verboseLimit } }
  | .quiet =>
    if r.options.quiet then .error .argumentConflict
    else .ok { r with options := { r.options with quiet := true } }
  | .help => .error .help
  | .version => .error .version

/-- A setting whose value is to come in the next argument. -/
def await (r : Reading) (setting : Setting) : Except OptionsError Reading := do
  let r ← r.settle
  return { r with pending := some (setting, none) }

/-- A setting whose value stands in the same argument. -/
def attach (r : Reading) (setting : Setting) (value : String) : Except OptionsError Reading := do
  (← r.settle).store setting (some value)

/-- An option by its name, with the value behind an equals sign if there is one. -/
def takeLong (r : Reading) (name : String) (value? : Option String) : Except OptionsError Reading :=
  match Setting.ofLong? name, Switch.ofLong? name, value? with
  | some setting, _, none => r.await setting
  | some setting, _, some value => r.attach setting value
  | none, some switch, none => r.set switch
  | none, some _, some _ => .error .tooManyValues
  | none, none, _ => .error .unknownArgument

/-- Options by their letters. The rest behind a setting's letter is its value, less
an equals sign in front. -/
def takeShort (r : Reading) : List Char → Except OptionsError Reading
  | [] => .ok r
  | c :: rest =>
    match Switch.ofShort? c, Setting.ofShort? c with
    | some switch, _ => do (← r.set switch).takeShort rest
    | none, some setting =>
      match rest with
      | [] => r.await setting
      | '=' :: value => r.attach setting (String.ofList value)
      | value => r.attach setting (String.ofList value)
    | none, none => .error .unknownArgument

def take (r : Reading) (arg : String) : Except OptionsError Reading :=
  if r.closed then .error .unknownArgument
  else
    match arg.toList with
    | ['-', '-'] => .ok { r with closed := true }
    | '-' :: '-' :: option =>
      match option.span (· != '=') with
      | (name, _ :: value) => r.takeLong (String.ofList name) (some (String.ofList value))
      | (name, []) => r.takeLong (String.ofList name) none
    | '-' :: c :: rest => r.takeShort (c :: rest)
    | _ =>
      match r.pending with
      | some (setting, none) => .ok { r with pending := some (setting, some arg) }
      | _ => .error .unknownArgument

/-- Ends the reading. A configuration that is not given is taken from the
environment. -/
def finish (r : Reading) (environment? : Option String) : Except OptionsError Options := do
  let r ← r.settle
  let r ← match environment? with
    | some path => if r.options.config.isSome then pure r else r.store .config (some path)
    | none => pure r
  if r.options.quiet && 0 < r.options.verbose then .error .argumentConflict
  else return r.options

end Reading

/-- Reads the arguments behind the program's name. -/
def parse (args : List String) (environment? : Option String) :
    Except OptionsError Options := do
  (← args.foldlM Reading.take {}).finish environment?

end Options
end RuleDesk
