import RuleDesk.Files.Task
import RuleDesk.Rule.Basic
import RuleDesk.Toml.Document

/-!
# Configuration

Settings of the console and how they are read from a TOML document. Missing
settings keep their standard values and unknown ones are ignored.
-/
namespace RuleDesk

structure Config where
  /-- Shown before every line of interactive input. -/
  prompt : String := ">>>>>>>> "
  /-- The tag of rules that are added without one. -/
  defaultTag : String := standardTag
  /-- What generated rule names begin with. -/
  ruleNameStem : String := "Rule"
  /-- The most rules that the store takes; zero stands for no bound. -/
  ruleCap : Option Nat := some 25
  /-- The listing that the store starts from. -/
  seed : Option String := none
deriving Repr, DecidableEq

inductive ConfigError where
  | unreadable (path : String) (cause : IoFailure)
  | malformed (path : String)
deriving Repr, DecidableEq

def ConfigError.message : ConfigError → String
  | unreadable path cause => s!"Failed to read config file '{path}': {cause.message}"
  | malformed path => s!"Failed to parse config file '{path}': not a valid configuration"

namespace Config

/-- The bound that is in force. -/
def effectiveCap (c : Config) : Option Nat :=
  c.ruleCap.filter (0 < ·)

/-- A setting that must be a string if it is there. -/
def stringSetting? (entries : Toml.Entries) (key fallback : String) : Option String :=
  match entries.lookup key with
  | none => some fallback
  | some (.value (.string s)) => some s
  | some _ => none

/-- A setting that must be a number from zero on if it is there. -/
def countSetting? (entries : Toml.Entries) (key : String) (fallback : Option Nat) :
    Option (Option Nat) :=
  match entries.lookup key with
  | none => some fallback
  | some (.value (.integer n)) => if 0 ≤ n then some (some n.toNat) else none
  | some _ => none

def ofEntries? (entries : Toml.Entries) : Option Config := do
  let standard : Config := {}
  let seed ← match entries.lookup "seed" with
    | none => some standard.seed
    | some _ => some <$> stringSetting? entries "seed" ""
  return {
    prompt := ← stringSetting? entries "prompt" standard.prompt
    defaultTag := ← stringSetting? entries "default_tag" standard.defaultTag
    ruleNameStem := ← stringSetting? entries "rule_name_prefix" standard.ruleNameStem
    ruleCap := ← countSetting? entries "rule_cap" standard.ruleCap
    seed }

def parse? (text : String) : Option Config := do
  ofEntries? (← Toml.Document.parse? text)

/-- The configuration in a file, or the standard one without a file. -/
def load : (path? : Option String) → FileTask (Except ConfigError Config)
  | none => .done (.ok {})
  | some path => do
    match ← FileTask.readText path with
    | .error cause => return .error (.unreadable path cause)
    | .ok text =>
      match parse? text with
      | some config => return .ok config
      | none => return .error (.malformed path)

end Config
end RuleDesk
