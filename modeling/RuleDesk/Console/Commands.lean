import RuleDesk.Command.Dispatch
import RuleDesk.Console.Effects

/-!
# The commands of the console

The tree of commands, with the words that lead to each and the text that help
shows for it.
-/
namespace RuleDesk.Console

variable {σ : Type}

/-- A command with an effect on the session. -/
def command (name description : String) (signature : Signature) (effect : Effect σ) :
    Node (Session σ) :=
  .command ⟨name, description, signature, .run effect.toHandler⟩

def noParams : Signature := ⟨[], by decide⟩

def nameOnly : Signature := ⟨[.required "name"], by decide⟩

def nameAndFile : Signature := ⟨[.required "name", .required "file"], by decide⟩

def nameAndRules : Signature := ⟨[.required "name", .variadic "rules"], by decide⟩

def subscriptionGroup : Group (Session σ) :=
  (Group.new "rules" "Change which rules feed a handle").addAll [
    command "add" "Subscribe a handle to more rules" nameAndRules subscribe,
    command "delete" "Unsubscribe a handle from rules; with none left it receives every rule"
      nameAndRules unsubscribe]

def handleGroup : Group (Session σ) :=
  (Group.new "handle" "Route rule matches into output files").addAll [
    command "add" "Create a handle writing to a file, fed by the listed rules or by all of them"
      ⟨[.required "name", .required "file", .variadic "rules"], by decide⟩ addHandle,
    command "delete" "Delete a handle" nameOnly deleteHandle,
    command "view" "Show one handle" nameOnly viewHandle,
    command "list" "List every handle" noParams listHandles,
    command "file" "Point a handle at another file" nameAndFile setFile,
    subscriptionGroup.toNode]

def streamGroup : Group (Session σ) :=
  (Group.new "stream" "Feed recorded stream items to the handles").addAll [
    .command ⟨"replay", "Route a JSON-lines capture through the current handles",
      ⟨[.required "capture", .optional "limit"], by decide⟩, .run replay⟩]

variable [RuleStore σ]

def ruleGroup : Group (Session σ) :=
  (Group.new "rules" "Create, inspect and synchronize filter rules").addAll [
    command "add" "Add a rule written in operator form, e.g. (OR cat dog)"
      ⟨[.required "name", .required "rule", .optional "tag"], by decide⟩ addRule,
    command "delete" "Delete a rule, '*' deletes every rule" nameOnly deleteRule,
    command "view" "Show one rule, by name or with '-i <id>'"
      ⟨[.required "name", .optional "id"], by decide⟩ viewRule,
    command "list" "List every rule" noParams listRules,
    command "sync" "Pull the store's rules into the console" noParams syncRules,
    command "compile" "Print the filter text a rule would compile to"
      ⟨[.required "rule"], by decide⟩ compileRule]

def root : Group (Session σ) :=
  Group.root.addAll [
    ruleGroup.toNode,
    handleGroup.toNode,
    streamGroup.toNode,
    command "quit" "Leave the console" noParams quit]

end RuleDesk.Console

namespace RuleDesk.Session

variable {σ : Type} [RuleStore σ]

/-- Carries out one line of input. -/
def execute (s : Session σ) (out : Output) (line : String) : FileTask (Outcome (Session σ)) :=
  Console.root.dispatch s out line

/-- Takes over the store's listing before the first line and tells what is new. -/
def startupSync (s : Session σ) (out : Output) : Session σ × Output × Except CommandError Unit :=
  match sync.run s with
  | .error e s => (s, out, .error e)
  | .ok report s =>
    if report.pulled.isEmpty then (s, out, .ok ())
    else
      match out.write (Console.reportText report) with
      | .ok out => (s, out, .ok ())
      | .error cause => (s, out, .error (.output cause))

end RuleDesk.Session
