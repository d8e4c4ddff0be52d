import RuleDesk.Capture.FileSink
import RuleDesk.Capture.Replay
import RuleDesk.Command.Tree
import RuleDesk.Console.Session
import RuleDesk.Console.Table

/-!
# What the commands do

The effect of each command of the console on a session, and the text that it
shows. All but the replay work on the session alone. An effect is an operation on
it: where it fails, the session is what the steps before have left.
-/
namespace RuleDesk.Console

variable {σ : Type}

/-- An effect that touches no file. -/
abbrev Effect (σ : Type) := Args → Operation σ String

def Effect.toHandler (effect : Effect σ) : Handler (Session σ) := fun args s =>
  match (effect args).run s with
  | .ok text t => .done (t, .ok text)
  | .error e t => .done (t, .error e)

/-- What listings show when there is nothing to list. -/
def emptyListing : String := "EMPTY\n"

/-- The changes of a merge, one line for each kind. -/
def reportText (report : SyncReport) : String :=
  let line (label : String) (names : List String) : String :=
    if names.isEmpty then "" else label ++ ": " ++ ", ".intercalate names ++ "\n"
  if report = {} then "Rules are in sync\n"
  else
    line "Pulled" report.pulled ++ line "Updated" report.updated ++
      line "Not in store" report.unlisted

def ruleText (rule : Rule) : String :=
  let id := rule.id.getD "-"
  s!"Rule '{rule.name}':\n\tID: {id}\n\tfilter: {rule.expression}\n\ttag: {rule.tag}\n"

variable [RuleStore σ]

def addRule : Effect σ := fun args => do
  let name ← args.require "name"
  let text ← args.require "rule"
  let rule ← Session.addRule (some name) text (args.get? "tag")
  return s!"Rule successfully added as '{rule.name}'. Look at current rules with 'rules list'\n"

def deleteRule : Effect σ := fun args => do
  let name ← args.require "name"
  if name = everyRule then
    let count ← Session.deleteAllRules
    return s!"All rules deleted ({count})\n"
  else
    let rule ← Session.deleteRule name
    return s!"Rule '{rule.name}' deleted\n"

def syncRules : Effect σ := fun _ => do
  let report ← Session.sync
  return reportText report

omit [RuleStore σ]

/-- The rule that `rules view` asks for, by name or by id behind the flag. -/
def findRule (s : Session σ) (name : String) (second? : Option String) : Except CommandError Rule :=
  if name = idFlag then
    match second? with
    | none => .error (.invalid "'-i' needs a rule id")
    | some id =>
      match s.rules.byId? id with
      | some rule => .ok rule
      | none => .error (.notFound s!"No rule with id {id}")
  else
    match second? with
    | some extra => .error (.invalid
        s!"unexpected '{extra}', use 'rules view -i <id>' to look up by id")
    | none =>
      match s.rules.byName? name with
      | some rule => .ok rule
      | none => .error (.notFound s!"Rule '{name}' doesn't exist")

def viewRule : Effect σ := fun args => do
  let name ← args.require "name"
  let rule ← findRule (← get) name (args.get? "id")
  return ruleText rule

def ruleTable (rules : List Rule) : Display.Table where
  header := ["Name", "Filter", "Tag", "ID"]
  rows := rules.map fun r => [r.name, r.expression, r.tag, r.id.getD "-"]

def listRules : Effect σ := fun _ => do
  let s ← get
  if s.rules.rules.isEmpty then return emptyListing
  else return (ruleTable s.rules.sortedByName).text ++ "\n"

def compileRule : Effect σ := fun args => do
  let rule ← args.require "rule"
  let text ← (compile rule).mapError CommandError.filter
  return text ++ "\n"

def unknownHandle (name : String) : CommandError :=
  .notFound s!"Couldn't find handle '{name}'. Use 'handle list' to see current handles"

/-- Makes a request on the handle of a name, which has to be there. -/
def onHandle (name : String) (request : Handles → Handles × Bool) (text : String) :
    Operation σ String := do
  if ← Session.withHandles request then return text else throw (unknownHandle name)

def addHandle : Effect σ := fun args => do
  let name ← args.require "name"
  let file ← args.require "file"
  let rules ← (← get).ruleIds (args.list "rules")
  match ← Session.withHandles (·.add name file rules) with
  | some _ => return s!"Handle '{name}' added\n"
  | none => throw (.invalid s!"Handle '{name}' already exists")

def deleteHandle : Effect σ := fun args => do
  let name ← args.require "name"
  onHandle name (fun handles => (handles.remove name).map id Option.isSome)
    s!"Handle '{name}' deleted\n"

/-- The rules of a handle by name. -/
def rulesOf (s : Session σ) (h : Handle) : String :=
  let names := s.ruleNames h.rules
  if names.isEmpty then "ALL" else ", ".intercalate names

def viewHandle : Effect σ := fun args => do
  let name ← args.require "name"
  let s ← get
  match s.handles.byName? name with
  | none => throw (unknownHandle name)
  | some h => return s!"Handle '{h.name}':\n\tFILE: '{h.file}'\n\tRULES: {rulesOf s h}\n"

def handleTable (s : Session σ) : Display.Table where
  header := ["Name", "File", "Rules"]
  rows := s.handles.list.map fun h => [h.name, h.file, rulesOf s h]

def listHandles : Effect σ := fun _ => do
  let s ← get
  if s.handles.list.isEmpty then return emptyListing
  else return (handleTable s).text ++ "\n"

def setFile : Effect σ := fun args => do
  let name ← args.require "name"
  let file ← args.require "file"
  onHandle name (·.setFile name file) s!"Handle '{name}' now writes to '{file}'\n"

def subscribe : Effect σ := fun args => do
  let name ← args.require "name"
  let rules ← (← get).ruleIds (args.list "rules")
  onHandle name (·.subscribe name rules) s!"Rules added to handle '{name}'\n"

def unsubscribe : Effect σ := fun args => do
  let name ← args.require "name"
  let rules ← (← get).ruleIds (args.list "rules")
  onHandle name (·.unsubscribe name rules) s!"Rules removed from handle '{name}'\n"

def quit : Effect σ := fun _ => do
  modify Session.stop
  return "Bye\n"

/-- The capture and the limit that the arguments of a replay name. -/
def replayRequest (args : Args) : Except CommandError (String × Option Nat) := do
  let capture ← args.require "capture"
  match args.get? "limit" with
  | none => return (capture, none)
  | some raw =>
    match Numeral.word? raw with
    | some limit => return (capture, some limit)
    | none => throw (.invalid s!"limit must be a number, got '{raw}'")

/-- Replays an open capture into the files of the handles. The files are closed
whatever happens. -/
def replayInto (s : Session σ) (file : FileId) (capture : String) (limit? : Option Nat) :
    FileTask (Except SinkError ReplayStats) := do
  let table := RoutingTable.build s.rules s.handles
  let (sink, result) ← replayFile file capture table (FileSink.ofHandles s.workDir s.handles) limit?
  match result with
  | .error e =>
    sink.drop
    return .error e
  | .ok stats =>
    let (sink, closed) ← sink.closeAll
    sink.drop
    return closed.map fun _ => stats

def statsText (stats : ReplayStats) : String :=
  s!"Replayed {stats.records} record(s): {stats.writes} write(s), {stats.skipped} skipped\n"

def replay : Handler (Session σ) := fun args s =>
  match replayRequest args with
  | .error e => .done (s, .error e)
  | .ok (capture, limit?) =>
    if s.handles.list.isEmpty then
      .done (s, .ok "No handles to write to, add one with 'handle add'\n")
    else do
      match ← FileTask.openFile capture .read with
      | .error cause => return (s, .error (.sink (.capture capture cause)))
      | .ok file =>
        let result ← replayInto s file capture limit?
        return (s, (result.map statsText).mapError .sink)

end RuleDesk.Console
