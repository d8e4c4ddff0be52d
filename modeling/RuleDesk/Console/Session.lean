import RuleDesk.Command.Error
import RuleDesk.Config
import RuleDesk.Filter.Expression
import RuleDesk.Rule.Book

/-!
# Sessions

The state that the commands of the console work on, and the operations on it. An
operation changes the session in place, step by step: whether it gives a result
or fails, it leaves behind what its steps up to there have made of the session.
-/
namespace RuleDesk

/-- The argument of `rules delete` that stands for every rule. -/
def everyRule : String := "*"

/-- The argument of `rules view` that announces an id. -/
def idFlag : String := "-i"

structure Session (σ : Type) where
  config : Config
  store : σ
  rules : Rulebook
  handles : Handles := {}
  running : Bool := true
  /-- What broke the program down, if anything did. -/
  fault : Option Fault := none
  /-- The directory in which relative paths start. -/
  workDir : String := ""
deriving Repr, DecidableEq

/-- An operation on a session. -/
abbrev Operation (σ : Type) : Type → Type := EStateM CommandError (Session σ)

/-- What only looks something up is an operation without a change. -/
instance (σ : Type) : MonadLift (Except CommandError) (Operation σ) where
  monadLift found := fun s =>
    match found with
    | .ok a => .ok a s
    | .error e => .error e s

namespace Session

variable {σ : Type}

def new (config : Config) (store : σ) (workDir : String) : Session σ :=
  { config, store, workDir, rules := { stem := config.ruleNameStem } }

def stop (s : Session σ) : Session σ :=
  { s with running := false }

/-- The session where the program has broken down: nothing runs behind it. -/
def abort (s : Session σ) (fault : Fault) : Session σ :=
  { s with running := false, fault := some fault }

/-- The id of the rule of a name. -/
def ruleId (s : Session σ) (name : String) : Except CommandError RuleId :=
  match s.rules.byName? name with
  | none => .error (.notFound
      s!"Couldn't find rule '{name}'. Use 'rules list' to see current rules")
  | some rule =>
    match rule.id with
    | some id => .ok id
    | none => .error (.invalid s!"Rule '{name}' has no id yet, run 'rules sync'")

/-- The ids of named rules, in the order of the names. -/
def ruleIds (s : Session σ) : List String → Except CommandError (List RuleId)
  | [] => .ok []
  | name :: rest => do
    let id ← s.ruleId name
    let ids ← s.ruleIds rest
    return id :: ids

/-- The name of the rule of an id; an id without a rule is shown between braces. -/
def ruleName (s : Session σ) (id : RuleId) : String :=
  match s.rules.byId? id with
  | some rule => rule.name
  | none => "\x7b" ++ id ++ "\x7d"

def ruleNames (s : Session σ) (ids : List RuleId) : List String :=
  ids.map s.ruleName

/-- The rule of a name that is to be deleted. -/
def namedRule (s : Session σ) (name : String) : Except CommandError Rule :=
  match s.rules.byName? name with
  | some rule => .ok rule
  | none => .error (.notFound s!"Rule '{name}' doesn't exist")

/-- Two names are kept for arguments. -/
def checkName (name? : Option String) : Except CommandError Unit :=
  match name?.filter fun name => name = everyRule || name = idFlag with
  | some name => .error (.invalid s!"'{name}' is reserved and can't be used as a rule name")
  | none => .ok ()

/-- Changes the handles. -/
def withHandles {α : Type} (change : Handles → Handles × α) : Operation σ α :=
  modifyGet fun s => ((change s.handles).2, { s with handles := (change s.handles).1 })

/-- Puts a rule into the rulebook. -/
def insertRule (name? : Option String) (id : RuleId) (expression tag : String) : Operation σ Rule :=
  modifyGet fun s =>
    let (rule, rules) := s.rules.insert name? (some id) expression tag
    (rule, { s with rules })

/-- Takes the rule of a name out of the rulebook. -/
def removeRule (name : String) : Operation σ Rule := fun s =>
  match s.rules.removeByName? name with
  | some (rule, rules) => .ok rule { s with rules }
  | none => .error (.notFound s!"Rule '{name}' doesn't exist") s

variable [RuleStore σ]

/-- Hands a rule to the store. Where the store breaks down, the session does. -/
def storeRule (expression tag : String) : Operation σ RuleId := fun s =>
  match RuleStore.add s.store expression tag with
  | .error fault => .error (.fault fault) (s.abort fault)
  | .ok (.error cause store) => .error (.store cause) { s with store }
  | .ok (.ok id store) => .ok id { s with store }

/-- Deletes a rule from the store. A rule that is gone from there already is no failure. -/
def unstoreRule (id : RuleId) : Operation σ Unit := fun s =>
  match RuleStore.delete s.store id with
  | .ok () store => .ok () { s with store }
  | .error (.unknownRule _) store => .ok () { s with store }
  | .error cause store => .error (.store cause) { s with store }

/-- Deletes every rule from the store. -/
def clearStore : Operation σ Unit := fun s =>
  match RuleStore.deleteAll s.store with
  | .ok () store => .ok () { s with store }
  | .error cause store => .error (.store cause) { s with store }

/-- Takes the store's listing over into the rulebook. -/
def sync : Operation σ SyncReport := do
  let listing ← (RuleStore.list (← get).store).mapError CommandError.store
  modifyGet fun s =>
    let (rules, report) := s.rules.merge listing
    (report, { s with rules })

/-- Compiles a rule, hands it to the store and puts it into the rulebook. -/
def addRule (name? : Option String) (text : String) (tag? : Option String) : Operation σ Rule := do
  checkName name?
  let expression ← (compile text).mapError CommandError.filter
  let tag := tag?.getD (← get).config.defaultTag
  let id ← storeRule expression tag
  insertRule name? id expression tag

/-- Deletes a rule's id from the store and then from the handles. -/
def forgetId (id? : Option RuleId) : Operation σ Unit :=
  match id? with
  | none => pure ()
  | some id => do
    unstoreRule id
    withHandles fun handles => (handles.forgetRule id, ())

/-- Deletes a rule from the store, the handles and the rulebook. -/
def deleteRule (name : String) : Operation σ Rule := do
  let rule ← (← get).namedRule name
  forgetId rule.id
  removeRule name

/-- Deletes every rule; the result is the number of rules in the rulebook. -/
def deleteAllRules : Operation σ Nat := do
  clearStore
  let count := (← get).rules.rules.length
  modify fun s => { s with rules := s.rules.clear }
  withHandles fun handles => (handles.forgetAllRules, ())
  return count

end Session
end RuleDesk
