import RuleDesk.Command.Error

/-!
# Trees of commands

A group holds commands and groups under distinct, nonempty names, in order of
insertion. Every group begins with a `help` command. The root of a tree is a
group with the empty name.
-/
namespace RuleDesk

/-- The effect of a command: from the bound arguments and the state to the new
state, and the text to show or a failure. -/
abbrev Handler (σ : Type) := Args → σ → FileTask (σ × Except CommandError String)

inductive Action (σ : Type) where
  /-- Shows the help of the group that the command stands in. -/
  | help
  | run (handler : Handler σ)

structure Command (σ : Type) where
  name : String
  description : String
  signature : Signature
  action : Action σ

inductive Node (σ : Type) where
  | command (command : Command σ)
  | group (name description : String) (children : List (Node σ))

structure Group (σ : Type) where
  name : String
  description : String
  children : List (Node σ)

/-- A node whose name is empty or taken in its group. -/
structure DuplicateChild where
  parent : String
  name : String
deriving Repr, DecidableEq

def DuplicateChild.message (e : DuplicateChild) : String :=
  s!"duplicate command '{e.name}' in '{e.parent}'"

variable {σ : Type}

def Node.name : Node σ → String
  | command c => c.name
  | group name _ _ => name

def Command.help : Command σ where
  name := "help"
  description := "Show available commands, -r expands every group"
  signature := ⟨[.optional "flag"], by decide⟩
  action := .help

namespace Group

/-- A group with nothing but its help. -/
def new (name description : String) : Group σ :=
  ⟨name, description, [.command .help]⟩

def root : Group σ :=
  new "" ""

def isRoot (g : Group σ) : Bool :=
  g.name.isEmpty

def toNode (g : Group σ) : Node σ :=
  .group g.name g.description g.children

def child? (g : Group σ) (name : String) : Option (Node σ) :=
  g.children.find? (·.name == name)

def add (g : Group σ) (node : Node σ) : Except DuplicateChild (Group σ) :=
  if node.name.isEmpty || (g.child? node.name).isSome then .error ⟨g.name, node.name⟩
  else .ok { g with children := g.children ++ [node] }

/-- Adds each node in turn and leaves out those whose name is empty or taken. -/
def addAll (g : Group σ) (nodes : List (Node σ)) : Group σ :=
  nodes.foldl (fun g node => match g.add node with
    | .ok g => g
    | .error _ => g) g

end Group

/-- A name behind the path of its group, one space apart. -/
def qualify (path name : String) : String :=
  if path.isEmpty then name
  else if name.isEmpty then path
  else path ++ " " ++ name

end RuleDesk
