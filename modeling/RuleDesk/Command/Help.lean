import RuleDesk.Command.Tree

/-!
# Help texts

Help lists the nodes of a group in order, each on a line of its own with its
qualified name, one tab deeper than its group.
-/
namespace RuleDesk

/-- How much of a tree help shows. -/
inductive HelpMode where
  /-- The immediate children only. -/
  | simple
  /-- Every node below the group. -/
  | recursive
deriving Repr, DecidableEq

namespace Help

variable {σ : Type}

/-- The usage line of a command whose group has the given path. -/
def commandLine (path : String) (c : Command σ) : String :=
  let name := qualify path c.name
  let usage := c.signature.usage
  if usage.isEmpty then s!"{name} : {c.description}" else s!"{name} {usage} : {c.description}"

/-- The summary line of a group with a qualified name. -/
def groupLine (name description : String) : String :=
  s!"{name} ... : {description}"

/-- A line of help at some depth. -/
def line (depth : Nat) (text : String) : String :=
  String.ofList (List.replicate depth '\t') ++ text ++ "\n"

mutual

def nodeLines (mode : HelpMode) (path : String) (depth : Nat) : Node σ → List String
  | .command c => [line depth (commandLine path c)]
  | .group name description children =>
    line depth (groupLine (qualify path name) description) ::
      match mode with
      | .simple => []
      | .recursive => childLines mode (qualify path name) (depth + 1) children

def childLines (mode : HelpMode) (path : String) (depth : Nat) : List (Node σ) → List String
  | [] => []
  | node :: rest => nodeLines mode path depth node ++ childLines mode path depth rest

end

/-- The help of a group with the given path. -/
def render (g : Group σ) (path : String) (mode : HelpMode) : String :=
  if g.isRoot then
    "Here are your commands:\n" ++ String.join (childLines mode path 1 g.children)
  else
    s!"Here are your commands for {path}:\n" ++ line 1 (groupLine path g.description) ++
      String.join (childLines mode path 2 g.children)

end Help
end RuleDesk
