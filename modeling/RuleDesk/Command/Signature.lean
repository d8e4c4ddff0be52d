/-!
# Parameters of a command

A signature is a list of parameters with distinct names in which only the last
may be variadic. Binding maps the words of a line onto them from left to right.
-/
namespace RuleDesk

inductive Parameter.Kind where
  /-- One word must be given. -/
  | required
  /-- One word may be given; `fallback?` stands in for it. -/
  | optional (fallback? : Option String)
  /-- Takes every word that is left, possibly none. -/
  | variadic
deriving Repr, DecidableEq

structure Parameter where
  name : String
  kind : Parameter.Kind
deriving Repr, DecidableEq

namespace Parameter

def required (name : String) : Parameter := ⟨name, .required⟩

def optional (name : String) : Parameter := ⟨name, .optional none⟩

def variadic (name : String) : Parameter := ⟨name, .variadic⟩

def usage (p : Parameter) : String :=
  match p.kind with
  | .required => s!"<{p.name}>"
  | .optional _ => s!"[opt: {p.name}]"
  | .variadic => s!"[opt: {p.name}...]"

end Parameter

/-- Why a parameter list is no signature. -/
inductive SignatureFault where
  | declaredTwice (name : String)
  | variadicNotLast (name : String)
deriving Repr, DecidableEq

def SignatureFault.message : SignatureFault → String
  | declaredTwice name => s!"parameter '{name}' declared twice"
  | variadicNotLast name => s!"variadic parameter '{name}' must be last"

/-- The first fault of a parameter list that follows parameters with the names
`earlier`. -/
def Parameter.fault? (earlier : List String) : List Parameter → Option SignatureFault
  | [] => none
  | p :: rest =>
    if earlier.contains p.name then some (.declaredTwice p.name)
    else if p.kind = .variadic && !rest.isEmpty then some (.variadicNotLast p.name)
    else fault? (p.name :: earlier) rest

structure Signature where
  params : List Parameter
  sound : Parameter.fault? [] params = none

namespace Signature

def ofParams (params : List Parameter) : Except SignatureFault Signature :=
  match h : Parameter.fault? [] params with
  | some fault => .error fault
  | none => .ok ⟨params, h⟩

/-- The usage of each parameter, one space apart. -/
def usage (s : Signature) : String :=
  " ".intercalate (s.params.map Parameter.usage)

end Signature

/-- What a parameter is bound to. -/
inductive BoundValue where
  | one (word : String)
  | absent
  | many (words : List String)
deriving Repr, DecidableEq

/-- Why words do not fit a signature. -/
inductive BindingFailure where
  | missingArgument (name : String)
  | unexpectedArgument (word : String)
deriving Repr, DecidableEq

def BindingFailure.message : BindingFailure → String
  | missingArgument name => s!"missing required argument '{name}'"
  | unexpectedArgument word => s!"unexpected argument '{word}'"

/-- Values by parameter name, in the order of the parameters. -/
structure Args where
  values : List (String × BoundValue)
deriving Repr, DecidableEq

namespace Parameter

/-- Binds parameters to words from left to right; every word must be taken. -/
def bindAll : List Parameter → List String → Except BindingFailure (List (String × BoundValue))
  | [], [] => .ok []
  | [], word :: _ => .error (.unexpectedArgument word)
  | p :: rest, words =>
    match p.kind, words with
    | .required, [] => .error (.missingArgument p.name)
    | .required, word :: words => ((p.name, .one word) :: ·) <$> bindAll rest words
    | .optional none, [] => ((p.name, .absent) :: ·) <$> bindAll rest []
    | .optional (some word), [] => ((p.name, .one word) :: ·) <$> bindAll rest []
    | .optional _, word :: words => ((p.name, .one word) :: ·) <$> bindAll rest words
    | .variadic, words => ((p.name, .many words) :: ·) <$> bindAll rest []

end Parameter

def Signature.bind (s : Signature) (words : List String) : Except BindingFailure Args :=
  Args.mk <$> Parameter.bindAll s.params words

namespace Args

def lookup? (args : Args) (name : String) : Option BoundValue :=
  args.values.lookup name

/-- The single word bound to a name. -/
def get? (args : Args) (name : String) : Option String :=
  match args.lookup? name with
  | some (.one word) => some word
  | _ => none

/-- The words that a variadic parameter took. -/
def list (args : Args) (name : String) : List String :=
  match args.lookup? name with
  | some (.many words) => words
  | _ => []

end Args
end RuleDesk
