import RuleDesk.Files.Bytes
import RuleDesk.Files.Failure

/-!
# Tasks on files

A task is a computation that may ask for files to be opened, read and written.
It only names its requests; who answers them is left open, so one task runs on a
value that stands for a directory tree as well as on the machine's own files.
-/
namespace RuleDesk

/-- The number of an open file. -/
abbrev FileId := Nat

inductive OpenMode where
  /-- An existing file, from its start. -/
  | read
  /-- A new file, or an old one emptied. -/
  | create
  /-- An existing file; every write goes to its end. -/
  | append
deriving Repr, DecidableEq

inductive FileRequest where
  | openFile (path : String) (mode : OpenMode)
  /-- The next bytes, at most `count`; none at the end of the file. -/
  | read (file : FileId) (count : Nat)
  /-- All bytes up to the end of the file. -/
  | readToEnd (file : FileId)
  | write (file : FileId) (bytes : Bytes)
  /-- A number of bytes that the file does not go beyond now. -/
  | sizeBound (file : FileId)
deriving Repr, DecidableEq

def FileRequest.Answer : FileRequest → Type
  | openFile .. => Except IoFailure FileId
  | read .. => Except IoFailure Bytes
  | readToEnd .. => Except IoFailure Bytes
  | write .. => Except IoFailure Unit
  | sizeBound .. => Nat

inductive FileTask (α : Type) where
  | done (result : α)
  | ask (request : FileRequest) (next : request.Answer → FileTask α)

namespace FileTask

variable {α β : Type}

def bind : FileTask α → (α → FileTask β) → FileTask β
  | done a, f => f a
  | ask request next, f => ask request fun answer => (next answer).bind f

instance : Monad FileTask where
  pure := done
  bind := bind

/-- Runs a task in any setting that answers requests. -/
@[specialize]
def execute {m : Type → Type} [Monad m] (answer : (request : FileRequest) → m request.Answer) :
    FileTask α → m α
  | done a => pure a
  | ask request next => do
    let reply ← answer request
    (next reply).execute answer

@[simp] theorem pure_eq (a : α) : (pure a : FileTask α) = done a := rfl

@[simp] theorem bind_eq (t : FileTask α) (f : α → FileTask β) : t >>= f = t.bind f := rfl

@[simp] theorem done_bind (a : α) (f : α → FileTask β) : (done a).bind f = f a := rfl

theorem bind_assoc {γ : Type} (t : FileTask α) (f : α → FileTask β) (g : β → FileTask γ) :
    (t.bind f).bind g = t.bind fun a => (f a).bind g := by
  induction t with
  | done a => rfl
  | ask request next ih => exact congrArg (ask request) (funext ih)

def openFile (path : String) (mode : OpenMode) : FileTask (Except IoFailure FileId) :=
  ask (.openFile path mode) done

def read (file : FileId) (count : Nat) : FileTask (Except IoFailure Bytes) :=
  ask (.read file count) done

def readToEnd (file : FileId) : FileTask (Except IoFailure Bytes) :=
  ask (.readToEnd file) done

def write (file : FileId) (bytes : Bytes) : FileTask (Except IoFailure Unit) :=
  ask (.write file bytes) done

def sizeBound (file : FileId) : FileTask Nat :=
  ask (.sizeBound file) done

/-- The whole text of a file. -/
def readText (path : String) : FileTask (Except IoFailure String) := do
  match ← openFile path .read with
  | .error e => return .error e
  | .ok file =>
    match ← readToEnd file with
    | .error e => return .error e
    | .ok bytes =>
      match bytes.text? with
      | some text => return .ok text
      | none => return .error .notText

end FileTask
end RuleDesk
