import RuleDesk.Files.Task

/-!
# Writing through a buffer

Bytes wait in a buffer until it would overflow or is flushed. A piece as large as
the buffer goes to the file at once, behind what waits. A failed flush keeps the
bytes.
-/
namespace RuleDesk

structure BufferedWriter where
  file : FileId
  /-- Bytes that have not reached the file. -/
  pending : Bytes := []
deriving Repr, DecidableEq

namespace BufferedWriter

/-- How many bytes may wait. -/
def capacity : Nat := 8192

/-- Sends the waiting bytes to the file. -/
def flush (w : BufferedWriter) : FileTask (BufferedWriter × Except IoFailure Unit) :=
  if w.pending.isEmpty then .done (w, .ok ())
  else do
    match ← FileTask.write w.file w.pending with
    | .ok () => return ({ w with pending := [] }, .ok ())
    | .error e => return (w, .error e)

/-- Takes a piece for which there is room, or that is too large for any buffer. -/
def place (w : BufferedWriter) (bytes : Bytes) :
    FileTask (BufferedWriter × Except IoFailure Unit) :=
  if bytes.length < capacity then .done ({ w with pending := w.pending ++ bytes }, .ok ())
  else do
    let result ← FileTask.write w.file bytes
    return (w, result)

def write (w : BufferedWriter) (bytes : Bytes) :
    FileTask (BufferedWriter × Except IoFailure Unit) :=
  if w.pending.length + bytes.length ≤ capacity then w.place bytes
  else do
    match ← w.flush with
    | (w, .ok ()) => w.place bytes
    | (w, .error e) => return (w, .error e)

/-- Gives the writer up: bytes that a flush could not send get one more try. -/
def release (w : BufferedWriter) : FileTask (Except IoFailure Unit) := do
  match ← w.flush with
  | (_, .ok ()) => return .ok ()
  | (w, .error e) =>
    let _ ← w.flush
    return .error e

end BufferedWriter
end RuleDesk
