import RuleDesk.Capture.Sink
import RuleDesk.Files.BufferedWriter
import RuleDesk.Files.Path

/-!
# Records in files

A file sink writes the records of each handle to the handle's file, one on a
line. A file is made or emptied when its first record comes. Handles whose paths
have the same key share one writer, and a file that is opened again after it was
closed is appended to.
-/
namespace RuleDesk

structure FileSink where
  /-- The directory in which relative paths start. -/
  workDir : String := ""
  /-- The file of each handle. -/
  targets : List (HandleId × String) := []
  /-- The open writers by path. -/
  writers : List (String × BufferedWriter) := []
  /-- The paths of the files made so far. -/
  created : List String := []
deriving Repr, DecidableEq

namespace FileSink

/-- Whether two paths share a writer. -/
def sameFile (a b : String) : Bool :=
  Path.key a = Path.key b

def target? (s : FileSink) (handle : HandleId) : Option String :=
  s.targets.lookup handle

/-- Points a handle at a file, in its absolute form where there is one. -/
def register (s : FileSink) (handle : HandleId) (path : String) : FileSink :=
  let target := (Path.absolute? s.workDir path).getD path
  { s with targets := (handle, target) :: s.targets.filter (·.1 != handle) }

/-- A sink for the files of some handles. -/
def ofHandles (workDir : String) (handles : Handles) : FileSink :=
  handles.list.foldl (fun s h => s.register h.id h.file) { workDir }

def writer? (s : FileSink) (path : String) : Option (String × BufferedWriter) :=
  s.writers.find? fun w => sameFile w.1 path

/-- Takes a writer out of the open ones. -/
def removeWriter (s : FileSink) (path : String) : FileSink :=
  { s with writers := s.writers.filter fun w => !sameFile w.1 path }

def putWriter (s : FileSink) (path : String) (writer : BufferedWriter) : FileSink :=
  { s with writers := s.writers.map fun w => if sameFile w.1 path then (w.1, writer) else w }

/-- The writer of a path, opened if need be. -/
def openWriter (s : FileSink) (path : String) :
    FileTask (FileSink × Except SinkError BufferedWriter) :=
  match s.writer? path with
  | some (_, writer) => .done (s, .ok writer)
  | none => do
    let mode := if s.created.any (sameFile · path) then .append else .create
    match ← FileTask.openFile path mode with
    | .error cause => return (s, .error (.write path cause))
    | .ok file =>
      let writer : BufferedWriter := { file }
      return ({ s with
        writers := s.writers ++ [(path, writer)]
        created := if s.created.any (sameFile · path) then s.created else s.created ++ [path] },
        .ok writer)

/-- Writes a record and the line feed behind it. -/
def writeLine (writer : BufferedWriter) (record : String) :
    FileTask (BufferedWriter × Except IoFailure Unit) := do
  match ← writer.write (.ofText record) with
  | (writer, .ok ()) => writer.write (.ofText "\n")
  | (writer, .error cause) => return (writer, .error cause)

def write (s : FileSink) (handle : HandleId) (record : String) :
    FileTask (FileSink × Except SinkError Unit) :=
  match s.target? handle with
  | none => .done (s, .error (.unknownSink handle))
  | some path => do
    match ← s.openWriter path with
    | (s, .error e) => return (s, .error e)
    | (s, .ok writer) =>
      let (writer, result) ← writeLine writer record
      return (s.putWriter path writer, result.mapError (.write path))

instance : RecordSink FileSink where
  write := write

/-- Closes the writer of a path, if it is open. -/
def closePath (s : FileSink) (path : String) : FileTask (FileSink × Except SinkError Unit) :=
  match s.writer? path with
  | none => .done (s, .ok ())
  | some (_, writer) => do
    let result ← writer.release
    return (s.removeWriter path, result.mapError (.write path))

/-- Closes the file of a handle; a file that is not open stays as it is. -/
def close (s : FileSink) (handle : HandleId) : FileTask (FileSink × Except SinkError Unit) :=
  match s.target? handle with
  | none => .done (s, .ok ())
  | some path => s.closePath path

/-- Closes paths in turn until one of them fails. -/
def closePaths (s : FileSink) : List String → FileTask (FileSink × Except SinkError Unit)
  | [] => .done (s, .ok ())
  | path :: rest => do
    match ← s.closePath path with
    | (s, .ok ()) => s.closePaths rest
    | (s, .error e) => return (s, .error e)

/-- Closes every file in the order of paths. A failure leaves the files behind it
open. -/
def closeAll (s : FileSink) : FileTask (FileSink × Except SinkError Unit) :=
  s.closePaths ((s.writers.map Prod.fst).mergeSort Path.le)

/-- Closes paths in turn, whatever fails. -/
def dropPaths (s : FileSink) : List String → FileTask FileSink
  | [] => .done s
  | path :: rest => do
    let (s, _) ← s.closePath path
    s.dropPaths rest

/-- Gives the sink up: every file is closed, whatever fails. -/
def drop (s : FileSink) : FileTask Unit := do
  let _ ← s.dropPaths ((s.writers.map Prod.fst).mergeSort Path.le)
  return ()

end FileSink
end RuleDesk
