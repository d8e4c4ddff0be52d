import RuleDesk.Files.Path
import RuleDesk.Files.Task

/-!
# A space of files

A value that answers the requests of file tasks: directories, regular files with
their bytes, devices that are always full, and the open files, each with its own
position. There are no links, so a file is known by the names that lead to it.

Opening follows each segment of a path through existing directories. `..` goes
to the parent. A file written at a position keeps the bytes around it; a file
opened to append is always written at its end.
-/
namespace RuleDesk

/-- The names that lead from the root to a place. -/
abbrev Location := List String

inductive FileEntry where
  | directory
  | regular (content : Bytes)
  /-- A device that takes no byte and gives zeros without end. -/
  | fullDevice
deriving Repr, DecidableEq

structure OpenedFile where
  location : Location
  position : Nat := 0
  appending : Bool := false
deriving Repr, DecidableEq

structure FileSpace where
  /-- Where relative paths start. -/
  workDir : Location := []
  entries : List (Location × FileEntry) := []
  /-- The file numbered `n` is the one at place `n`. -/
  opened : List OpenedFile := []
deriving Repr, DecidableEq

/-- Where a path leads. -/
inductive Found where
  | present (location : Location) (entry : FileEntry)
  /-- Nothing is there, but a file could be made. -/
  | absent (location : Location)
deriving Repr, DecidableEq

namespace FileSpace

/-- The longest name of a file and the longest path, in bytes. -/
def nameLimit : Nat := 255
def pathLimit : Nat := 4095

/-- The entry at a place; the root is always a directory. -/
def entry? (fs : FileSpace) (location : Location) : Option FileEntry :=
  if location.isEmpty then some .directory else fs.entries.lookup location

def setEntry (fs : FileSpace) (location : Location) (entry : FileEntry) : FileSpace :=
  { fs with entries :=
      if (fs.entries.lookup location).isSome then
        fs.entries.map fun e => if e.1 = location then (location, entry) else e
      else fs.entries ++ [(location, entry)] }

/-- Follows segments from a place. -/
def follow (fs : FileSpace) (place : Location) : List String → Except IoFailure Found
  | [] =>
    match fs.entry? place with
    | some entry => .ok (.present place entry)
    | none => .ok (.absent place)
  | segment :: rest =>
    match fs.entry? place with
    | none => .error .noSuchFile
    | some .directory =>
      if segment = "." then fs.follow place rest
      else if segment = ".." then fs.follow place.dropLast rest
      else if nameLimit < segment.utf8ByteSize then .error .nameTooLong
      else fs.follow (place ++ [segment]) rest
    | some _ => .error .notDirectory

def start (fs : FileSpace) (path : String) : Location :=
  if Path.isRooted path then [] else fs.workDir

/-- The failure for a path that is not even looked up. -/
def refusal? (path : String) : Option IoFailure :=
  if path.toList.contains '\x00' then some .nulInPath
  else if path.isEmpty then some .noSuchFile
  else if pathLimit < path.utf8ByteSize then some .nameTooLong
  else none

/-- Follows some segments of a path, from where the path starts. -/
def followFrom (fs : FileSpace) (path : String) (segments : List String) : Except IoFailure Found :=
  match refusal? path with
  | some failure => .error failure
  | none => fs.follow (fs.start path) segments

/-- Finds what a path leads to. -/
def find (fs : FileSpace) (path : String) : Except IoFailure Found :=
  fs.followFrom path (Path.segments path)

/-- A slash at the end asks for a directory. -/
def findExisting (fs : FileSpace) (path : String) : Except IoFailure (Location × FileEntry) := do
  match ← fs.find path with
  | .absent _ => .error .noSuchFile
  | .present location .directory => .ok (location, .directory)
  | .present location entry =>
    if Path.endsWithSlash path then .error .notDirectory else .ok (location, entry)

/-- No file is made or emptied at a path that ends with a slash. The name before
the slash is not looked up, so its length does not matter. -/
def findForCreation (fs : FileSpace) (path : String) : Except IoFailure Found := do
  let name := (Path.segments path).getLast?.getD "."
  if Path.endsWithSlash path && name != "." && name != ".." then
    match ← fs.followFrom path (Path.segments path).dropLast with
    | .present _ .directory => .error .isDirectory
    | .present _ _ => .error .notDirectory
    | .absent _ => .error .noSuchFile
  else
    match ← fs.find path with
    | .present _ .directory => .error .isDirectory
    | found => .ok found

/-- Puts a file into the table of open files. -/
def register (fs : FileSpace) (file : OpenedFile) : FileId × FileSpace :=
  (fs.opened.length, { fs with opened := fs.opened ++ [file] })

def openFile (fs : FileSpace) (path : String) : OpenMode → Except IoFailure (FileId × FileSpace)
  | .read => do
    let (location, _) ← fs.findExisting path
    return fs.register { location }
  | .create => do
    match ← fs.findForCreation path with
    | .present location .fullDevice => return fs.register { location }
    | .present location _ | .absent location =>
      return (fs.setEntry location (.regular [])).register { location }
  | .append => do
    match ← fs.findExisting path with
    | (_, .directory) => .error .isDirectory
    | (location, _) => return fs.register { location, appending := true }

/-- The bytes with others laid over them from a position on; a gap is filled with
zeros. -/
def overlay (content bytes : Bytes) (position : Nat) : Bytes :=
  content.take position ++ List.replicate (position - content.length) 0 ++ bytes ++
    content.drop (position + bytes.length)

def setPosition (fs : FileSpace) (file : FileId) (position : Nat) : FileSpace :=
  { fs with opened := fs.opened.modify file fun f => { f with position } }

/-- The next bytes of an open file, at most `count?` of them if a count is given. -/
def read (fs : FileSpace) (file : FileId) (count? : Option Nat) :
    Except IoFailure Bytes × FileSpace :=
  match fs.opened[file]? with
  | none => (.error .noSuchFile, fs)
  | some f =>
    match fs.entry? f.location with
    | none => (.error .noSuchFile, fs)
    | some .directory => (.error .isDirectory, fs)
    | some .fullDevice => (.ok (List.replicate (count?.getD 0) 0), fs)
    | some (.regular content) =>
      let left := content.drop f.position
      let bytes := match count? with
        | some count => left.take count
        | none => left
      (.ok bytes, fs.setPosition file (f.position + bytes.length))

def write (fs : FileSpace) (file : FileId) (bytes : Bytes) : Except IoFailure Unit × FileSpace :=
  match fs.opened[file]? with
  | none => (.error .noSuchFile, fs)
  | some f =>
    match fs.entry? f.location with
    | none => (.error .noSuchFile, fs)
    | some .directory => (.error .isDirectory, fs)
    | some .fullDevice => (if bytes.isEmpty then .ok () else .error .deviceFull, fs)
    | some (.regular content) =>
      let position := if f.appending then content.length else f.position
      let fs := fs.setEntry f.location (.regular (overlay content bytes position))
      (.ok (), fs.setPosition file (position + bytes.length))

/-- How many bytes an open file holds; a device holds none. -/
def size (fs : FileSpace) (file : FileId) : Nat :=
  match fs.opened[file]?.bind fun f => fs.entry? f.location with
  | some (.regular content) => content.length
  | _ => 0

def answer (fs : FileSpace) : (request : FileRequest) → request.Answer × FileSpace
  | .openFile path mode =>
    match fs.openFile path mode with
    | .ok (file, fs) => (.ok file, fs)
    | .error e => (.error e, fs)
  | .read file count => fs.read file (some count)
  | .readToEnd file => fs.read file none
  | .write file bytes => fs.write file bytes
  | .sizeBound file => (fs.size file, fs)

end FileSpace

/-- Runs a task on a space of files. -/
def FileTask.run {α : Type} : FileTask α → FileSpace → α × FileSpace
  | done a, fs => (a, fs)
  | ask request next, fs =>
    let (reply, fs) := fs.answer request
    (next reply).run fs

end RuleDesk
