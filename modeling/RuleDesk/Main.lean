import RuleDesk.Program

/-!
# The program

The layer between runs and the machine: it opens, reads and writes the machine's
files for the tasks, hands over arguments and environment, reads the standard
input line by line and prints what runs show.
-/
namespace RuleDesk.Machine

/-- The open files, numbered in order of opening. -/
abbrev OpenFiles := IO.Ref (Array IO.FS.Handle)

def failureOf : IO.Error → IoFailure
  | .noFileOrDirectory _ code text | .interrupted _ code text => .ofCode code.toNat text
  | .alreadyExists _ code text | .invalidArgument _ code text | .permissionDenied _ code text
  | .resourceExhausted _ code text | .inappropriateType _ code text
  | .noSuchThing _ code text => .ofCode code.toNat text
  | .otherError code text | .resourceBusy code text | .resourceVanished code text
  | .unsupportedOperation code text | .hardwareFault code text
  | .unsatisfiedConstraints code text | .illegalOperation code text
  | .protocolError code text | .timeExpired code text => .ofCode code.toNat text
  | .unexpectedEof => .other "unexpected end of file"
  | .userError text => .other text

def attempt {α : Type} (action : IO α) : IO (Except IoFailure α) := do
  match ← action.toBaseIO with
  | .ok a => return .ok a
  | .error e => return .error (failureOf e)

/-- A file that is appended to must be there: reading it shows that. -/
def openHandle (path : String) : OpenMode → IO IO.FS.Handle
  | .read => IO.FS.Handle.mk path .read
  | .create => IO.FS.Handle.mk path .write
  | .append => do
    let _ ← IO.FS.Handle.mk path .read
    IO.FS.Handle.mk path .append

def openFile (files : OpenFiles) (path : String) (mode : OpenMode) :
    IO (Except IoFailure FileId) := do
  if path.toList.contains '\x00' then return .error .nulInPath
  attempt do
    let handle ← openHandle path mode
    files.modifyGet fun handles => (handles.size, handles.push handle)

def withHandle {α : Type} (files : OpenFiles) (file : FileId) (action : IO.FS.Handle → IO α) :
    IO (Except IoFailure α) := do
  match (← files.get)[file]? with
  | none => return .error .noSuchFile
  | some handle => attempt (action handle)

def answer (files : OpenFiles) : (request : FileRequest) → IO request.Answer
  | .openFile path mode => openFile files path mode
  | .read file count => withHandle files file fun h => do
    return (← h.read count.toUSize).toList
  | .readToEnd file => withHandle files file fun h => do
    return (← h.readBinToEnd).toList
  | .write file bytes => withHandle files file fun h => do
    h.write bytes.toByteArray
    h.flush
  | .sizeBound _ => return fileSizeLimit

/-- Runs a task on the machine's files. Those that it opens are closed after it. -/
def perform {α : Type} (task : FileTask α) : IO α := do
  let files : OpenFiles ← IO.mkRef #[]
  task.execute (answer files)

def put (text : String) : IO Unit := do
  let output ← IO.getStdout
  output.putStr text
  output.flush

def putError (text : String) : IO Unit := do
  let errors ← IO.getStderr
  errors.putStr text
  errors.flush

/-- Reads on to the next line feed; empty at the end of the input. -/
partial def readLine (input : IO.FS.Stream) (line : ByteArray) : IO ByteArray := do
  let byte ← input.read 1
  if byte.isEmpty then return line
  else
    let line := line ++ byte
    if byte.toList = [10] then return line else readLine input line

/-- Repeats a step up to its first result. -/
partial def iterate {α β : Type} (step : α → IO (α ⊕ β)) (a : α) : IO β := do
  match ← step a with
  | .inl a => iterate step a
  | .inr b => return b

/-- The standard streams and the machine's files. -/
def terminal : Terminal IO where
  put text := attempt (put text)
  complain := putError
  readLine := attempt do
    let line ← readLine (← IO.getStdin) .empty
    return if line.isEmpty then none else some line.toList
  perform := perform
  iterate := iterate

def present (result : Program.Result) : IO UInt32 := do
  put result.out
  putError result.errors
  return result.code.toUInt32

def colorHints : IO Program.ColorHints := do
  return {
    terminal := ← (← IO.getStdout).isTty
    force := ← IO.getEnv "CLICOLOR_FORCE"
    refuse := ← IO.getEnv "NO_COLOR"
    onTerminal := ← IO.getEnv "CLICOLOR" }

def runWith (options : Options) : IO UInt32 := do
  let colored := Program.isColored options.color (← colorHints)
  let workDir := (← IO.currentDir).toString
  let ending : Program.Ending ← match ← perform (Program.start options workDir) with
    | .error failure => pure { failure := some failure }
    | .ok (s, out) =>
      put out.text
      if options.isScripted then perform (Program.runScripted options colored s {})
      else
        let (s, result) ← s.interact terminal colored
        pure { failure := Program.failureOfConversation s result }
  present (ending.result colored)

def run (args : List String) : IO UInt32 := do
  match Options.parse args (← IO.getEnv Program.configVariable) with
  | .error e => present (Program.refusal e)
  | .ok options => runWith options

end RuleDesk.Machine

def main (args : List String) : IO UInt32 :=
  RuleDesk.Machine.run args
