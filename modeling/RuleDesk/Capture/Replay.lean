import RuleDesk.Capture.Record
import RuleDesk.Capture.Routing
import RuleDesk.Files.LineReader
import RuleDesk.Text.Blank

/-!
# Replaying a capture

Each line of a capture is read as a record and the record's data is written to
the handles of its matched rules. Blank lines are passed over, and lines that
are no records are counted as skipped. With a limit, the replay ends once that
many records have been written.
-/
namespace RuleDesk

structure ReplayStats where
  records : Nat := 0
  writes : Nat := 0
  skipped : Nat := 0
deriving Repr, DecidableEq

namespace Replay

variable {ρ : Type} [RecordSink ρ]

/-- The text of a line: the line feed goes, and one carriage return before it. -/
def lineText? (line : Bytes) : Option String :=
  let body :=
    if line.getLast? = some 10 then
      let body := line.dropLast
      if body.getLast? = some 13 then body.dropLast else body
    else line
  Bytes.text? body

/-- Whether a limit has been reached. -/
def reached (limit? : Option Nat) (stats : ReplayStats) : Bool :=
  match limit? with
  | some limit => limit ≤ stats.records
  | none => false

/-- Handles the text of one line. -/
def takeLine (table : RoutingTable) (sink : ρ) (stats : ReplayStats) (line : String) :
    FileTask (ρ × Except SinkError ReplayStats) :=
  if Text.isBlankText line then .done (sink, .ok stats)
  else
    match CaptureRecord.parse? line with
    | none => .done (sink, .ok { stats with skipped := stats.skipped + 1 })
    | some record => do
      let (sink, result) ← table.route sink record.data.text record.matched
      return (sink, result.map fun writes =>
        { stats with records := stats.records + 1, writes := stats.writes + writes })

/-- Handles the lines of a reader, at most `lines` of them. -/
def readLines (source : String) (table : RoutingTable) (limit? : Option Nat) (chunks : Nat)
    (reader : LineReader) (sink : ρ) (stats : ReplayStats) :
    (lines : Nat) → FileTask (ρ × Except SinkError ReplayStats)
  | 0 => .done (sink, .ok stats)
  | count + 1 => do
    match ← reader.next chunks with
    | (_, .ok none) => return (sink, .ok stats)
    | (reader, line) =>
      if reached limit? stats then return (sink, .ok stats)
      else
        match line with
        | .error cause => return (sink, .error (.capture source cause))
        | .ok none => return (sink, .ok stats)
        | .ok (some line) =>
          match lineText? line with
          | none => return (sink, .error (.capture source .notText))
          | some text =>
            match ← takeLine table sink stats text with
            | (sink, .ok stats) => readLines source table limit? chunks reader sink stats count
            | (sink, .error e) => return (sink, .error e)

end Replay

variable {ρ : Type} [RecordSink ρ]

/-- Replays the capture that some bytes hold. -/
def replayBytes (capture : Bytes) (source : String) (table : RoutingTable) (sink : ρ)
    (limit? : Option Nat) : FileTask (ρ × Except SinkError ReplayStats) :=
  Replay.readLines source table limit? 0 { waiting := capture } sink {} (capture.length + 1)

/-- How many bytes a file can grow to. -/
def fileSizeLimit : Nat := 0x8000000000000000

/-- Replays the capture in an open file. The file may grow meanwhile, so the number
of lines is bounded by what it holds now and by what a file can grow to. -/
def replayFile (file : FileId) (source : String) (table : RoutingTable) (sink : ρ)
    (limit? : Option Nat) : FileTask (ρ × Except SinkError ReplayStats) := do
  let bound := (← FileTask.sizeBound file) + fileSizeLimit
  Replay.readLines source table limit? bound { source := some file } sink {} bound

end RuleDesk
