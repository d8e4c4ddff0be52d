import RuleDesk.Files.Task

/-!
# Reading lines

A reader gives the lines of some bytes in memory, or of an open file that is read
in chunks when a line goes beyond what has been read.
-/
namespace RuleDesk

structure LineReader where
  /-- Bytes that have been read and not given out. -/
  waiting : Bytes := []
  /-- Where more bytes come from. -/
  source : Option FileId := none
deriving Repr, DecidableEq

namespace LineReader

/-- How many bytes are asked for at a time. -/
def chunk : Nat := 8192

/-- Gives up the bytes that are left as the last line. -/
def takeRest (r : LineReader) : LineReader × Option Bytes :=
  ({ r with waiting := [] }, if r.waiting.isEmpty then none else some r.waiting)

/-- The next line with its line feed, if there is one, from at most `chunks` more
chunks of the file. -/
def next (r : LineReader) : (chunks : Nat) → FileTask (LineReader × Except IoFailure (Option Bytes))
  | 0 =>
    match r.waiting.cutLine? with
    | some (line, rest) => .done ({ r with waiting := rest }, .ok (some line))
    | none => .done (r.takeRest.1, .ok r.takeRest.2)
  | chunks + 1 =>
    match r.waiting.cutLine?, r.source with
    | some (line, rest), _ => .done ({ r with waiting := rest }, .ok (some line))
    | none, none => .done (r.takeRest.1, .ok r.takeRest.2)
    | none, some file => do
      match ← FileTask.read file chunk with
      | .error e => return ({ r with waiting := [] }, .error e)
      | .ok bytes =>
        if bytes.isEmpty then return (r.takeRest.1, .ok r.takeRest.2)
        else next { r with waiting := r.waiting ++ bytes } chunks

end LineReader
end RuleDesk
