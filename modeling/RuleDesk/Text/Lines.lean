/-!
# Lines of a text

A line ends at a line feed; a carriage return before it belongs to the line end.
The text behind the last line feed is a line unless it is empty.
-/
namespace RuleDesk.Text

/-- A line without the carriage return at its end. -/
def dropReturn (line : List Char) : List Char :=
  if line.getLast? = some '\r' then line.dropLast else line

/-- Lines from the pieces between line feeds. -/
def linesOfPieces : List (List Char) → List String
  | [] => []
  | [last] => if last.isEmpty then [] else [String.ofList last]
  | piece :: rest => String.ofList (dropReturn piece) :: linesOfPieces rest

def lines (s : String) : List String :=
  linesOfPieces (s.toList.splitOn '\n')

end RuleDesk.Text
