import RuleDesk.Text.Width

/-!
# Tables

A table has a header and rows of cells. Each column is as wide as the widest line
of its cells, with one space on either side. A line feed in a cell starts another
line of its row.
-/
namespace RuleDesk.Display

/-- The lines of a cell. -/
def cellLines (cell : String) : List String :=
  (cell.toList.splitOn '\n').map String.ofList

structure Table where
  header : List String
  rows : List (List String)
deriving Repr

namespace Table

/-- The widest line of each column. -/
def columnWidths (t : Table) : List Nat :=
  t.rows.foldl (fun widths row => List.zipWith max widths (row.map cellWidth))
    (t.header.map cellWidth)
where
  cellWidth (cell : String) : Nat :=
    ((cellLines cell).map width).foldl max 0

def blanks (n : Nat) : String :=
  String.ofList (List.replicate n ' ')

/-- One line of a cell, filled up to the width of its column. -/
def padded (columns : Nat) (line : String) : String :=
  " " ++ line ++ blanks (columns - width line) ++ " "

/-- A horizontal line of the frame. -/
def rule (widths : List Nat) (left fill cross right : Char) : String :=
  let pieces := widths.map fun n => String.ofList (List.replicate (n + 2) fill)
  String.singleton left ++ (String.singleton cross).intercalate pieces ++ String.singleton right

/-- The lines of a row; short cells are filled up with blank lines. -/
def rowLines (widths : List Nat) (row : List String) : List String :=
  let cells := row.map cellLines
  let height := (cells.map List.length).foldl max 0
  (List.range height).map fun n =>
    let pieces := List.zipWith (fun columns lines => padded columns (lines.getD n "")) widths cells
    "│" ++ "┆".intercalate pieces ++ "│"

def lines (t : Table) : List String :=
  let widths := t.columnWidths
  rule widths '┌' '─' '┬' '┐' :: rowLines widths t.header ++
    rule widths '╞' '═' '╪' '╡' :: t.rows.flatMap (rowLines widths) ++
    [rule widths '└' '─' '┴' '┘']

/-- The text of a table, without a line feed at the end. -/
def text (t : Table) : String :=
  "\n".intercalate t.lines

end Table
end RuleDesk.Display
