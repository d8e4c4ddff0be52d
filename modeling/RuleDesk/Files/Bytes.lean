/-!
# Bytes of files

File contents are lists of bytes; texts are written to them in UTF-8.
-/
namespace RuleDesk

abbrev Bytes := List UInt8

namespace Bytes

/-- The UTF-8 encoding of a text. -/
def ofText (s : String) : Bytes :=
  s.toList.flatMap String.utf8EncodeChar

/-- The text that the bytes encode, if they are UTF-8. -/
def text? (b : Bytes) : Option String :=
  String.fromUTF8? b.toByteArray

/-- Splits after the first line feed, if there is one. -/
def cutLine? (b : Bytes) : Option (Bytes × Bytes) :=
  match b.span (· != 10) with
  | (line, lineFeed :: rest) => some (line ++ [lineFeed], rest)
  | (_, []) => none

/-- The lines from the middle of one, whose bytes come last first. -/
def linesFrom (line : Bytes) : Bytes → List Bytes
  | [] => if line.isEmpty then [] else [line.reverse]
  | b :: rest =>
    if b = 10 then (b :: line).reverse :: linesFrom [] rest else linesFrom (b :: line) rest

/-- The lines, each with its line feed; the last one may lack it. -/
def toLines (b : Bytes) : List Bytes :=
  linesFrom [] b

end Bytes
end RuleDesk
