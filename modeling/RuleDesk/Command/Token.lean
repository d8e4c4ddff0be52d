import RuleDesk.Text.Blank

/-!
# Words of a line

A line is cut at blank characters. A quote character opens a span that only the
same character closes; the quotes are dropped and blanks inside do not cut. A
backslash, inside or outside a span, is dropped and makes the next character
literal. A span left open runs to the end of the line, and a word without
characters is no word.
-/
namespace RuleDesk
namespace Token

/-- Puts the word read so far, whose characters come last first, before `later`
unless it is empty. -/
def emit (word : List Char) (later : List String) : List String :=
  if word.isEmpty then later else String.ofList word.reverse :: later

/-- Reads on from the middle of a word, inside the span opened by `span?`. -/
def scan (span? : Option Char) (word : List Char) : List Char → List String
  | [] => emit word []
  | ['\\'] => emit word []
  | '\\' :: c :: rest => scan span? (c :: word) rest
  | c :: rest =>
    if isQuote c then
      match span? with
      | none => scan (some c) word rest
      | some q => if q = c then scan none word rest else scan (some q) (c :: word) rest
    else if isBlank c && span?.isNone then
      emit word (scan none [] rest)
    else
      scan span? (c :: word) rest

end Token

/-- The words of a line, in order. -/
def tokenize (line : String) : List String :=
  Token.scan none [] line.toList

end RuleDesk
