import RuleDesk.Json.Number
import RuleDesk.Json.Text

/-!
# Tokens of JSON

The lexer reads a text character by character. Numbers and words end at the first
character that cannot belong to them. Between tokens only the space, the tab, the
line feed and the carriage return may stand.
-/
namespace RuleDesk.Json

inductive Token where
  | openArray
  | closeArray
  | openObject
  | closeObject
  | colon
  | comma
  | null
  | bool (b : Bool)
  | number (literal : NumberLiteral)
  | string (units : RawText)
deriving Repr, DecidableEq

/-- What the lexer is in the middle of. What has been read comes last first. -/
inductive Lexer where
  | between
  | number (read : List Char)
  | word (read : List Char)
  | string (read : RawText)
  /-- Behind a backslash in a string. -/
  | escape (read : RawText)
  /-- In the hexadecimal digits of an escape, `missing` of which are to come. -/
  | hex (read : RawText) (unit missing : Nat)
deriving Repr, DecidableEq

namespace Lexer

def isNumberChar (c : Char) : Bool :=
  c.isDigit || c == '-' || c == '+' || c == '.' || c == 'e' || c == 'E'

/-- A character outside tokens. -/
def start (c : Char) : Option (List Token × Lexer) :=
  if c = ' ' || c = '\t' || c = '\n' || c = '\r' then some ([], between)
  else if c = '[' then some ([.openArray], between)
  else if c = ']' then some ([.closeArray], between)
  else if c = '{' then some ([.openObject], between)
  else if c = '}' then some ([.closeObject], between)
  else if c = ':' then some ([.colon], between)
  else if c = ',' then some ([.comma], between)
  else if c = '"' then some ([], string [])
  else if c.isDigit || c = '-' then some ([], number [c])
  else if c.isLower then some ([], word [c])
  else none

def wordToken? (word : String) : Option Token :=
  if word = "null" then some .null
  else if word = "true" then some (.bool true)
  else if word = "false" then some (.bool false)
  else none

/-- The token that a number or word ends in. -/
def finish : Lexer → Option (List Token)
  | between => some []
  | number read => (NumberLiteral.ofChars? read.reverse).map fun l => [.number l]
  | word read => (wordToken? (String.ofList read.reverse)).map fun t => [t]
  | string _ | escape _ | hex .. => none

/-- The tokens that a character completes, and what the lexer is in after it. -/
def step (s : Lexer) (c : Char) : Option (List Token × Lexer) :=
  match s with
  | between => start c
  | number read => if isNumberChar c then some ([], number (c :: read)) else endAt s c
  | word read => if c.isLower then some ([], word (c :: read)) else endAt s c
  | string read =>
    if c = '"' then some ([.string read.reverse], between)
    else if c = '\\' then some ([], escape read)
    else if c.toNat < 0x20 then none
    else some ([], string (.char c :: read))
  | escape read =>
    if c = 'u' then some ([], hex read 0 4)
    else (escapedChar? c).map fun c => ([], string (.char c :: read))
  | hex read unit missing =>
    (hexDigit? c).map fun d =>
      if missing ≤ 1 then ([], string (.unit (unit * 16 + d) :: read))
      else ([], hex read (unit * 16 + d) (missing - 1))
where
  endAt (s : Lexer) (c : Char) : Option (List Token × Lexer) := do
    let token ← finish s
    let (tokens, s) ← start c
    return (token ++ tokens, s)

/-- Reads on; `done` are the tokens so far, the last one first. -/
def run (done : List Token) (s : Lexer) : List Char → Option (List Token)
  | [] => (finish s).map fun tokens => (tokens.reverse ++ done).reverse
  | c :: rest =>
    match step s c with
    | some (tokens, s) => run (tokens.reverse ++ done) s rest
    | none => none

end Lexer

/-- The tokens of a text. -/
def tokens? (text : String) : Option (List Token) :=
  Lexer.run [] .between text.toList

end RuleDesk.Json
