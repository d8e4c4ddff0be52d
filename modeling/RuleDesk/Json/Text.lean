/-!
# Texts of JSON strings

A string is a sequence of characters and of escaped 16-bit units. It denotes a
text when its units from the surrogate range come in pairs, a high one directly
before a low one.
-/
namespace RuleDesk.Json

/-- One element of a string between its quotes. -/
inductive TextUnit where
  | char (c : Char)
  /-- An escape by a 16-bit unit in hexadecimal digits. -/
  | unit (u : Nat)
deriving Repr, DecidableEq

abbrev RawText := List TextUnit

def isHighSurrogate (u : Nat) : Bool := 0xD800 ≤ u && u ≤ 0xDBFF

def isLowSurrogate (u : Nat) : Bool := 0xDC00 ≤ u && u ≤ 0xDFFF

/-- The characters that a string denotes. -/
def chars? : RawText → Option (List Char)
  | [] => some []
  | .char c :: rest => (c :: ·) <$> chars? rest
  | .unit high :: .unit low :: rest =>
    if isHighSurrogate high then
      if isLowSurrogate low then
        (Char.ofNat (0x10000 + (high - 0xD800) * 0x400 + (low - 0xDC00)) :: ·) <$> chars? rest
      else none
    else if isLowSurrogate high then none
    else (Char.ofNat high :: ·) <$> chars? (.unit low :: rest)
  | .unit u :: rest =>
    if isHighSurrogate u || isLowSurrogate u then none else (Char.ofNat u :: ·) <$> chars? rest

/-- The text that a string denotes. -/
def RawText.text? (s : RawText) : Option String :=
  String.ofList <$> chars? s

/-- The character that a letter after a backslash stands for. -/
def escapedChar? (c : Char) : Option Char :=
  match c with
  | '"' => some '"'
  | '\\' => some '\\'
  | '/' => some '/'
  | 'b' => some '\x08'
  | 'f' => some '\x0c'
  | 'n' => some '\n'
  | 'r' => some '\r'
  | 't' => some '\t'
  | _ => none

def hexDigit? (c : Char) : Option Nat :=
  if '0' ≤ c && c ≤ '9' then some (c.toNat - '0'.toNat)
  else if 'a' ≤ c && c ≤ 'f' then some (c.toNat - 'a'.toNat + 10)
  else if 'A' ≤ c && c ≤ 'F' then some (c.toNat - 'A'.toNat + 10)
  else none

/-- How a character is written in a string: the quote, the backslash and control
characters below the space are escaped. -/
def escape (c : Char) : List Char :=
  match c with
  | '"' => ['\\', '"']
  | '\\' => ['\\', '\\']
  | '\x08' => ['\\', 'b']
  | '\x0c' => ['\\', 'f']
  | '\n' => ['\\', 'n']
  | '\r' => ['\\', 'r']
  | '\t' => ['\\', 't']
  | c =>
    if c.toNat < 0x20 then
      ['\\', 'u', '0', '0', Nat.digitChar (c.toNat / 16), Nat.digitChar (c.toNat % 16)]
    else [c]

/-- The written form of a text. -/
def quote (s : String) : String :=
  "\"" ++ String.ofList (s.toList.flatMap escape) ++ "\""

end RuleDesk.Json
