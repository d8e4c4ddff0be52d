import RuleDesk.Toml.Value

/-!
# Strings, numbers and moments of TOML

Readers take what they can from the front of the text and leave the rest.
-/
namespace RuleDesk.Toml

/-- Takes something from the front of a text, or fails. -/
abbrev Reader := StateT (List Char) Option

namespace Reader

def fail {α : Type} : Reader α := fun _ => none

def peek : Reader (Option Char) := do
  return (← get).head?

def takeWhile (p : Char → Bool) : Reader (List Char) := fun s => some (s.span p)

def skipWhile (p : Char → Bool) : Reader Unit := fun s => some ((), s.dropWhile p)

def char (p : Char → Bool) : Reader Char := fun s =>
  match s with
  | c :: rest => if p c then some (c, rest) else none
  | [] => none

def literal (word : String) : Reader Unit := fun s =>
  if word.toList.isPrefixOf s then some ((), s.drop word.length) else none

/-- What a reader takes, or nothing. -/
def option {α : Type} (r : Reader α) : Reader (Option α) :=
  (some <$> r) <|> pure none

/-- The text that a reader takes. -/
def spelling (r : Reader Unit) : Reader String := fun s => do
  let ((), rest) ← r s
  return (String.ofList (s.take (s.length - rest.length)), rest)

end Reader

def isSpace (c : Char) : Bool := c == ' ' || c == '\t'

/-- Characters that may stand in strings and comments by themselves. -/
def isPlain (c : Char) : Bool :=
  c == '\t' || (0x20 ≤ c.toNat && c.toNat != 0x7F)

def hexDigit? (c : Char) : Option Nat :=
  if c.isDigit then some (c.toNat - '0'.toNat)
  else if 'a' ≤ c && c ≤ 'f' then some (c.toNat - 'a'.toNat + 10)
  else if 'A' ≤ c && c ≤ 'F' then some (c.toNat - 'A'.toNat + 10)
  else none

/-- The character with a number in hexadecimal digits. -/
def charOfHex? (digits : List Char) : Option Char := do
  let n ← digits.foldlM (fun n c => (hexDigit? c).map (n * 16 + ·)) 0
  if n < 0xD800 || (0xDFFF < n && n ≤ 0x10FFFF) then some (Char.ofNat n) else none

def escapedChar? (c : Char) : Option Char :=
  match c with
  | 'b' => some '\x08'
  | 't' => some '\t'
  | 'n' => some '\n'
  | 'f' => some '\x0c'
  | 'r' => some '\r'
  | '"' => some '"'
  | '\\' => some '\\'
  | _ => none

/-- Where a string in double quotes stands. -/
inductive BasicMode where
  | text
  /-- Behind a backslash that ends its line: blanks up to the end. -/
  | lineEnd
  /-- At the start of lines after such a backslash: blanks and line ends. -/
  | lineStart
deriving Repr, DecidableEq

/-- The rest of a string in double quotes, in three of them if `multi`; what has
been read comes last first. -/
def basicString (multi : Bool) (mode : BasicMode) (read : List Char) :
    List Char → Option (String × List Char)
  | [] => none
  | '\r' :: '\n' :: rest =>
    if !multi then none
    else if mode = .text then basicString multi .text ('\n' :: read) rest
    else basicString multi .lineStart read rest
  | '\n' :: rest =>
    if !multi then none
    else if mode = .text then basicString multi .text ('\n' :: read) rest
    else basicString multi .lineStart read rest
  | ' ' :: rest =>
    if mode = .text then basicString multi .text (' ' :: read) rest
    else basicString multi mode read rest
  | '\t' :: rest =>
    if mode = .text then basicString multi .text ('\t' :: read) rest
    else basicString multi mode read rest
  | '"' :: '"' :: '"' :: '"' :: '"' :: rest =>
    if mode = .lineEnd then none
    else if multi then some (String.ofList ('"' :: '"' :: read).reverse, rest)
    else some (String.ofList read.reverse, '"' :: '"' :: '"' :: '"' :: rest)
  | '"' :: '"' :: '"' :: '"' :: rest =>
    if mode = .lineEnd then none
    else if multi then some (String.ofList ('"' :: read).reverse, rest)
    else some (String.ofList read.reverse, '"' :: '"' :: '"' :: rest)
  | '"' :: '"' :: '"' :: rest =>
    if mode = .lineEnd then none
    else if multi then some (String.ofList read.reverse, rest)
    else some (String.ofList read.reverse, '"' :: '"' :: rest)
  | '"' :: rest =>
    if mode = .lineEnd then none
    else if multi then basicString multi .text ('"' :: read) rest
    else some (String.ofList read.reverse, rest)
  | '\\' :: 'u' :: a :: b :: c :: d :: rest =>
    if mode = .lineEnd then none
    else (charOfHex? [a, b, c, d]).bind fun x => basicString multi .text (x :: read) rest
  | '\\' :: 'U' :: a :: b :: c :: d :: e :: f :: g :: h :: rest =>
    if mode = .lineEnd then none
    else (charOfHex? [a, b, c, d, e, f, g, h]).bind fun x =>
      basicString multi .text (x :: read) rest
  | '\\' :: c :: rest =>
    if mode = .lineEnd then none
    else
      match escapedChar? c with
      | some x => basicString multi .text (x :: read) rest
      | none =>
        if !multi then none
        else if isSpace c then basicString multi .lineEnd read rest
        else if c = '\n' then basicString multi .lineStart read rest
        else if c = '\r' && rest.head? = some '\n' then basicString multi .lineEnd read rest
        else none
  | c :: rest =>
    if mode = .lineEnd || !isPlain c || c = '\\' then none
    else basicString multi .text (c :: read) rest

/-- The rest of a string in single quotes, in three of them if `multi`. -/
def literalString (multi : Bool) (read : List Char) : List Char → Option (String × List Char)
  | [] => none
  | '\r' :: '\n' :: rest => if multi then literalString multi ('\n' :: read) rest else none
  | '\n' :: rest => if multi then literalString multi ('\n' :: read) rest else none
  | '\'' :: '\'' :: '\'' :: '\'' :: '\'' :: rest =>
    if multi then some (String.ofList ('\'' :: '\'' :: read).reverse, rest)
    else some (String.ofList read.reverse, '\'' :: '\'' :: '\'' :: '\'' :: rest)
  | '\'' :: '\'' :: '\'' :: '\'' :: rest =>
    if multi then some (String.ofList ('\'' :: read).reverse, rest)
    else some (String.ofList read.reverse, '\'' :: '\'' :: '\'' :: rest)
  | '\'' :: '\'' :: '\'' :: rest =>
    if multi then some (String.ofList read.reverse, rest)
    else some (String.ofList read.reverse, '\'' :: '\'' :: rest)
  | '\'' :: rest =>
    if multi then literalString multi ('\'' :: read) rest
    else some (String.ofList read.reverse, rest)
  | c :: rest => if isPlain c then literalString multi (c :: read) rest else none

/-- A line end directly behind three opening quotes does not count. -/
def dropLineEnd : List Char → List Char
  | '\r' :: '\n' :: rest => rest
  | '\n' :: rest => rest
  | s => s

/-- A string on one line. -/
def shortString : Reader String := fun s =>
  match s with
  | '"' :: rest => basicString false .text [] rest
  | '\'' :: rest => literalString false [] rest
  | _ => none

def string : Reader String := fun s =>
  match s with
  | '"' :: '"' :: '"' :: rest => basicString true .text [] (dropLineEnd rest)
  | '\'' :: '\'' :: '\'' :: rest => literalString true [] (dropLineEnd rest)
  | s => shortString s

/-- The rest of a number: digits, with single underscores between them. -/
def moreDigits (p : Char → Bool) : List Char → List Char × List Char
  | [] => ([], [])
  | '_' :: c :: rest =>
    if p c then
      let (digits, rest) := moreDigits p rest
      (c :: digits, rest)
    else ([], '_' :: c :: rest)
  | c :: rest =>
    if p c then
      let (digits, rest) := moreDigits p rest
      (c :: digits, rest)
    else ([], c :: rest)

/-- Digits with single underscores between them. -/
def digits (p : Char → Bool) : Reader (List Char) := do
  let first ← Reader.char p
  let more ← (fun s => some (moreDigits p s) : Reader (List Char))
  return first :: more

def sign : Reader Bool := do
  match ← Reader.option (Reader.char fun c => c == '+' || c == '-') with
  | some '-' => return true
  | _ => return false

/-- Decimal digits without leading zeros. -/
def wholeDigits : Reader (List Char) := do
  match ← Reader.peek with
  | some '0' => return [← Reader.char (· == '0')]
  | _ => digits Char.isDigit

/-- A signed integer of 64 bits. -/
def checkedInteger (n : Int) : Reader Value :=
  if -0x8000000000000000 ≤ n && n < 0x8000000000000000 then pure (.integer n) else Reader.fail

/-- An integer with a letter that names its base. -/
def basedInteger (base : Nat) (letter : String) : Reader Value := do
  Reader.literal letter
  let ds ← digits fun c => (hexDigit? c).any fun d => d < base
  checkedInteger (ds.foldl (fun n c => n * base + (hexDigit? c).getD 0) 0 : Nat)

def decimalInteger : Reader Value := do
  let negative ← sign
  let n := Nat.ofDigitChars 10 (← wholeDigits) 0
  checkedInteger (if negative then -(n : Int) else n)

def integer : Reader Value :=
  basedInteger 16 "0x" <|> basedInteger 8 "0o" <|> basedInteger 2 "0b" <|> decimalInteger

/-- Whether a positive decimal is too great for a float. -/
def overflows (whole fraction : List Char) (exponent : Int) : Bool :=
  let ds := (whole ++ fraction).dropWhile (· == '0')
  let top : Int := exponent - fraction.length + ds.length
  if ds.isEmpty || top < 300 then false
  else if 400 < top then true
  else
    let n := Nat.ofDigitChars 10 ds 0
    let e : Int := exponent - fraction.length
    (Float.ofScientific n (decide (e < 0)) e.natAbs).isInf

def exponentPart : Reader Int := do
  let _ ← Reader.char fun c => c == 'e' || c == 'E'
  let negative ← sign
  let n := Nat.ofDigitChars 10 (← digits Char.isDigit) 0
  return if negative then -(n : Int) else n

def fractionPart : Reader (List Char) := do
  Reader.literal "."
  digits Char.isDigit

/-- A float: a fraction, an exponent or both, or a special word. -/
def float : Reader Unit := do
  let negative ← sign
  let special := Reader.literal "inf" <|> Reader.literal "nan"
  let plain : Reader Unit := do
    let whole ← wholeDigits
    let fraction ← Reader.option fractionPart
    let exponent ← Reader.option exponentPart
    if fraction.isNone && exponent.isNone then Reader.fail
    else if !negative && overflows whole (fraction.getD []) (exponent.getD 0) then Reader.fail
    else pure ()
  plain <|> special

/-- Exactly `n` digits. -/
def fixedDigits : (n : Nat) → Reader (List Char)
  | 0 => pure []
  | n + 1 => do
    let c ← Reader.char Char.isDigit
    let rest ← fixedDigits n
    return c :: rest

/-- A number of `n` digits between two bounds. -/
def ranged (n low high : Nat) : Reader Nat := do
  let k := Nat.ofDigitChars 10 (← fixedDigits n) 0
  if low ≤ k && k ≤ high then return k else Reader.fail

def daysIn (year month : Nat) : Nat :=
  if month = 2 then
    if year % 4 = 0 && (year % 100 != 0 || year % 400 = 0) then 29 else 28
  else if month = 4 || month = 6 || month = 9 || month = 11 then 30
  else 31

def date : Reader Unit := do
  let year ← ranged 4 0 9999
  Reader.literal "-"
  let month ← ranged 2 1 12
  Reader.literal "-"
  let _ ← ranged 2 1 (daysIn year month)

def time : Reader Unit := do
  let _ ← ranged 2 0 23
  Reader.literal ":"
  let _ ← ranged 2 0 59
  Reader.literal ":"
  let _ ← ranged 2 0 60
  let _ ← Reader.option do
    Reader.literal "."
    let _ ← Reader.char Char.isDigit
    Reader.skipWhile Char.isDigit

def offset : Reader Unit := do
  match ← Reader.char fun c => c == 'Z' || c == 'z' || c == '+' || c == '-' with
  | 'Z' | 'z' => pure ()
  | _ =>
    let _ ← ranged 2 0 23
    Reader.literal ":"
    let _ ← ranged 2 0 59

/-- A date, a time, or a date and a time with an offset if it has one. -/
def moment : Reader Unit :=
  (do
    date
    let _ ← Reader.option do
      let _ ← Reader.char fun c => c == 'T' || c == 't' || c == ' '
      time
      let _ ← Reader.option offset) <|> time

end RuleDesk.Toml
