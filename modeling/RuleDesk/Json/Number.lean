import RuleDesk.Decimal.Shortest

/-!
# Numbers of JSON

An integer literal between `-2 ^ 63` and `2 ^ 64 - 1` is an integer; every other
literal, and `-0`, is a float. The float of a literal comes from its first
digits, as many as fit into 64 bits, scaled by one power of ten. A literal beyond
the range of floats is no number.

A float is written with the fewest digits that identify it, positionally when its
first digit stands for `10 ^ -5` to `10 ^ 15`.
-/
namespace RuleDesk.Json

/-- A number as it is spelled. -/
structure NumberLiteral where
  negative : Bool
  whole : List Char
  /-- The digits after the point. -/
  fraction : Option (List Char)
  /-- The sign of the exponent, true for minus, and its digits. -/
  exponent : Option (Bool × List Char)
deriving Repr, DecidableEq

namespace NumberLiteral

def exponentOf? : List Char → Option (Option (Bool × List Char))
  | [] => some none
  | mark :: rest =>
    if mark = 'e' || mark = 'E' then
      let (negative, digits) := match rest with
        | '-' :: digits => (true, digits)
        | '+' :: digits => (false, digits)
        | digits => (false, digits)
      if digits.isEmpty || !digits.all Char.isDigit then none else some (some (negative, digits))
    else none

/-- Reads a spelled number; zeros may not lead. -/
def ofChars? (s : List Char) : Option NumberLiteral :=
  let (negative, s) := match s with
    | '-' :: rest => (true, rest)
    | all => (false, all)
  let (whole, rest) := s.span Char.isDigit
  if whole.isEmpty || (whole.head? == some '0' && 1 < whole.length) then none
  else
    match rest with
    | '.' :: rest =>
      let (fraction, rest) := rest.span Char.isDigit
      if fraction.isEmpty then none
      else (exponentOf? rest).map fun exponent => ⟨negative, whole, some fraction, exponent⟩
    | rest => (exponentOf? rest).map fun exponent => ⟨negative, whole, none, exponent⟩

end NumberLiteral

inductive Number where
  | integer (n : Int)
  | real (x : Float)
deriving Repr

/-- A significand of 64 bits and a power of ten. -/
structure Scaled where
  significand : Nat
  exponent : Int
deriving Repr, DecidableEq

namespace Scaled

/-- One more digit, if the significand has room for it. -/
def push? (s : Scaled) (digit : Char) : Option Nat :=
  let n := s.significand * 10 + (digit.toNat - '0'.toNat)
  if n < UInt64.size then some n else none

/-- Digits before the point. From the first digit without room on they only count. -/
def takeWhole (s : Scaled) : List Char → Scaled
  | [] => s
  | digit :: rest =>
    match s.push? digit with
    | some n => takeWhole { s with significand := n } rest
    | none => { s with exponent := s.exponent + (rest.length + 1) }

/-- Digits after the point, up to the first one without room. -/
def takeFraction (s : Scaled) : List Char → Scaled
  | [] => s
  | digit :: rest =>
    match s.push? digit with
    | some n => takeFraction ⟨n, s.exponent - 1⟩ rest
    | none => s

/-- The greatest exponent of ten among floats. -/
def topExponent : Nat := 308

def powerOfTen (n : Nat) : Float :=
  Float.ofScientific 1 false n

/-- Divides by a power of ten, in steps of the greatest one. Three steps take every
significand to zero. -/
def shrink (x : Float) (exponent : Nat) : (steps : Nat) → Float
  | 0 => 0.0
  | steps + 1 =>
    if exponent ≤ topExponent then x / powerOfTen exponent
    else shrink (x / powerOfTen topExponent) (exponent - topExponent) steps

/-- The float, unless it lies beyond the greatest one. -/
def toFloat? (s : Scaled) : Option Float :=
  let x := Float.ofNat s.significand
  if s.significand = 0 then some 0.0
  else if s.exponent < 0 then some (shrink x (-s.exponent).toNat 4)
  else if s.exponent ≤ topExponent then
    let y := x * powerOfTen s.exponent.toNat
    if y.isInf then none else some y
  else none

end Scaled

namespace Number

/-- The float of a literal. -/
def realOf? (l : NumberLiteral) : Option Float := do
  let digits := (Scaled.takeWhole ⟨0, 0⟩ l.whole).takeFraction (l.fraction.getD [])
  let scaled := match l.exponent with
    | none => digits
    | some (true, e) => { digits with exponent := digits.exponent - Nat.ofDigitChars 10 e 0 }
    | some (false, e) => { digits with exponent := digits.exponent + Nat.ofDigitChars 10 e 0 }
  let x ← scaled.toFloat?
  return if l.negative then -x else x

def ofLiteral? (l : NumberLiteral) : Option Number :=
  let n := Nat.ofDigitChars 10 l.whole 0
  if l.fraction.isSome || l.exponent.isSome then .real <$> realOf? l
  else if !l.negative && n < UInt64.size then some (.integer n)
  else if l.negative && 0 < n && n ≤ 0x8000000000000000 then some (.integer (-n))
  else .real <$> realOf? l

/-- Digits and a power of ten in the layout of the format. -/
def layout (digits : String) (exponent : Int) : String :=
  let cs := digits.toList
  let first := exponent + (cs.length - 1 : Nat)
  if 0 ≤ exponent && first < 16 then
    digits ++ String.ofList (List.replicate exponent.toNat '0') ++ ".0"
  else if 0 ≤ first && first < 16 then
    let places := (-exponent).toNat
    String.ofList (cs.take (cs.length - places)) ++ "." ++
      String.ofList (cs.drop (cs.length - places))
  else if -5 ≤ first && first < 0 then
    "0." ++ String.ofList (List.replicate (-first - 1).toNat '0') ++ digits
  else
    let tail := cs.drop 1
    let mantissa := String.ofList (cs.take 1) ++
      (if tail.isEmpty then "" else "." ++ String.ofList tail)
    mantissa ++ (if first < 0 then "e-" else "e+") ++ toString first.natAbs

def realText (x : Float) : String :=
  let sign := if Decimal.isNegative x then "-" else ""
  let s := Decimal.ofFloat x
  if s.digits = 0 then sign ++ "0.0" else sign ++ layout (toString s.digits) s.exponent

def text : Number → String
  | integer n => toString n
  | real x => realText x

end Number
end RuleDesk.Json
