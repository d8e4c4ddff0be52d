/-!
# Shortest decimals

The fewest decimal digits that identify a positive binary number among its
neighbours. The number is `mantissa * 2 ^ exponent`; the reals that round to it
form an interval, whose ends belong to it when the mantissa is even. For one,
two, ... digits the two decimals of that many digits around the number are
tested; the first length with a decimal in the interval wins, and of two such
decimals the nearer one.

All comparisons are between natural numbers: the number and the ends of its
interval are given as multiples of one unit.
-/
namespace RuleDesk.Decimal

def twoTo (n : Nat) : Nat := Nat.pow 2 n

def tenTo (n : Nat) : Nat := Nat.pow 10 n

/-- `digits * 10 ^ exponent`. -/
structure Scientific where
  digits : Nat
  exponent : Int
deriving Repr, DecidableEq

/-- A positive number and the interval that rounds to it, over one denominator. -/
structure Interval where
  low : Nat
  value : Nat
  high : Nat
  denominator : Nat
  /-- Whether the ends belong to the interval. -/
  closed : Bool
deriving Repr, DecidableEq

/-- The interval of `mantissa * 2 ^ exponent`. At a power of two the numbers below
lie twice as close as those above, which `narrowBelow` says. -/
def Interval.ofBinary (mantissa : Nat) (exponent : Int) (narrowBelow : Bool) : Interval :=
  let scale := twoTo exponent.toNat
  { low := (4 * mantissa - (if narrowBelow then 1 else 2)) * scale
    value := 4 * mantissa * scale
    high := (4 * mantissa + 2) * scale
    denominator := 4 * twoTo (-exponent).toNat
    closed := mantissa % 2 == 0 }

/-- Compares `digits * 10 ^ exponent` with `n` over a denominator. -/
def Scientific.compareWith (s : Scientific) (n denominator : Nat) : Ordering :=
  compare (s.digits * tenTo s.exponent.toNat * denominator) (n * tenTo (-s.exponent).toNat)

def Interval.contains (i : Interval) (s : Scientific) : Bool :=
  let below := s.compareWith i.low i.denominator
  let above := s.compareWith i.high i.denominator
  (below == .gt || (i.closed && below == .eq)) && (above == .lt || (i.closed && above == .eq))

/-- How many of a unit `10 ^ exponent` fit into the value. -/
def Interval.unitsBelow (i : Interval) (exponent : Int) : Nat :=
  i.value * tenTo (-exponent).toNat / (i.denominator * tenTo exponent.toNat)

/-- Whether the value is nearer to the upper end of a unit that it lies in; a tie
goes to the even end. -/
def Interval.roundsUp (i : Interval) (units : Nat) (exponent : Int) : Bool :=
  let twice := 2 * i.value * tenTo (-exponent).toNat
  let middle := (2 * units + 1) * (i.denominator * tenTo exponent.toNat)
  middle < twice || (middle == twice && units % 2 == 1)

/-- The decimal of the interval among the two around the value whose last digit
stands for `10 ^ exponent`. -/
def Interval.decimalAt? (i : Interval) (exponent : Int) : Option Scientific :=
  let units := i.unitsBelow exponent
  let down : Scientific := ⟨units, exponent⟩
  let up : Scientific := ⟨units + 1, exponent⟩
  match i.contains down, i.contains up with
  | true, true => some (if i.roundsUp units exponent then up else down)
  | true, false => some down
  | false, true => some up
  | false, false => none

/-- The first decimal of the interval when the last digit moves down from
`10 ^ exponent`. -/
def Interval.search (i : Interval) (exponent : Int) : (steps : Nat) → Scientific
  | 0 => ⟨i.unitsBelow exponent, exponent⟩
  | steps + 1 =>
    match i.decimalAt? exponent with
    | some s => s
    | none => i.search (exponent - 1) steps

/-- The greatest power of ten in the value, between `10 ^ (exponent - steps)` and
`10 ^ exponent`. -/
def Interval.magnitude (i : Interval) (exponent : Int) : (steps : Nat) → Int
  | 0 => exponent
  | steps + 1 =>
    if 0 < i.unitsBelow exponent then exponent else i.magnitude (exponent - 1) steps

/-- Moves zeros at the end of the digits into the exponent. -/
def Scientific.trim (s : Scientific) : (steps : Nat) → Scientific
  | 0 => s
  | steps + 1 =>
    if s.digits % 10 = 0 && s.digits != 0 then
      Scientific.trim ⟨s.digits / 10, s.exponent + 1⟩ steps
    else s

/-- The shortest decimal of `mantissa * 2 ^ exponent`, a positive number between
`10 ^ -330` and `10 ^ 310`. Seventeen digits identify a number of 53 bits. -/
def shortest (mantissa : Nat) (exponent : Int) (narrowBelow : Bool) : Scientific :=
  let i := Interval.ofBinary mantissa exponent narrowBelow
  (i.search (i.magnitude 310 640) 17).trim 20

/-- Whether the sign bit of a float is set. -/
def isNegative (x : Float) : Bool :=
  0x8000000000000000 ≤ x.toBits.toNat

/-- The shortest decimal of a finite float without its sign. The low 52 bits hold the
mantissa's fraction and the next 11 the exponent. -/
def ofFloat (x : Float) : Scientific :=
  let bits : Nat := x.toBits.toNat
  let fraction : Nat := bits % twoTo 52
  let biased : Nat := bits / twoTo 52 % twoTo 11
  if biased = 0 then
    if fraction = 0 then ⟨0, 0⟩ else shortest fraction (-1074) false
  else shortest (twoTo 52 + fraction) ((biased : Int) - 1075) (fraction == 0 && biased != 1)

end RuleDesk.Decimal
