/-!
# Numbers written in decimal digits
-/
namespace RuleDesk.Numeral

/-- Reads a nonempty sequence of decimal digits. -/
def ofDigits? (digits : List Char) : Option Nat :=
  if digits.isEmpty || !digits.all Char.isDigit then none
  else some (Nat.ofDigitChars 10 digits 0)

/-- Reads a number of at most 64 bits; one plus sign may stand before the digits
and zeros may lead them. -/
def word? (s : String) : Option Nat :=
  let digits := match s.toList with
    | '+' :: rest => rest
    | all => all
  (ofDigits? digits).filter (· < UInt64.size)

end RuleDesk.Numeral
