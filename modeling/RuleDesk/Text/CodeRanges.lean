/-!
# Sets of characters by code point

A set of characters is a list of ranges of code points, both ends included. The
properties of the Unicode standard are given in this form.
-/
namespace RuleDesk.Display

abbrev CodeRanges := List (Nat × Nat)

/-- Membership in one of the ranges. -/
def CodeRanges.has (ranges : CodeRanges) (c : Char) : Bool :=
  ranges.any fun r => r.1 ≤ c.toNat && c.toNat ≤ r.2

end RuleDesk.Display
