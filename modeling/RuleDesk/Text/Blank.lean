/-!
# Blank characters

The class of characters that separate words, and trimming by it. The class is
the Unicode property `White_Space`: 25 characters, given here as a table.
-/
namespace RuleDesk

/-- Membership in the Unicode property `White_Space`. -/
def isBlank (c : Char) : Bool :=
  let n := c.toNat
  (9 ≤ n && n ≤ 13) || n == 0x20 || n == 0x85 || n == 0xA0 || n == 0x1680 ||
    (0x2000 ≤ n && n ≤ 0x200A) || n == 0x2028 || n == 0x2029 || n == 0x202F ||
    n == 0x205F || n == 0x3000

/-- The two characters that open and close quoted spans. -/
def isQuote (c : Char) : Bool :=
  c == '"' || c == '\''

namespace Text

/-- A text without blank characters at either end. -/
def trimChars (s : List Char) : List Char :=
  ((s.dropWhile isBlank).reverse.dropWhile isBlank).reverse

def trim (s : String) : String :=
  String.ofList (trimChars s.toList)

/-- A text is blank when trimming leaves nothing of it. -/
def isBlankText (s : String) : Bool :=
  s.toList.all isBlank

end Text

end RuleDesk
