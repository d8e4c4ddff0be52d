/-!
# Faults of a filter text

Each fault carries the part of the text that it points at.
-/
namespace RuleDesk

inductive FilterError where
  /-- A closing parenthesis without an open group, with the text from it on. -/
  | unmatchedClose (fragment : String)
  /-- The outermost group left open, with the text from its parenthesis on. -/
  | unclosedGroup (fragment : String)
  /-- A quoted span left open, with the text from its quote on. -/
  | unterminatedQuote (fragment : String)
  /-- A group without items, from parenthesis to parenthesis. -/
  | emptyGroup (fragment : String)
  /-- An operator alone in its group. -/
  | missingOperands (operator : String)
  /-- A text without items. -/
  | empty
deriving Repr, DecidableEq

namespace FilterError

/-- The offending part of the text. -/
def fragment : FilterError → String
  | unmatchedClose text | unclosedGroup text | unterminatedQuote text | emptyGroup text
  | missingOperands text => text
  | empty => ""

def message : FilterError → String
  | unmatchedClose text => s!"Malformed expression: unmatched ')' at '{text}'"
  | unclosedGroup text => s!"Malformed expression: group never closed: '{text}'"
  | unterminatedQuote text => s!"Malformed expression: unterminated quote: {text}"
  | emptyGroup text => s!"Malformed expression: empty group at '{text}'"
  | missingOperands operator => s!"Malformed expression: operator '{operator}' has no operands"
  | empty => "Malformed expression: nothing to parse"

end FilterError
end RuleDesk
