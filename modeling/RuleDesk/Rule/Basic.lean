/-!
# Rules

A rule of the desk has a name and, once the store has accepted it, an id. The
store knows rules by id only.
-/
namespace RuleDesk

/-- The identifier that the store gives to a rule. -/
abbrev RuleId := String

/-- A rule known under a name. -/
structure Rule where
  id : Option RuleId
  name : String
  /-- The flattened filter text. -/
  expression : String
  tag : String
deriving Repr, DecidableEq

/-- One entry of the store's listing. -/
structure ListedRule where
  id : RuleId
  text : String
  tag : String
deriving Repr, DecidableEq

/-- The tag of an entry that names none. -/
def standardTag : String := "..."

end RuleDesk
