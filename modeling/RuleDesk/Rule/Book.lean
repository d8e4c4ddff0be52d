import RuleDesk.Rule.Basic

/-!
# The rulebook

The rules known locally, in order of insertion. A rule inserted without a name
is called by the generated prefix and a counter that never goes back. A name
that is taken gets `(1)` appended until it is free, and a rule whose id is
already in the book changes that entry in place.
-/
namespace RuleDesk

structure Rulebook where
  rules : List Rule := []
  /-- The number of the next generated name. -/
  counter : Nat := 0
  /-- What generated names begin with. -/
  stem : String := "Rule"
deriving Repr, DecidableEq

/-- What a merge with the store's listing changed. -/
structure SyncReport where
  /-- Names of rules that are new in the book. -/
  pulled : List String := []
  /-- Names of rules whose text or tag changed. -/
  updated : List String := []
  /-- Names of rules that the store does not list. -/
  unlisted : List String := []
deriving Repr, DecidableEq

/-- Appends `(1)` while the name is taken. As many rounds as there are taken names
always suffice. -/
def freeName (taken : List String) : Nat → String → String
  | 0, name => name
  | rounds + 1, name =>
    if taken.contains name then freeName taken rounds (name ++ "(1)") else name

namespace Rulebook

def names (b : Rulebook) : List String :=
  b.rules.map Rule.name

def byName? (b : Rulebook) (name : String) : Option Rule :=
  b.rules.find? (·.name == name)

def byId? (b : Rulebook) (id : RuleId) : Option Rule :=
  b.rules.find? (·.id == some id)

/-- The requested name with the fewest suffixes that make it free. -/
def uniqueName (b : Rulebook) (name : String) : String :=
  freeName b.names b.rules.length name

/-- The name asked for, or the next generated one if that is missing or empty. -/
def requestedName (b : Rulebook) (name? : Option String) : String × Rulebook :=
  match name?.filter (!·.isEmpty) with
  | some name => (name, b)
  | none => (b.stem ++ toString b.counter, { b with counter := b.counter + 1 })

/-- Gives the first rule with this id another text and tag. -/
def reviseFirst (id : RuleId) (expression tag : String) : List Rule → List Rule
  | [] => []
  | r :: rest =>
    if r.id == some id then { r with expression, tag } :: rest
    else r :: reviseFirst id expression tag rest

/-- Adds a rule, or changes the rule that has this id already. -/
def insert (b : Rulebook) (name? : Option String) (id? : Option RuleId)
    (expression tag : String) : Rule × Rulebook :=
  match id?.bind fun id => (b.byId? id).map (id, ·) with
  | some (id, old) =>
    ({ old with expression, tag }, { b with rules := reviseFirst id expression tag b.rules })
  | none =>
    let (name, b) := b.requestedName name?
    let rule : Rule := ⟨id?, b.uniqueName name, expression, tag⟩
    (rule, { b with rules := b.rules ++ [rule] })

/-- Removes the first rule that `wanted` holds of. -/
def removeFirst? (b : Rulebook) (wanted : Rule → Bool) : Option (Rule × Rulebook) :=
  (b.rules.find? wanted).map fun rule => (rule, { b with rules := b.rules.eraseP wanted })

def removeByName? (b : Rulebook) (name : String) : Option (Rule × Rulebook) :=
  b.removeFirst? (·.name == name)

def removeById? (b : Rulebook) (id : RuleId) : Option (Rule × Rulebook) :=
  b.removeFirst? (·.id == some id)

/-- Removes every rule; the counter of generated names stays. -/
def clear (b : Rulebook) : Rulebook :=
  { b with rules := [] }

/-- The rules in order of their names. -/
def sortedByName (b : Rulebook) : List Rule :=
  b.rules.mergeSort fun x y => decide (x.name ≤ y.name)

/-- Takes over one entry of the store's listing. -/
def mergeEntry (b : Rulebook) (report : SyncReport) (entry : ListedRule) :
    Rulebook × SyncReport :=
  match b.byId? entry.id with
  | some known =>
    if known.expression = entry.text && known.tag = entry.tag then (b, report)
    else
      ((b.insert none (some entry.id) entry.text entry.tag).2,
        { report with updated := report.updated ++ [known.name] })
  | none =>
    let (rule, b) := b.insert none (some entry.id) entry.text entry.tag
    (b, { report with pulled := report.pulled ++ [rule.name] })

def mergeEntries (b : Rulebook) (report : SyncReport) : List ListedRule → Rulebook × SyncReport
  | [] => (b, report)
  | entry :: rest =>
    let (b, report) := b.mergeEntry report entry
    b.mergeEntries report rest

/-- Names of the rules without an id or with one that is not listed. -/
def unlisted (b : Rulebook) (listing : List ListedRule) : List String :=
  (b.rules.filter fun r => !listing.any fun entry => r.id == some entry.id).map Rule.name

/-- Takes over the store's listing, entry by entry. -/
def merge (b : Rulebook) (listing : List ListedRule) : Rulebook × SyncReport :=
  let (b, report) := b.mergeEntries {} listing
  (b, { report with unlisted := b.unlisted listing })

end Rulebook
end RuleDesk
