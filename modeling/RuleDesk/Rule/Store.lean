import RuleDesk.Rule.Basic
import RuleDesk.Text.Blank
import RuleDesk.Text.Numeral
import RuleDesk.Files.Failure

/-!
# The store of rules

The store owns the rule ids. It refuses blank texts, texts that it holds
already, and rules beyond its cap. A call works on the store in place: it leaves
a store behind whether or not it is refused.

The numbers that ids are made of have 64 bits. Where they run out there is no
id and no refusal either: the program breaks down.

`RuleStore` is what the desk needs of a store, and `MemoryStore` is one that
numbers its rules.
-/
namespace RuleDesk

inductive StoreError where
  | invalidRule (reason : String)
  | duplicateRule (text : String)
  | capExceeded (cap : Nat)
  | unknownRule (id : RuleId)
  | seedUnreadable (path : String) (cause : IoFailure)
  | seedMalformed (path : String)
deriving Repr, DecidableEq

def StoreError.message : StoreError → String
  | invalidRule reason => s!"Couldn't add rule, invalid syntax: {reason}"
  | duplicateRule text => s!"A duplicate was found, rule not added: '{text}'"
  | capExceeded cap => s!"Rules cap of {cap} exceeded, delete a rule before adding another"
  | unknownRule id => s!"No rule with id '{id}' in the store"
  | seedUnreadable path cause => s!"Failed to read rule listing '{path}': {cause.message}"
  | seedMalformed path => s!"Failed to parse rule listing '{path}': not a JSON rule listing"

/-- What breaks the program down in the middle of a call. -/
inductive Fault where
  /-- A sum does not fit into 64 bits. -/
  | overflow
deriving Repr, DecidableEq

def Fault.message : Fault → String
  | overflow => "attempt to add with overflow"

/-- The next number of 64 bits. -/
def following (n : UInt64) : Except Fault UInt64 :=
  if n.toNat + 1 < UInt64.size then .ok (n + 1) else .error .overflow

/-- The calls that the desk makes on a store. -/
class RuleStore (σ : Type) where
  list : σ → Except StoreError (List ListedRule)
  add : σ → (text tag : String) → Except Fault (EStateM.Result StoreError σ RuleId)
  delete : σ → RuleId → EStateM.Result StoreError σ Unit
  deleteAll : σ → EStateM.Result StoreError σ Unit

structure MemoryStore where
  rules : List ListedRule := []
  /-- The id of the next rule. -/
  nextId : UInt64 := 1
  /-- The most rules that may be held, if there is such a bound. -/
  cap : Option Nat := none
deriving Repr, DecidableEq

namespace MemoryStore

/-- The greatest id of a listing that is a number of 64 bits. -/
def greatestNumber? (listing : List ListedRule) : Option Nat :=
  (listing.filterMap fun r => Numeral.word? r.id).max?

/-- The first number behind those of a listing. -/
def firstNumber (listing : List ListedRule) : Except Fault UInt64 :=
  match greatestNumber? listing with
  | some n => following n.toUInt64
  | none => .ok 1

/-- A store that holds a listing; new ids go on after its greatest number. -/
def ofListing (listing : List ListedRule) : Except Fault MemoryStore := do
  let nextId ← firstNumber listing
  return { rules := listing, nextId }

/-- Takes a rule in at the end, once the counter has gone on. -/
def add (s : MemoryStore) (text tag : String) :
    Except Fault (EStateM.Result StoreError MemoryStore RuleId) :=
  if Text.isBlankText text then .ok (.error (.invalidRule "empty rule") s)
  else if s.rules.any (·.text == text) then .ok (.error (.duplicateRule text) s)
  else
    match s.cap.filter (· ≤ s.rules.length) with
    | some cap => .ok (.error (.capExceeded cap) s)
    | none => do
      let id := toString s.nextId.toNat
      let nextId ← following s.nextId
      let s := { s with nextId }
      return .ok id { s with rules := s.rules ++ [⟨id, text, tag⟩] }

/-- Deletes the first rule with this id. -/
def delete (s : MemoryStore) (id : RuleId) : EStateM.Result StoreError MemoryStore Unit :=
  if s.rules.any (·.id == id) then .ok () { s with rules := s.rules.eraseP (·.id == id) }
  else .error (.unknownRule id) s

/-- Deletes every rule; ids are not given out again. -/
def deleteAll (s : MemoryStore) : MemoryStore :=
  { s with rules := [] }

instance : RuleStore MemoryStore where
  list s := .ok s.rules
  add := add
  delete := delete
  deleteAll s := .ok () s.deleteAll

end MemoryStore
end RuleDesk
