import RuleDesk.Proofs.Results
import RuleDesk.Proofs.Rule.Numbering
import Mathlib.Data.List.Range

/-!
# The ids that a store gives out

The ids are the numbers behind the greatest one of the listing that the store began with, one
after the other, so each of them is new. Before a rule is taken in, the counter goes on to the
number behind its id: hence the last number of 64 bits is never an id, and a store that has come
to it breaks down with the next rule. With the last number in the listing there is no store.
-/
namespace RuleDesk

/-- A call that may change a store. -/
inductive StoreRequest where
  | add (text tag : String)
  | delete (id : RuleId)
  | deleteAll
deriving Repr, DecidableEq

namespace StoreRequest

def isAdd : StoreRequest → Bool
  | add .. => true
  | _ => false

/-- How many of the calls are adds. -/
def adds (calls : List StoreRequest) : Nat :=
  calls.countP isAdd

theorem adds_cons (request : StoreRequest) (rest : List StoreRequest) :
    adds (request :: rest) = adds rest + adds [request] := by
  simp [adds, List.countP_cons]

end StoreRequest

namespace MemoryStore

/-- Makes one call: the id that it gives out, if any. -/
def call (s : MemoryStore) :
    StoreRequest → Except Fault (EStateM.Result StoreError MemoryStore (Option RuleId))
  | .add text tag =>
    match s.add text tag with
    | .error fault => .error fault
    | .ok (.error e t) => .ok (.error e t)
    | .ok (.ok id t) => .ok (.ok (some id) t)
  | .delete id =>
    match s.delete id with
    | .error e t => .ok (.error e t)
    | .ok () t => .ok (.ok none t)
  | .deleteAll => .ok (.ok none s.deleteAll)

/-- Makes the calls one after the other, whether or not some are refused: the ids given out,
in order, and the store at the end. -/
def serve (s : MemoryStore) : List StoreRequest → Except Fault (List RuleId × MemoryStore)
  | [] => .ok ([], s)
  | request :: rest =>
    match s.call request with
    | .error fault => .error fault
    | .ok (.error _ t) => t.serve rest
    | .ok (.ok id? t) => (fun (issued, u) => (id?.toList ++ issued, u)) <$> t.serve rest

/-- So many numbers from the first one on. -/
def numbersFrom (first count : Nat) : List RuleId :=
  (List.range count).map fun k => toString (first + k)

/-- The number behind them is none of them. -/
theorem toString_not_mem_numbersFrom {first count : Nat} (hword : first + count < UInt64.size) :
    toString (first + count) ∉ numbersFrom first count := by
  simp only [numbersFrom, List.mem_map, List.mem_range, not_exists, not_and]
  intro k hk hsame
  have := Numeral.eq_of_toString_eq (by omega) hword hsame
  omega

variable {s t : MemoryStore} {text tag : String} {id : RuleId} {e : StoreError}
  {request : StoreRequest}

/-- No check of the store refuses the text. -/
structure Accepts (s : MemoryStore) (text : String) : Prop where
  notBlank : Text.isBlankText text = false
  isNew : ∀ rule ∈ s.rules, rule.text ≠ text
  hasRoom : ∀ cap, s.cap = some cap → s.rules.length < cap

/-- The text gets the number of the counter, if the counter can go on. -/
theorem Accepts.add_eq (h : s.Accepts text) (tag : String) :
    s.add text tag = (following s.nextId).map fun nextId =>
      .ok (toString s.nextId.toNat)
        { s with rules := s.rules ++ [⟨toString s.nextId.toNat, text, tag⟩], nextId } := by
  have hnew : s.rules.any (·.text == text) = false := by
    rw [List.any_eq_false]
    exact fun rule hrule => by simpa using h.isNew rule hrule
  have hroom : s.cap.filter (· ≤ s.rules.length) = none := by
    rw [Option.filter_eq_none_iff]
    exact fun cap hcap => by simpa using h.hasRoom cap hcap
  simp only [MemoryStore.add, h.notBlank, hnew, hroom, Bool.false_eq_true, if_false]
  cases following s.nextId <;> rfl

/-- A refused text has changed nothing: every check stands before the first change. -/
theorem state_of_add_refused (h : s.add text tag = .ok (.error e t)) : t = s := by
  unfold add at h
  split at h
  · cases h
    rfl
  · split at h
    · cases h
      rfl
    · split at h
      · cases h
        rfl
      · cases hnext : following s.nextId with
        | error fault =>
            rw [hnext] at h
            cases h
        | ok nextId =>
            rw [hnext] at h
            cases h

theorem state_of_delete_refused (h : s.delete id = .error e t) : t = s := by
  unfold delete at h
  split at h
  · cases h
  · cases h
    rfl

theorem delete_nextId (h : s.delete id = .ok () t) : t.nextId = s.nextId := by
  unfold delete at h
  split at h
  · cases h
    rfl
  · cases h

theorem state_of_call_refused (h : s.call request = .ok (.error e t)) : t = s := by
  cases request with
  | add text tag =>
      simp only [call] at h
      split at h
      · cases h
      · next hadd =>
          cases h
          exact state_of_add_refused hadd
      · cases h
  | delete id =>
      simp only [call] at h
      split at h
      · next hdelete =>
          cases h
          exact state_of_delete_refused hdelete
      · cases h
  | deleteAll => cases h

/-- One call gives out the number of the counter, which goes on by one, or nothing. Only an add
gives out a number. -/
theorem call_issues {id? : Option RuleId} (h : s.call request = .ok (.ok id? t)) :
    id?.toList = numbersFrom s.nextId.toNat id?.toList.length ∧
      t.nextId.toNat = s.nextId.toNat + id?.toList.length ∧
      id?.toList.length ≤ StoreRequest.adds [request] := by
  cases request with
  | add text tag =>
      simp only [call] at h
      split at h
      · cases h
      · cases h
      · next hadd =>
          cases h
          obtain ⟨rfl, hnext, -⟩ := add_eq_ok hadd
          exact ⟨rfl, hnext, le_rfl⟩
  | delete id =>
      simp only [call] at h
      split at h
      · cases h
      · next hdelete =>
          cases h
          rw [delete_nextId hdelete]
          exact ⟨rfl, rfl, Nat.zero_le _⟩
  | deleteAll =>
      cases h
      exact ⟨rfl, rfl, Nat.zero_le _⟩

/-- A call breaks down only if it is an add and the counter has come to the last number. -/
theorem call_eq_fault {fault : Fault} (h : s.call request = .error fault) :
    StoreRequest.adds [request] = 1 ∧ s.nextId.toNat + 1 = UInt64.size := by
  cases request with
  | add text tag =>
      simp only [call] at h
      split at h
      · next hadd => exact ⟨rfl, add_eq_fault hadd⟩
      · cases h
      · cases h
  | delete id =>
      simp only [call] at h
      split at h <;> cases h
  | deleteAll => cases h

theorem numbersFrom_append (first count more : Nat) :
    numbersFrom first count ++ numbersFrom (first + count) more =
      numbersFrom first (count + more) := by
  unfold numbersFrom
  rw [List.range_add, List.map_append, List.map_map]
  refine congrArg _ (List.map_congr_left fun k _ => ?_)
  rw [Function.comp_apply, Nat.add_assoc]

/-- Whatever else is called, the counter goes on by one for each id. -/
theorem serve_issues {calls : List StoreRequest} {issued : List RuleId}
    (h : s.serve calls = .ok (issued, t)) :
    issued = numbersFrom s.nextId.toNat issued.length ∧
      t.nextId.toNat = s.nextId.toNat + issued.length := by
  induction calls generalizing s issued with
  | nil =>
      cases h
      exact ⟨rfl, rfl⟩
  | cons request rest ih =>
      unfold serve at h
      split at h
      · cases h
      · next hrefused =>
          obtain rfl := state_of_call_refused hrefused
          exact ih h
      · next id? u hcall =>
          obtain ⟨⟨later, v⟩, hlater, hsame⟩ := map_eq_ok_iff.mp h
          cases hsame
          obtain ⟨hid, hnext, -⟩ := call_issues hcall
          obtain ⟨hids, hcounter⟩ := ih hlater
          rw [List.length_append]
          constructor
          · rw [← numbersFrom_append, ← hid, ← hnext, ← hids]
          · rw [hcounter, hnext, Nat.add_assoc]

/-- As long as there are numbers for all adds, nothing breaks down. -/
theorem exists_serve {calls : List StoreRequest}
    (hroom : s.nextId.toNat + StoreRequest.adds calls < UInt64.size) :
    ∃ issued t, s.serve calls = .ok (issued, t) := by
  induction calls generalizing s with
  | nil => exact ⟨[], s, rfl⟩
  | cons request rest ih =>
      rw [StoreRequest.adds_cons] at hroom
      unfold serve
      cases hcall : s.call request with
      | error fault =>
          obtain ⟨hadd, hlast⟩ := call_eq_fault hcall
          omega
      | ok result =>
          cases result with
          | error e t =>
              obtain rfl := state_of_call_refused hcall
              exact ih (by omega)
          | ok id? t =>
              obtain ⟨-, hnext, hused⟩ := call_issues hcall
              obtain ⟨issued, u, hlater⟩ := ih (s := t) (by omega)
              exact ⟨id?.toList ++ issued, u, map_eq_ok_iff.mpr ⟨_, hlater, rfl⟩⟩

/-- A number above the greatest one of the listing is no id of it. -/
theorem toString_not_mem_listing {listing : List ListedRule} {number : Nat}
    (hgreater : (greatestNumber? listing).getD 0 < number) (hword : number < UInt64.size) :
    toString number ∉ listing.map ListedRule.id := by
  intro hmem
  obtain ⟨entry, hentry, hid⟩ := List.mem_map.mp hmem
  have hle := le_greatestNumber? hentry (by rw [hid, Numeral.word?_toString hword])
  omega

/-- Which ids a store gives out that began with a listing, whatever it is called for. There is no
such store if the listing has the last number. Otherwise nothing breaks down as long as there are
numbers for the adds. A text that no check refuses is to get the next number behind the greatest
one of the listing and those given out. It gets it, and the id is neither in the listing nor given
out before, exactly if that is not the last number: there the store breaks down. -/
theorem next_id_fresh_iff (listing : List ListedRule) (cap : Option Nat)
    (calls : List StoreRequest) :
    (∀ fault, ofListing listing = .error fault ↔
      (greatestNumber? listing).getD 0 + 1 = UInt64.size) ∧
    ∀ store, ofListing listing = .ok store →
      ((greatestNumber? listing).getD 0 + StoreRequest.adds calls + 1 < UInt64.size →
        ∃ issued s, ({ store with cap } : MemoryStore).serve calls = .ok (issued, s)) ∧
      ∀ issued s, ({ store with cap } : MemoryStore).serve calls = .ok (issued, s) →
        ∀ number, number = (greatestNumber? listing).getD 0 + issued.length + 1 →
          s.nextId.toNat = number ∧
          ∀ text, s.Accepts text → ∀ tag,
            (∀ fault, s.add text tag = .error fault ↔ number + 1 = UInt64.size) ∧
            ((∃ id t, s.add text tag = .ok (.ok id t) ∧ id = toString number ∧
              id ∉ listing.map ListedRule.id ∧ id ∉ issued ∧ t.nextId.toNat = number + 1) ↔
                number + 1 < UInt64.size) := by
  refine ⟨fun _ => ofListing_eq_error_iff, fun store hstore => ?_⟩
  obtain ⟨hfirst, -⟩ := ofListing_eq_ok_iff.mp hstore
  refine ⟨fun hroom => exists_serve (s := { store with cap }) (by rw [hfirst]; omega), ?_⟩
  intro issued s hserve number hnumber
  obtain ⟨hissued, hcounter⟩ := serve_issues hserve
  have hnext : s.nextId.toNat = number := by rw [hcounter, hfirst]; omega
  have hword : number < UInt64.size := hnext ▸ s.nextId.toNat_lt
  refine ⟨hnext, fun text haccepts tag => ?_⟩
  rw [haccepts.add_eq tag, hnext]
  cases hfollowing : following s.nextId with
  | error fault =>
      have hlast : number + 1 = UInt64.size :=
        Nat.le_antisymm hword (hnext ▸ following_eq_error_iff.mp hfollowing)
      refine ⟨fun cause => iff_of_true ?_ hlast, iff_of_false ?_ (Nat.not_lt.mpr hlast.ge)⟩
      · cases fault
        cases cause
        rfl
      · rintro ⟨id, t, hadded, -⟩
        cases hadded
  | ok nextId =>
      have hafter : nextId.toNat = number + 1 := hnext ▸ following_eq_ok_iff.mp hfollowing
      have hroom : number + 1 < UInt64.size := hafter ▸ nextId.toNat_lt
      refine ⟨fun cause => iff_of_false ?_ (Nat.ne_of_lt hroom), iff_of_true ?_ hroom⟩
      · rintro ⟨⟩
      · have hsum : number = (greatestNumber? listing).getD 0 + 1 + issued.length := by omega
        have hunissued : toString number ∉ issued := by
          rw [hissued, hfirst, hsum]
          exact toString_not_mem_numbersFrom (hsum ▸ hword)
        exact ⟨_, _, rfl, rfl, toString_not_mem_listing (by omega) hword, hunissued, hafter⟩

/-- The last number but one is still given out, here behind a listing with other forms of numbers
and behind calls that are refused. -/
theorem next_id_fresh_before_last_number :
    let listing : List ListedRule :=
      [⟨"007", "cat", "pets"⟩, ⟨"+0", "dog", "pets"⟩, ⟨"18446744073709551612", "owl", "birds"⟩]
    let calls : List StoreRequest :=
      [.add "jay" "birds", .add "jay" "birds", .delete "007", .delete "7"]
    ∃ store issued s, ofListing listing = .ok store ∧
      ({ store with cap := some 4 } : MemoryStore).serve calls = .ok (issued, s) ∧
      issued = ["18446744073709551613"] ∧ s.Accepts "hen" ∧
      ∃ id t, s.add "hen" "birds" = .ok (.ok id t) ∧ id = "18446744073709551614" ∧
        id ∉ listing.map ListedRule.id ∧ id ∉ issued := by
  intro listing calls
  let s : MemoryStore :=
    { rules := [⟨"+0", "dog", "pets"⟩, ⟨"18446744073709551612", "owl", "birds"⟩,
        ⟨"18446744073709551613", "jay", "birds"⟩]
      nextId := 18446744073709551614
      cap := some 4 }
  have hstore : ofListing listing =
      .ok { rules := listing, nextId := 18446744073709551613 } := by rfl
  have hserve : ({ rules := listing, nextId := 18446744073709551613, cap := some 4 } :
      MemoryStore).serve calls = .ok (["18446744073709551613"], s) := by decide +kernel
  have haccepts : s.Accepts "hen" := ⟨by decide +kernel, by decide +kernel, by decide⟩
  obtain ⟨-, hruns⟩ := (next_id_fresh_iff listing (some 4) calls).2 _ hstore
  obtain ⟨-, hadds⟩ := hruns _ s hserve 18446744073709551614 (by rfl)
  obtain ⟨id, t, hadd, hid, hunlisted, hunissued, -⟩ :=
    ((hadds "hen" haccepts "birds").2).mpr (by decide)
  exact ⟨_, _, s, hstore, hserve, rfl, haccepts, id, t, hadd, hid, hunlisted, hunissued⟩

/-- With the last number but one in the listing, the last number is new and no check refuses the
text, but the store breaks down; and with the last number in the listing there is no store. -/
theorem last_number_breaks_down :
    let listing : List ListedRule := [⟨"18446744073709551614", "cat", "pets"⟩]
    (∃ store, ofListing listing = .ok store ∧ store.Accepts "owl" ∧
      store.add "owl" "birds" = .error .overflow ∧
      "18446744073709551615" ∉ listing.map ListedRule.id) ∧
    ofListing [⟨"18446744073709551615", "cat", "pets"⟩, ⟨"0", "dog", "pets"⟩] =
      .error .overflow := by
  intro listing
  refine ⟨⟨{ rules := listing, nextId := 18446744073709551615 }, by rfl, ?_, by rfl, by decide⟩,
    by rfl⟩
  exact ⟨by decide +kernel, by decide +kernel, nofun⟩

end MemoryStore
end RuleDesk
