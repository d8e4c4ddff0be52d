import RuleDesk.Rule.Store

/-!
# The numbers of a store

A store names its rules by numbers that it counts up. As long as the counter
stands above every number in the store, the next name is new, whatever other
names a listing brought in.
-/
namespace RuleDesk

theorem Numeral.ofDigits?_toDigits (n : Nat) :
    Numeral.ofDigits? (Nat.toDigits 10 n) = some n := by
  have hne : (Nat.toDigits 10 n).isEmpty = false := by
    simp
  have hdigits : (Nat.toDigits 10 n).all Char.isDigit = true :=
    List.all_eq_true.mpr fun c hc => Nat.isDigit_of_mem_toDigits (by decide) (by decide) hc
  have hvalue : Nat.ofDigitChars 10 (Nat.toDigits 10 n) 0 = n :=
    Nat.ofDigitChars_toDigits (by decide) (by decide)
  simp [Numeral.ofDigits?, hne, hdigits, hvalue]

/-- A number is read back from its digits if it fits. -/
theorem Numeral.word?_toString {n : Nat} (hn : n < UInt64.size) :
    Numeral.word? (toString n) = some n := by
  have hlist : (toString n).toList = Nat.toDigits 10 n := by simp
  unfold Numeral.word?
  rw [hlist]
  dsimp only
  split
  · next rest heq =>
      -- a sign is no digit
      have hdigit : ('+').isDigit = true :=
        Nat.isDigit_of_mem_toDigits (b := 10) (n := n) (by decide) (by decide) (by simp [heq])
      exact absurd hdigit (by decide)
  · rw [ofDigits?_toDigits, Option.filter_some_pos (by simpa using hn)]

/-- A number of a listing fits into a word. -/
theorem Numeral.lt_of_word? {s : String} {n : Nat} (h : Numeral.word? s = some n) :
    n < UInt64.size := by
  simpa using (Option.filter_eq_some_iff.mp h).2

/-- Words are told apart by their digits. -/
theorem Numeral.eq_of_toString_eq {m n : Nat} (hm : m < UInt64.size) (hn : n < UInt64.size)
    (h : toString m = toString n) : m = n := by
  have hread := Numeral.word?_toString hm
  rw [h, Numeral.word?_toString hn] at hread
  exact (Option.some.inj hread).symm

/-- No number above the greatest one of a listing is in it. -/
theorem MemoryStore.le_greatestNumber? {listing : List ListedRule} {entry : ListedRule}
    (hentry : entry ∈ listing) {n : Nat} (hn : Numeral.word? entry.id = some n) :
    n ≤ (MemoryStore.greatestNumber? listing).getD 0 := by
  apply List.le_max?_getD_of_mem
  exact List.mem_filterMap.mpr ⟨entry, hentry, hn⟩

/-- The next number is the next one of all numbers, if that has 64 bits. -/
theorem following_eq_ok_iff {n m : UInt64} : following n = .ok m ↔ m.toNat = n.toNat + 1 := by
  unfold following
  constructor
  · intro h
    split at h
    · next hroom =>
        cases h
        simp only [UInt64.size] at hroom
        simp only [UInt64.toNat_add, UInt64.toNat_one]
        omega
    · cases h
  · intro h
    have hroom : n.toNat + 1 < UInt64.size := h ▸ m.toNat_lt
    rw [if_pos hroom]
    congr 1
    apply UInt64.toNat_inj.mp
    simp only [UInt64.size] at hroom
    simp only [UInt64.toNat_add, UInt64.toNat_one]
    omega

theorem following_eq_error_iff {n : UInt64} {fault : Fault} :
    following n = .error fault ↔ UInt64.size ≤ n.toNat + 1 := by
  cases fault
  unfold following
  split <;> simp <;> omega

namespace MemoryStore

/-- The counter stands above every number in the store. -/
def Numbered (s : MemoryStore) : Prop :=
  ∀ entry ∈ s.rules, ∀ n, Numeral.word? entry.id = some n → n < s.nextId.toNat

theorem greatestNumber?_lt (listing : List ListedRule) :
    (greatestNumber? listing).getD 0 < UInt64.size := by
  cases hgreatest : greatestNumber? listing with
  | none => decide
  | some n =>
      obtain ⟨entry, -, hn⟩ := List.mem_filterMap.mp (List.max?_mem hgreatest)
      exact Numeral.lt_of_word? hn

theorem firstNumber_eq_ok_iff {listing : List ListedRule} {first : UInt64} :
    firstNumber listing = .ok first ↔
      first.toNat = (greatestNumber? listing).getD 0 + 1 := by
  have hlt := greatestNumber?_lt listing
  unfold firstNumber
  cases hgreatest : greatestNumber? listing with
  | none =>
      rw [Except.ok.injEq, ← UInt64.toNat_inj, eq_comm]
      rfl
  | some n =>
      rw [hgreatest, Option.getD_some] at hlt
      rw [following_eq_ok_iff, Nat.toUInt64, UInt64.toNat_ofNat', Nat.mod_eq_of_lt hlt,
        Option.getD_some]

/-- There is a store with a listing if there is a number behind the greatest one. -/
theorem ofListing_eq_ok_iff {listing : List ListedRule} {s : MemoryStore} :
    ofListing listing = .ok s ↔
      s.nextId.toNat = (greatestNumber? listing).getD 0 + 1 ∧
        s = { rules := listing, nextId := s.nextId } := by
  rw [← firstNumber_eq_ok_iff]
  unfold ofListing
  cases hfirst : firstNumber listing with
  | error fault => simp [bind, Except.bind]
  | ok first =>
      simp only [bind, Except.bind, pure, Except.pure, Except.ok.injEq]
      constructor
      · rintro rfl
        exact ⟨rfl, rfl⟩
      · rintro ⟨rfl, hs⟩
        exact hs.symm

theorem exists_ofListing (listing : List ListedRule)
    (hroom : (greatestNumber? listing).getD 0 + 1 < UInt64.size) :
    ∃ s, ofListing listing = .ok s := by
  refine ⟨{ rules := listing, nextId := .ofNat ((greatestNumber? listing).getD 0 + 1) },
    ofListing_eq_ok_iff.mpr ⟨?_, rfl⟩⟩
  rw [UInt64.toNat_ofNat', Nat.mod_eq_of_lt hroom]

/-- Behind the last number there is none, and no store. -/
theorem ofListing_eq_error_iff {listing : List ListedRule} {fault : Fault} :
    ofListing listing = .error fault ↔
      (greatestNumber? listing).getD 0 + 1 = UInt64.size := by
  constructor
  · intro h
    have hlt := greatestNumber?_lt listing
    refine Nat.le_antisymm hlt (Nat.le_of_not_lt fun hroom => ?_)
    obtain ⟨s, hs⟩ := exists_ofListing listing hroom
    rw [h] at hs
    cases hs
  · intro h
    cases hstore : ofListing listing with
    | ok s =>
        have hnext := (ofListing_eq_ok_iff.mp hstore).1
        exact absurd s.nextId.toNat_lt (Nat.not_lt.mpr (Nat.le_of_eq (hnext.trans h).symm))
    | error cause =>
        cases fault
        cases cause
        rfl

theorem numbered_ofListing {listing : List ListedRule} {s : MemoryStore}
    (h : ofListing listing = .ok s) : s.Numbered := by
  obtain ⟨hnext, hs⟩ := ofListing_eq_ok_iff.mp h
  intro entry hentry n hn
  rw [hs] at hentry
  have hle : n ≤ (greatestNumber? listing).getD 0 := le_greatestNumber? hentry hn
  omega

/-- A rule that is added comes last, under the number of the counter, which goes on by one. -/
theorem add_eq_ok {s t : MemoryStore} {text tag : String} {id : RuleId}
    (h : s.add text tag = .ok (.ok id t)) :
    id = toString s.nextId.toNat ∧ t.nextId.toNat = s.nextId.toNat + 1 ∧
      t = { s with rules := s.rules ++ [⟨id, text, tag⟩], nextId := t.nextId } := by
  unfold add at h
  split at h
  · cases h
  · split at h
    · cases h
    · split at h
      · cases h
      · cases hnext : following s.nextId with
        | error fault =>
            rw [hnext] at h
            cases h
        | ok next =>
            rw [hnext] at h
            cases h
            exact ⟨rfl, following_eq_ok_iff.mp hnext, rfl⟩

/-- An add breaks down only where the counter has come to the last number. -/
theorem add_eq_fault {s : MemoryStore} {text tag : String} {fault : Fault}
    (h : s.add text tag = .error fault) : s.nextId.toNat + 1 = UInt64.size := by
  have hword := s.nextId.toNat_lt
  unfold add at h
  split at h
  · cases h
  · split at h
    · cases h
    · split at h
      · cases h
      · cases hnext : following s.nextId with
        | error cause =>
            have hlast := following_eq_error_iff.mp hnext
            simp only [UInt64.size] at hlast ⊢
            omega
        | ok next =>
            rw [hnext] at h
            cases h

/-- The name that the counter gives next is in use by no rule. -/
theorem Numbered.fresh {s : MemoryStore} (hs : s.Numbered) :
    toString s.nextId.toNat ∉ s.rules.map ListedRule.id := by
  intro hmem
  obtain ⟨entry, hentry, hid⟩ := List.mem_map.mp hmem
  have hlt := hs entry hentry s.nextId.toNat (by rw [hid, Numeral.word?_toString s.nextId.toNat_lt])
  omega

theorem Numbered.add {s t : MemoryStore} (hs : s.Numbered) {text tag : String} {id : RuleId}
    (h : s.add text tag = .ok (.ok id t)) : t.Numbered := by
  obtain ⟨rfl, hnext, ht⟩ := add_eq_ok h
  intro entry hentry n hn
  rw [ht] at hentry
  rw [hnext]
  rcases List.mem_append.mp hentry with hold | hnew
  · have hlt := hs entry hold n hn
    omega
  · obtain rfl := List.mem_singleton.mp hnew
    rw [Numeral.word?_toString s.nextId.toNat_lt] at hn
    cases hn
    omega

/-- Rules that go leave the counter where it is. -/
theorem Numbered.sublist {s : MemoryStore} (hs : s.Numbered) {rules : List ListedRule}
    (h : rules.Sublist s.rules) : ({ s with rules } : MemoryStore).Numbered :=
  fun entry hentry => hs entry (h.subset hentry)

end MemoryStore
end RuleDesk
