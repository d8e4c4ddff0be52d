import RuleDesk.Proofs.Rule.Numbering
import RuleDesk.Proofs.Rule.Requests

/-!
# Names that are generated

A rule that comes in without a name is called by the stem of the book and a number, with
suffixes if a rule has that name already. The number is not used again, whatever becomes of the
rule. And since a suffix does not begin with a digit, the number can be read off the name, so
that no two generated names are ever the same.
-/
namespace RuleDesk

/-- What suffixes add to a name does not begin with a digit. -/
theorem exists_toList_suffixed (name : String) (k : Nat) :
    ∃ tail : List Char, (suffixed name k).toList = name.toList ++ tail ∧
      tail.takeWhile Char.isDigit = [] := by
  induction k generalizing name with
  | zero => exact ⟨[], by simp [suffixed], rfl⟩
  | succ k ih =>
      obtain ⟨tail, htail, -⟩ := ih (name ++ "(1)")
      refine ⟨"(1)".toList ++ tail, ?_, rfl⟩
      rw [← suffixed_append, htail, String.toList_append, List.append_assoc]

theorem takeWhile_digits (n : Nat) {tail : List Char} (h : tail.takeWhile Char.isDigit = []) :
    ((toString n).toList ++ tail).takeWhile Char.isDigit = Nat.toDigits 10 n := by
  have hdigits : ∀ c ∈ Nat.toDigits 10 n, c.isDigit = true := fun c hc =>
    Nat.isDigit_of_mem_toDigits (by decide) (by decide) hc
  have hlist : (toString n).toList = Nat.toDigits 10 n := by simp
  rw [hlist, List.takeWhile_append_of_pos hdigits, h, List.append_nil]

/-- Names of one stem are told apart by their numbers, however many suffixes they have. -/
theorem number_eq_of_suffixed_eq {stem : String} {m n k l : Nat}
    (h : suffixed (stem ++ toString m) k = suffixed (stem ++ toString n) l) : m = n := by
  obtain ⟨tail, htail, hm⟩ := exists_toList_suffixed (stem ++ toString m) k
  obtain ⟨other, hother, hn⟩ := exists_toList_suffixed (stem ++ toString n) l
  rw [h, hother, String.toList_append, String.toList_append, List.append_assoc,
    List.append_assoc] at htail
  have hdigits := congrArg (List.takeWhile Char.isDigit) (List.append_cancel_left htail)
  rw [takeWhile_digits n hn, takeWhile_digits m hm] at hdigits
  have hread := Numeral.ofDigits?_toDigits n
  rw [hdigits, Numeral.ofDigits?_toDigits] at hread
  exact Option.some.inj hread

/-- Whether the rules that a request brings in come without a name. -/
def RulebookRequest.isUnnamed : RulebookRequest → Bool
  | .insert name? .. => name?.getD "" == ""
  | .merge _ => true
  | .removeByName _ => false
  | .removeById _ => false
  | .clear => false

namespace Rulebook

/-- The names that a request gives to rules that it brings in without one: new rules stand
behind all others. -/
def generatedBy (b : Rulebook) (request : RulebookRequest) : List String :=
  if request.isUnnamed then (b.apply request).names.drop b.names.length else []

/-- All names that are given so in the course of the requests. -/
def generated (b : Rulebook) : List RulebookRequest → List String
  | [] => []
  | request :: rest => b.generatedBy request ++ (b.apply request).generated rest

/-- From one book to the other these names have been generated, one for each number from the
counter on. -/
structure Generates (b b' : Rulebook) (given : List String) : Prop where
  stem : b'.stem = b.stem
  counter : b'.counter = b.counter + given.length
  numbered : ∀ i name, given[i]? = some name →
    ∃ k, name = suffixed (b.stem ++ toString (b.counter + i)) k

variable {b b' : Rulebook} {name? : Option String} {id? : Option RuleId} {expression tag : String}

theorem generates_nil (hstem : b'.stem = b.stem) (hcounter : b'.counter = b.counter) :
    b.Generates b' [] :=
  ⟨hstem, hcounter, fun _ _ hname => nomatch hname⟩

theorem Generates.append {b'' : Rulebook} {given later : List String} (h : b.Generates b' given)
    (hlater : b'.Generates b'' later) : b.Generates b'' (given ++ later) where
  stem := hlater.stem.trans h.stem
  counter := by rw [hlater.counter, h.counter, List.length_append, Nat.add_assoc]
  numbered := by
    intro i name hname
    by_cases hi : i < given.length
    · rw [List.getElem?_append_left hi] at hname
      exact h.numbered i name hname
    · have hle : given.length ≤ i := Nat.le_of_not_lt hi
      rw [List.getElem?_append_right hle] at hname
      obtain ⟨k, hk⟩ := hlater.numbered _ name hname
      refine ⟨k, ?_⟩
      rw [hk, h.stem, h.counter, Nat.add_assoc, Nat.add_sub_of_le hle]

theorem Generates.nodup {given : List String} (h : b.Generates b' given) : given.Nodup := by
  rw [List.nodup_iff_getElem?_ne_getElem?]
  intro i j hij hj hsame
  have hi : i < given.length := Nat.lt_trans hij hj
  obtain ⟨k, hk⟩ := h.numbered i given[i] (List.getElem?_eq_getElem hi)
  obtain ⟨l, hl⟩ := h.numbered j given[j] (List.getElem?_eq_getElem hj)
  rw [List.getElem?_eq_getElem hi, List.getElem?_eq_getElem hj, Option.some.injEq, hk, hl] at hsame
  have hnumbers := number_eq_of_suffixed_eq hsame
  omega

theorem filter_filled_eq_none_iff : name?.filter (!·.isEmpty) = none ↔ name?.getD "" = "" := by
  cases name? <;> simp

theorem requestedName_unnamed (h : name?.getD "" = "") :
    b.requestedName name? =
      (b.stem ++ toString b.counter, { b with counter := b.counter + 1 }) := by
  rw [requestedName, filter_filled_eq_none_iff.mpr h]

/-- A name that is given does not take a number. -/
theorem requestedName_named (h : name?.getD "" ≠ "") : (b.requestedName name?).2 = b := by
  unfold requestedName
  split
  · rfl
  · next hnone => exact absurd (filter_filled_eq_none_iff.mp hnone) h

/-- A rule that comes in without a name gets the next one, if it comes in at all. -/
theorem exists_generates_insert (b : Rulebook) (name? : Option String)
    (hname : name?.getD "" = "") (id? : Option RuleId) (expression tag : String) :
    ∃ given, (b.insert name? id? expression tag).2.names = b.names ++ given ∧
      b.Generates (b.insert name? id? expression tag).2 given := by
  cases hfound : id?.bind b.byId? with
  | none =>
      rw [insert_absent hfound, requestedName_unnamed hname]
      refine ⟨[b.uniqueName (b.stem ++ toString b.counter)], ?_, rfl, rfl, fun i name hgiven => ?_⟩
      · rw [names, List.map_append, names, List.map_singleton]
      · obtain ⟨rfl, rfl⟩ : i = 0 ∧ b.uniqueName (b.stem ++ toString b.counter) = name := by
          simpa [List.getElem?_singleton] using hgiven
        obtain ⟨k, hk, -⟩ := b.uniqueName_least (b.stem ++ toString b.counter)
        exact ⟨k, hk⟩
  | some old =>
      obtain ⟨id, rfl, hid⟩ := Option.bind_eq_some_iff.mp hfound
      rw [insert_known hid]
      refine ⟨[], ?_, generates_nil rfl rfl⟩
      rw [names, map_name_reviseFirst, List.append_nil, names]

theorem generates_insert_named (b : Rulebook) (hname : name?.getD "" ≠ "")
    (id? : Option RuleId) (expression tag : String) :
    b.Generates (b.insert name? id? expression tag).2 [] := by
  cases hfound : id?.bind b.byId? with
  | none =>
      have hrequested : (b.requestedName name?).2 = b := requestedName_named hname
      rw [insert_absent hfound]
      refine generates_nil ?_ ?_
      · change (b.requestedName name?).2.stem = b.stem
        rw [hrequested]
      · change (b.requestedName name?).2.counter = b.counter
        rw [hrequested]
  | some old =>
      obtain ⟨id, rfl, hid⟩ := Option.bind_eq_some_iff.mp hfound
      rw [insert_known hid]
      exact generates_nil rfl rfl

/-- All rules that a listing brings in get generated names. -/
theorem exists_generates_mergeEntries (b : Rulebook) (report : SyncReport)
    (listing : List ListedRule) :
    ∃ given, (b.mergeEntries report listing).1.names = b.names ++ given ∧
      b.Generates (b.mergeEntries report listing).1 given := by
  induction listing generalizing b report with
  | nil => exact ⟨[], (List.append_nil _).symm, generates_nil rfl rfl⟩
  | cons entry rest ih =>
      obtain ⟨later, hlater, hgenerates⟩ := ih (b.mergeEntry report entry).1
        (b.mergeEntry report entry).2
      rw [mergeEntries_cons]
      by_cases hshows : b.Shows entry
      · rw [hshows.mergeEntry_eq] at hlater hgenerates ⊢
        exact ⟨later, hlater, hgenerates⟩
      · rw [mergeEntry_of_not_shows hshows] at hlater hgenerates
        rw [mergeEntry_of_not_shows hshows]
        obtain ⟨first, hnames, hfirst⟩ :=
          b.exists_generates_insert none rfl (some entry.id) entry.text entry.tag
        exact ⟨first ++ later, by rw [hlater, hnames, List.append_assoc],
          hfirst.append hgenerates⟩

theorem generatedBy_eq (request : RulebookRequest) (h : request.isUnnamed = true)
    {given : List String} (hnames : (b.apply request).names = b.names ++ given) :
    b.generatedBy request = given := by
  rw [generatedBy, if_pos h, hnames, List.drop_left]

theorem generates_apply (b : Rulebook) (request : RulebookRequest) :
    b.Generates (b.apply request) (b.generatedBy request) := by
  cases request with
  | insert name? id? expression tag =>
      by_cases hname : name?.getD "" = ""
      · obtain ⟨given, hnames, hgenerates⟩ :=
          b.exists_generates_insert name? hname id? expression tag
        rw [generatedBy_eq (.insert name? id? expression tag) (beq_iff_eq.mpr hname) hnames]
        exact hgenerates
      · have hnone : b.generatedBy (.insert name? id? expression tag) = [] :=
          if_neg fun hunnamed => hname (beq_iff_eq.mp hunnamed)
        rw [hnone]
        exact b.generates_insert_named hname id? expression tag
  | removeByName name =>
      rw [Rulebook.apply, removeByName?, removed_eq]
      exact generates_nil rfl rfl
  | removeById id =>
      rw [Rulebook.apply, removeById?, removed_eq]
      exact generates_nil rfl rfl
  | clear => exact generates_nil rfl rfl
  | merge listing =>
      obtain ⟨given, hnames, hgenerates⟩ := b.exists_generates_mergeEntries {} listing
      rw [generatedBy_eq (.merge listing) rfl hnames]
      exact hgenerates

theorem generates_run (b : Rulebook) (requests : List RulebookRequest) :
    b.Generates (b.run requests) (b.generated requests) := by
  induction requests generalizing b with
  | nil => exact generates_nil rfl rfl
  | cons request rest ih => exact (b.generates_apply request).append (ih (b.apply request))

/-- Whatever is asked of a book that began without rules, no name is generated twice, be the
first rule of that name there or not. As many numbers have been used as names were generated. -/
theorem generated_names_distinct (stem : String) (requests : List RulebookRequest) :
    (({ stem } : Rulebook).generated requests).Nodup ∧
      (({ stem } : Rulebook).run requests).counter =
        (({ stem } : Rulebook).generated requests).length := by
  have hgenerates := ({ stem } : Rulebook).generates_run requests
  exact ⟨hgenerates.nodup, hgenerates.counter.trans (Nat.zero_add _)⟩

-- names that are asked for, rules that go, and a listing, with generated names in between
example : ({} : Rulebook).generated
    [.insert (some "Rule0") none "cat" "pets", .insert (some "Rule1") none "dog" "pets",
      .insert none (some "7") "owl" "birds", .insert (some "") (some "7") "jay" "birds",
      .insert (some "") none "hen" "farm", .clear,
      .merge [⟨"7", "owl", "birds"⟩, ⟨"8", "cow", "farm"⟩, ⟨"7", "jay", "birds"⟩],
      .removeByName "Rule2", .insert none none "cat" "pets"] =
    ["Rule0(1)", "Rule1(1)", "Rule2", "Rule3", "Rule4"] := by
  decide +kernel

end Rulebook
end RuleDesk
