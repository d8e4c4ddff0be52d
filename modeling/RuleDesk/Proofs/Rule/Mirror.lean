import RuleDesk.Proofs.Rule.Book
import Mathlib.Data.List.Forall2

/-!
# Rulebooks that mirror a listing

A rulebook mirrors a listing if its rules carry the ids, texts and tags of the
entries, in the same order. What the desk does to both sides keeps it so: an
entry at the end, the removal of one rule, and a merge of the listing. The ids of
the listing are distinct throughout.
-/
namespace RuleDesk

namespace Rulebook

def Mirrors (b : Rulebook) (listing : List ListedRule) : Prop :=
  List.Forall₂ Rule.Mirrors b.rules listing

variable {b : Rulebook} {listing : List ListedRule}

theorem exists_entry {rules : List Rule} (h : List.Forall₂ Rule.Mirrors rules listing)
    {rule : Rule} (hrule : rule ∈ rules) : ∃ entry ∈ listing, rule.Mirrors entry := by
  induction h with
  | nil => cases hrule
  | @cons first entry rules listing hhead _ ih =>
      rcases List.mem_cons.mp hrule with rfl | hlater
      · exact ⟨entry, by simp, hhead⟩
      · obtain ⟨other, hother, hmatch⟩ := ih hlater
        exact ⟨other, by simp [hother], hmatch⟩

theorem Mirrors.map_eq (h : b.Mirrors listing) :
    b.rules.map (fun rule => (rule.id, rule.expression, rule.tag)) =
      listing.map fun entry => (some entry.id, entry.text, entry.tag) := by
  unfold Mirrors at h
  generalize b.rules = rules at h ⊢
  induction h with
  | nil => rfl
  | cons hhead _ ih =>
      rw [List.map_cons, List.map_cons, ih, hhead.id, hhead.expression, hhead.tag]

theorem Mirrors.byId?_eq_none (h : b.Mirrors listing) {id : RuleId}
    (hid : id ∉ listing.map ListedRule.id) : b.byId? id = none := by
  unfold Mirrors at h
  unfold byId?
  generalize b.rules = rules at h ⊢
  induction h with
  | nil => rfl
  | @cons rule entry rules listing hhead _ ih =>
      rw [List.map_cons, List.mem_cons, not_or] at hid
      rw [List.find?_cons_of_neg (by simpa [hhead.id] using Ne.symm hid.1)]
      exact ih hid.2

/-- Distinct entries of a mirrored listing are shown. -/
theorem Mirrors.shows (h : b.Mirrors listing) (hids : (listing.map ListedRule.id).Nodup)
    {entry : ListedRule} (hentry : entry ∈ listing) : b.Shows entry := by
  unfold Mirrors at h
  unfold Shows byId?
  generalize b.rules = rules at h ⊢
  induction h with
  | nil => cases hentry
  | @cons rule first rules listing hhead _ ih =>
      rw [List.map_cons, List.nodup_cons] at hids
      rcases List.mem_cons.mp hentry with rfl | hlater
      · exact ⟨rule, List.find?_cons_of_pos (by simp [hhead.id]), hhead⟩
      · have hne : first.id ≠ entry.id := fun heq =>
          hids.1 (heq ▸ List.mem_map_of_mem hlater)
        rw [List.find?_cons_of_neg (by simpa [hhead.id] using hne)]
        exact ih hids.2 hlater

/-- A new id is inserted at the end, under whichever name. -/
theorem Mirrors.insert (h : b.Mirrors listing) {id : RuleId}
    (hid : id ∉ listing.map ListedRule.id) (name? : Option String) (text tag : String) :
    (b.insert name? (some id) text tag).2.Mirrors (listing ++ [⟨id, text, tag⟩]) := by
  rw [insert_new (h.byId?_eq_none hid)]
  exact List.rel_append h (.cons ⟨rfl, rfl, rfl⟩ .nil)

/-- The first rule that is wanted goes from the book, and the entry of its id from
the listing: with distinct ids they stand at the same place. -/
theorem Mirrors.erase (h : b.Mirrors listing) (hids : (listing.map ListedRule.id).Nodup)
    {wanted : Rule → Bool} {rule : Rule} (hfound : b.rules.find? wanted = some rule)
    {id : RuleId} (hid : rule.id = some id) :
    ({ b with rules := b.rules.eraseP wanted } : Rulebook).Mirrors
      (listing.eraseP (·.id == id)) := by
  unfold Mirrors at h ⊢
  generalize b.rules = rules at h hfound ⊢
  induction h with
  | nil => cases hfound
  | @cons first entry rules listing hhead htail ih =>
      rw [List.map_cons, List.nodup_cons] at hids
      by_cases hwanted : wanted first = true
      · rw [List.find?_cons_of_pos hwanted] at hfound
        cases hfound
        have hsame : entry.id = id := Option.some.inj (hhead.id.symm.trans hid)
        rw [List.eraseP_cons_of_pos hwanted, List.eraseP_cons_of_pos (by simp [hsame])]
        exact htail
      · -- the rule comes later, and so does the entry of its id
        rw [List.find?_cons_of_neg hwanted] at hfound
        obtain ⟨other, hother, hmatch⟩ := exists_entry htail (List.mem_of_find?_eq_some hfound)
        have hne : entry.id ≠ id := by
          have hsame : other.id = id := Option.some.inj (hmatch.id.symm.trans hid)
          exact fun heq => hids.1 (heq.trans hsame.symm ▸ List.mem_map_of_mem hother)
        rw [List.eraseP_cons_of_neg hwanted, List.eraseP_cons_of_neg (by simpa using hne)]
        exact .cons hhead (ih hids.2 hfound)

theorem Mirrors.clear : b.clear.Mirrors [] := .nil

/-- Entries that are mirrored already change and report nothing. -/
theorem Mirrors.mergeEntries_eq (h : b.Mirrors listing)
    (hids : (listing.map ListedRule.id).Nodup) (report : SyncReport)
    {entries : List ListedRule} (hentries : ∀ entry ∈ entries, entry ∈ listing) :
    b.mergeEntries report entries = (b, report) := by
  induction entries with
  | nil => rfl
  | cons entry entries ih =>
      have hshows : b.Shows entry := h.shows hids (hentries entry (by simp))
      unfold mergeEntries
      rw [hshows.mergeEntry_eq]
      exact ih fun other hother => hentries other (by simp [hother])

theorem Mirrors.unlisted_eq (h : b.Mirrors listing) : b.unlisted listing = [] := by
  unfold unlisted
  rw [List.map_eq_nil_iff, List.filter_eq_nil_iff]
  intro rule hrule
  obtain ⟨entry, hentry, hmatch⟩ := exists_entry h hrule
  simp only [Bool.not_eq_true', Bool.not_eq_false, List.any_eq_true]
  exact ⟨entry, hentry, by simp [hmatch.id]⟩

/-- A merge of the mirrored listing leaves the book as it is and reports nothing. -/
theorem Mirrors.merge_eq (h : b.Mirrors listing) (hids : (listing.map ListedRule.id).Nodup) :
    b.merge listing = (b, {}) := by
  unfold merge
  rw [h.mergeEntries_eq hids {} fun _ hentry => hentry]
  simp [h.unlisted_eq]

/-- Entries under new ids are taken over one after the other. -/
theorem Mirrors.mergeEntries {entries : List ListedRule} (h : b.Mirrors listing)
    (hids : ((listing ++ entries).map ListedRule.id).Nodup) (report : SyncReport) :
    (b.mergeEntries report entries).1.Mirrors (listing ++ entries) := by
  induction entries generalizing b listing report with
  | nil => simpa [Rulebook.mergeEntries] using h
  | cons entry entries ih =>
      have hid : entry.id ∉ listing.map ListedRule.id := by
        intro hmem
        rw [List.map_append, List.map_cons] at hids
        exact (List.nodup_append.mp hids).2.2 entry.id hmem entry.id (by simp) rfl
      have hnone : b.byId? entry.id = none := h.byId?_eq_none hid
      have hsplit : listing ++ entry :: entries = (listing ++ [entry]) ++ entries := by simp
      unfold Rulebook.mergeEntries mergeEntry
      simp only [hnone]
      rw [hsplit] at hids ⊢
      exact ih (h.insert hid none entry.text entry.tag) hids _

/-- A merge into an empty book makes it mirror the listing. -/
theorem merge_mirrors (hb : b.rules = []) (hids : (listing.map ListedRule.id).Nodup) :
    (b.merge listing).1.Mirrors listing := by
  have hempty : b.Mirrors [] := by
    unfold Mirrors
    rw [hb]
    exact .nil
  exact hempty.mergeEntries hids {}

end Rulebook
end RuleDesk
