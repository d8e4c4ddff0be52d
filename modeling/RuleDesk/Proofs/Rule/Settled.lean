import RuleDesk.Proofs.Rule.Book

/-!
# Merging a listing again

A merge goes through the listing entry by entry, so of several entries with one id the last
one decides. A book that has been merged with a listing is therefore left as it is by
another merge: whatever an entry changes on the way is changed back by the last entry of its
id. But each such change is reported, and so the second report is silent only if entries
with one id are the same.
-/
namespace RuleDesk.Rulebook

variable {b : Rulebook} {entry : ListedRule} {listing : List ListedRule}

/-- Entries behind which no other one of their id comes are shown. -/
def Settled (b : Rulebook) : List ListedRule → Prop
  | [] => True
  | entry :: rest => (entry.id ∈ rest.map ListedRule.id ∨ b.Shows entry) ∧ b.Settled rest

theorem Shows.eq_of_id {other : ListedRule} (h : b.Shows entry) (hother : b.Shows other)
    (hid : entry.id = other.id) : entry = other := by
  obtain ⟨rule, hrule, hmatch⟩ := h
  obtain ⟨same, hsame, hothers⟩ := hother
  rw [hid, hsame] at hrule
  obtain rfl := Option.some.inj hrule
  cases entry
  cases other
  cases hid
  cases hmatch.expression.symm.trans hothers.expression
  cases hmatch.tag.symm.trans hothers.tag
  rfl

theorem byId?_mergeEntries_other {id : RuleId} (hid : id ∉ listing.map ListedRule.id)
    (report : SyncReport) : (b.mergeEntries report listing).1.byId? id = b.byId? id := by
  induction listing generalizing b report with
  | nil => rfl
  | cons entry rest ih =>
      rw [List.map_cons, List.mem_cons, not_or] at hid
      rw [mergeEntries_cons, ih hid.2, byId?_mergeEntry_other (Ne.symm hid.1)]

/-- A merged listing is settled. -/
theorem settled_mergeEntries (b : Rulebook) (report : SyncReport) (listing : List ListedRule) :
    (b.mergeEntries report listing).1.Settled listing := by
  induction listing generalizing b report with
  | nil => trivial
  | cons entry rest ih =>
      rw [mergeEntries_cons]
      refine ⟨?_, ih _ _⟩
      by_cases hlater : entry.id ∈ rest.map ListedRule.id
      · exact .inl hlater
      · -- what the entry has left under its id is not touched any more
        obtain ⟨rule, hrule, hmatch⟩ := mergeEntry_shows b report entry
        exact .inr ⟨rule, by rw [byId?_mergeEntries_other hlater, hrule], hmatch⟩

/-- For each entry the last one of its id is shown. -/
theorem Settled.exists_shown (h : b.Settled listing) {id : RuleId}
    (hid : id ∈ listing.map ListedRule.id) : ∃ last ∈ listing, last.id = id ∧ b.Shows last := by
  induction listing with
  | nil => cases hid
  | cons entry rest ih =>
      obtain ⟨hentry, hrest⟩ := h
      have hlater (hmem : id ∈ rest.map ListedRule.id) :
          ∃ last ∈ entry :: rest, last.id = id ∧ b.Shows last := by
        obtain ⟨last, hlast, hsame, hshows⟩ := ih hrest hmem
        exact ⟨last, List.mem_cons_of_mem _ hlast, hsame, hshows⟩
      rcases List.mem_cons.mp hid with rfl | hmem
      · rcases hentry with hmem | hshows
        · exact hlater hmem
        · exact ⟨entry, List.mem_cons_self, rfl, hshows⟩
      · exact hlater hmem

theorem Settled.known (h : b.Settled listing) :
    ∀ entry ∈ listing, (b.byId? entry.id).isSome = true := by
  intro entry hentry
  obtain ⟨last, -, hid, rule, hrule, -⟩ := h.exists_shown (List.mem_map_of_mem hentry)
  rw [← hid, hrule]
  rfl

/-- All entries are shown if none of them has its id with another entry. -/
theorem Settled.forall_shows_iff (h : b.Settled listing) :
    (∀ entry ∈ listing, b.Shows entry) ↔
      ∀ entry ∈ listing, ∀ other ∈ listing, entry.id = other.id → entry = other := by
  constructor
  · intro hall entry hentry other hother hid
    exact (hall entry hentry).eq_of_id (hall other hother) hid
  · intro hsame entry hentry
    obtain ⟨last, hlast, hid, hshows⟩ := h.exists_shown (List.mem_map_of_mem hentry)
    rwa [hsame entry hentry last hlast hid.symm]

theorem isSome_byId?_revise (b : Rulebook) (entry : ListedRule) (id : RuleId) :
    ((b.revise entry).byId? id).isSome = (b.byId? id).isSome := by
  rw [Bool.eq_iff_iff, isSome_byId?_iff, isSome_byId?_iff, revise, map_id_reviseFirst]

theorem mergeEntry_known (hknown : (b.byId? entry.id).isSome = true) (report : SyncReport) :
    (b.mergeEntry report entry).1 = b.revise entry := by
  by_cases hshows : b.Shows entry
  · rw [hshows.mergeEntry_eq, hshows.revise_eq]
  · obtain ⟨rule, hrule⟩ := Option.isSome_iff_exists.mp hknown
    rw [mergeEntry_of_known hrule hshows]

/-- A listing of known ids revises the book entry by entry. -/
theorem mergeEntries_known (hknown : ∀ entry ∈ listing, (b.byId? entry.id).isSome = true)
    (report : SyncReport) : (b.mergeEntries report listing).1 = listing.foldl revise b := by
  induction listing generalizing b report with
  | nil => rfl
  | cons entry rest ih =>
      obtain ⟨hentry, hrest⟩ := List.forall_mem_cons.mp hknown
      rw [mergeEntries_cons, List.foldl_cons, mergeEntry_known hentry]
      exact ih (fun other hother => by rw [isSome_byId?_revise]; exact hrest other hother) _

/-- A revision does not matter if a later one has its id. -/
theorem foldl_revise_absorb (hlater : entry.id ∈ listing.map ListedRule.id) :
    listing.foldl revise (b.revise entry) = listing.foldl revise b := by
  induction listing generalizing b with
  | nil => cases hlater
  | cons other rest ih =>
      rw [List.foldl_cons, List.foldl_cons]
      by_cases hid : entry.id = other.id
      · have hover : (b.revise entry).revise other = b.revise other := by
          unfold revise
          rw [hid, reviseFirst_reviseFirst]
        rw [hover]
      · have hswap : (b.revise entry).revise other = (b.revise other).revise entry := by
          unfold revise
          rw [reviseFirst_comm (Ne.symm hid)]
        rw [hswap, ih ((List.mem_cons.mp hlater).resolve_left hid)]

/-- Whatever a settled listing changes on the way, it changes back. -/
theorem Settled.foldl_revise_eq (h : b.Settled listing) : listing.foldl revise b = b := by
  induction listing with
  | nil => rfl
  | cons entry rest ih =>
      rw [List.foldl_cons]
      rcases h.1 with hlater | hshows
      · rw [foldl_revise_absorb hlater, ih h.2]
      · rw [hshows.revise_eq, ih h.2]

theorem updated_mergeEntry (hknown : (b.byId? entry.id).isSome = true) (report : SyncReport) :
    (b.mergeEntry report entry).2.pulled = report.pulled ∧
      report.updated.length ≤ (b.mergeEntry report entry).2.updated.length ∧
      ((b.mergeEntry report entry).2.updated.length = report.updated.length ↔ b.Shows entry) := by
  by_cases hshows : b.Shows entry
  · simp [hshows.mergeEntry_eq, hshows]
  · obtain ⟨rule, hrule⟩ := Option.isSome_iff_exists.mp hknown
    simp [mergeEntry_of_known hrule hshows, hshows]

/-- Entries of known ids are never reported as new, and as updated exactly if they are not
all shown. -/
theorem report_mergeEntries (hknown : ∀ entry ∈ listing, (b.byId? entry.id).isSome = true)
    (report : SyncReport) :
    (b.mergeEntries report listing).2.pulled = report.pulled ∧
      report.updated.length ≤ (b.mergeEntries report listing).2.updated.length ∧
      ((b.mergeEntries report listing).2.updated.length = report.updated.length ↔
        ∀ entry ∈ listing, b.Shows entry) := by
  induction listing generalizing b report with
  | nil => simp [mergeEntries]
  | cons entry rest ih =>
      obtain ⟨hentry, hrest⟩ := List.forall_mem_cons.mp hknown
      have hkept : ∀ other ∈ rest,
          ((b.mergeEntry report entry).1.byId? other.id).isSome = true := fun other hother => by
        rw [mergeEntry_known hentry, isSome_byId?_revise]
        exact hrest other hother
      obtain ⟨hpulled, hlonger, hsame⟩ := updated_mergeEntry hentry report
      obtain ⟨hpulledRest, hlongerRest, hsameRest⟩ := ih hkept (b.mergeEntry report entry).2
      rw [mergeEntries_cons, List.forall_mem_cons]
      refine ⟨hpulledRest.trans hpulled, Nat.le_trans hlonger hlongerRest, ?_⟩
      constructor
      · intro hlength
        have hshows : b.Shows entry := hsame.mp (by omega)
        refine ⟨hshows, ?_⟩
        have hall := hsameRest.mp (by omega)
        rwa [hshows.mergeEntry_eq] at hall
      · rintro ⟨hshows, hall⟩
        have hlength := hsame.mpr hshows
        rw [← hlength]
        apply hsameRest.mpr
        rwa [hshows.mergeEntry_eq]

/-- A listing that is merged a second time leaves the book as it is. The second report tells
of no new rule and the same unlisted ones, and of no updated rule exactly if no two entries
differ under one id. -/
theorem merge_again (b : Rulebook) (listing : List ListedRule) :
    ((b.merge listing).1.merge listing).1 = (b.merge listing).1 ∧
      ((b.merge listing).1.merge listing).2.pulled = [] ∧
      ((b.merge listing).1.merge listing).2.unlisted = (b.merge listing).2.unlisted ∧
      (((b.merge listing).1.merge listing).2.updated = [] ↔
        ∀ entry ∈ listing, ∀ other ∈ listing, entry.id = other.id → entry = other) := by
  have hsettled : (b.merge listing).1.Settled listing := settled_mergeEntries b {} listing
  have hsame : ((b.merge listing).1.merge listing).1 = (b.merge listing).1 :=
    (mergeEntries_known hsettled.known {}).trans hsettled.foldl_revise_eq
  obtain ⟨hpulled, -, hupdated⟩ := report_mergeEntries hsettled.known {}
  refine ⟨hsame, hpulled, ?_, ?_⟩
  · exact congrArg (unlisted · listing) hsame
  · rw [← hsettled.forall_shows_iff, ← hupdated]
    exact List.length_eq_zero_iff.symm

end RuleDesk.Rulebook
