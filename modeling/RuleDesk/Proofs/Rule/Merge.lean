import RuleDesk.Proofs.Rule.Requests
import RuleDesk.Proofs.Rule.Settled

/-!
# What a merge leaves and reports

A merge goes through the listing while the book changes. Each entry revises the rule of its id
wherever that stands, be it an old rule or one that an earlier entry has brought in, or else it
brings in a rule at the end. So after the listing every old rule is as the last entry of its id
has it, and behind the old rules come those of the new ids in order of first appearance.
-/
namespace RuleDesk

/-- The last entry of a listing that has the id. -/
def ListedRule.last? (listing : List ListedRule) (id : RuleId) : Option ListedRule :=
  listing.reverse.find? (·.id == id)

theorem ListedRule.last?_cons (entry : ListedRule) (rest : List ListedRule) (id : RuleId) :
    last? (entry :: rest) id =
      (last? rest id).or (if entry.id = id then some entry else none) := by
  unfold last?
  rw [List.reverse_cons, List.find?_append, List.find?_singleton]
  simp only [beq_iff_eq]

namespace Rule

/-- The rule with the text and tag of an entry that has its id. -/
def revisedBy (rule : Rule) (entry : ListedRule) : Rule :=
  if rule.id = some entry.id then { rule with expression := entry.text, tag := entry.tag }
  else rule

/-- The rule with the text and tag that a listing has last under its id. -/
def asListed (rule : Rule) (listing : List ListedRule) : Rule :=
  match rule.id.bind (ListedRule.last? listing) with
  | some last => { rule with expression := last.text, tag := last.tag }
  | none => rule

variable {rule : Rule} {entry : ListedRule} {listing : List ListedRule}

@[simp] theorem revisedBy_name (rule : Rule) (entry : ListedRule) :
    (rule.revisedBy entry).name = rule.name := by
  unfold revisedBy
  split <;> rfl

@[simp] theorem revisedBy_id (rule : Rule) (entry : ListedRule) :
    (rule.revisedBy entry).id = rule.id := by
  unfold revisedBy
  split <;> rfl

theorem revisedBy_of_ne (h : rule.id ≠ some entry.id) : rule.revisedBy entry = rule := if_neg h

theorem map_revisedBy_of_ne {rules : List Rule} (h : ∀ rule ∈ rules, rule.id ≠ some entry.id) :
    rules.map (·.revisedBy entry) = rules :=
  (List.map_congr_left fun rule hrule => revisedBy_of_ne (h rule hrule)).trans rules.map_id'

theorem Mirrors.revisedBy_eq (h : rule.Mirrors entry) : rule.revisedBy entry = rule := by
  rw [revisedBy, if_pos h.id, ← h.expression, ← h.tag]

@[simp] theorem asListed_name (rule : Rule) (listing : List ListedRule) :
    (rule.asListed listing).name = rule.name := by
  unfold asListed
  split <;> rfl

@[simp] theorem asListed_id (rule : Rule) (listing : List ListedRule) :
    (rule.asListed listing).id = rule.id := by
  unfold asListed
  split <;> rfl

@[simp] theorem asListed_nil (rule : Rule) : rule.asListed [] = rule := by
  unfold asListed
  cases rule.id <;> rfl

/-- Later entries go over what the first one has left. -/
theorem asListed_cons (rule : Rule) (entry : ListedRule) (rest : List ListedRule) :
    rule.asListed (entry :: rest) = (rule.revisedBy entry).asListed rest := by
  unfold asListed
  rw [revisedBy_id]
  cases hid : rule.id with
  | none => simp [revisedBy, hid]
  | some id =>
      simp only [Option.bind_some, ListedRule.last?_cons]
      cases ListedRule.last? rest id with
      | some last =>
          simp only [Option.some_or, revisedBy]
          split <;> rfl
      | none =>
          by_cases hentry : entry.id = id
          · simp [revisedBy, hid, hentry]
          · simp [revisedBy, hid, hentry, Ne.symm hentry]

/-- A rule that no entry of its id differs from stays as it is. -/
theorem asListed_of_mirrors
    (h : ∀ entry ∈ listing, rule.id = some entry.id → rule.Mirrors entry) :
    rule.asListed listing = rule := by
  induction listing with
  | nil => exact asListed_nil rule
  | cons entry rest ih =>
      obtain ⟨hentry, hrest⟩ := List.forall_mem_cons.mp h
      have hsame : rule.revisedBy entry = rule := by
        by_cases hid : rule.id = some entry.id
        · exact (hentry hid).revisedBy_eq
        · exact revisedBy_of_ne hid
      rw [asListed_cons, hsame, ih hrest]

end Rule

namespace Rulebook

variable {b : Rulebook} {rule : Rule} {entry : ListedRule} {listing : List ListedRule}

theorem Settled.last_shown (h : b.Settled listing) {id : RuleId} {last : ListedRule}
    (hlast : ListedRule.last? listing id = some last) : b.Shows last := by
  induction listing with
  | nil => cases hlast
  | cons entry rest ih =>
      rw [ListedRule.last?_cons] at hlast
      cases hlater : ListedRule.last? rest id with
      | some later =>
          rw [hlater, Option.some_or] at hlast
          exact ih h.2 (hlater.trans hlast)
      | none =>
          rw [hlater, Option.none_or, Option.ite_none_right_eq_some] at hlast
          obtain ⟨hid, hsame⟩ := hlast
          obtain rfl := Option.some.inj hsame
          refine h.1.resolve_left fun hmem => ?_
          obtain ⟨other, hother, hsame⟩ := List.mem_map.mp hmem
          have hnone := List.find?_eq_none.mp hlater other (List.mem_reverse.mpr hother)
          exact hnone (by simp [hsame, hid])

theorem exists_last {id : RuleId} (h : id ∈ listing.map ListedRule.id) :
    ∃ last, ListedRule.last? listing id = some last ∧ last.id = id := by
  obtain ⟨entry, hentry, hid⟩ := List.mem_map.mp h
  have hsome : (ListedRule.last? listing id).isSome = true :=
    List.find?_isSome.mpr ⟨entry, List.mem_reverse.mpr hentry, by simpa using hid⟩
  obtain ⟨last, hlast⟩ := Option.isSome_iff_exists.mp hsome
  exact ⟨last, hlast, by simpa using List.find?_some hlast⟩

theorem Sound.filter_id (h : b.Sound) {id : RuleId} (hrule : b.byId? id = some rule) :
    b.rules.filter (·.id == some id) = [rule] := by
  obtain ⟨hmem, hid⟩ := h.byId?_eq_some_iff.mp hrule
  exact filter_eq_singleton (h.one_of_id id) hmem (by simpa using hid)

/-- With distinct ids the first rule of an id is the only one that a revision changes. -/
theorem reviseFirst_eq_map {rules : List Rule}
    (h : rules.Pairwise fun r s =>
      (r.id == some entry.id) = true → (s.id == some entry.id) = false) :
    reviseFirst entry.id entry.text entry.tag rules = rules.map (·.revisedBy entry) := by
  induction h with
  | nil => rfl
  | @cons rule rules hlater _ ih =>
      by_cases hrule : rule.id = some entry.id
      · have hothers : ∀ other ∈ rules, other.id ≠ some entry.id := fun other hother => by
          simpa using hlater other hother (by simpa using hrule)
        rw [List.map_cons, Rule.map_revisedBy_of_ne hothers]
        simp [reviseFirst, Rule.revisedBy, hrule]
      · rw [List.map_cons, Rule.revisedBy_of_ne hrule, ← ih]
        simp [reviseFirst, hrule]

theorem id_mem_iff {id : RuleId} :
    id ∈ b.rules.filterMap Rule.id ↔ (b.byId? id).isSome = true := by
  rw [isSome_byId?_iff, List.mem_filterMap, List.mem_map]

theorem filterMap_id_of_map_id {rules : List Rule} {ids : List RuleId}
    (h : rules.map Rule.id = ids.map some) : rules.filterMap Rule.id = ids := by
  have hids := congrArg (List.filterMap fun id? => id?) h
  rw [List.filterMap_map, List.filterMap_map] at hids
  exact hids.trans (by simp)

theorem filterMap_id_of_map {f : Rule → Rule} (hf : ∀ rule, (f rule).id = rule.id)
    (rules : List Rule) : (rules.map f).filterMap Rule.id = rules.filterMap Rule.id := by
  rw [List.filterMap_map]
  exact List.filterMap_congr fun rule _ => hf rule

/-- One entry revises the rules in place, and brings in a rule if its id is new. -/
theorem Sound.exists_mergeEntry (h : b.Sound) (report : SyncReport) (entry : ListedRule) :
    ∃ new : List Rule, (b.mergeEntry report entry).1.rules =
        b.rules.map (·.revisedBy entry) ++ new ∧
      new.map Rule.id = (newcomers (b.rules.filterMap Rule.id) [entry.id]).map some ∧
      (b.mergeEntry report entry).2.pulled = report.pulled ++ new.map Rule.name := by
  cases hfound : b.byId? entry.id with
  | some known =>
      have hknown : (b.byId? entry.id).isSome = true := by rw [hfound]; rfl
      refine ⟨[], ?_, ?_, ?_⟩
      · rw [mergeEntry_known hknown, revise, reviseFirst_eq_map (h.one_of_id entry.id),
          List.append_nil]
      · rw [newcomers_of_mem (id_mem_iff.mpr hknown)]
        rfl
      · simpa using (updated_mergeEntry hknown report).1
  | none =>
      have hnew : entry.id ∉ b.rules.filterMap Rule.id := id_not_mem hfound
      have hsame : b.rules.map (·.revisedBy entry) = b.rules :=
        Rule.map_revisedBy_of_ne fun rule hrule hid =>
          hnew (List.mem_filterMap.mpr ⟨rule, hrule, hid⟩)
      rw [Rulebook.mergeEntry, hfound, insert_new hfound, hsame, newcomers_of_not_mem hnew]
      exact ⟨_, rfl, rfl, rfl⟩

/-- A listing revises the old rules in place and brings in rules of its new ids. -/
theorem Sound.exists_mergeEntries (h : b.Sound) (report : SyncReport)
    (listing : List ListedRule) :
    ∃ new : List Rule, (b.mergeEntries report listing).1.rules =
        b.rules.map (·.asListed listing) ++ new ∧
      new.map Rule.id =
        (newcomers (b.rules.filterMap Rule.id) (listing.map ListedRule.id)).map some ∧
      (b.mergeEntries report listing).2.pulled = report.pulled ++ new.map Rule.name := by
  induction listing generalizing b report with
  | nil => exact ⟨[], by simp [Rulebook.mergeEntries], rfl, by simp [Rulebook.mergeEntries]⟩
  | cons entry rest ih =>
      obtain ⟨first, hrules, hids, hpulled⟩ := h.exists_mergeEntry report entry
      obtain ⟨later, hrulesRest, hidsRest, hpulledRest⟩ :=
        ih (h.mergeEntry report entry) (b.mergeEntry report entry).2
      have hknown : (b.mergeEntry report entry).1.rules.filterMap Rule.id =
          b.rules.filterMap Rule.id ++ newcomers (b.rules.filterMap Rule.id) [entry.id] := by
        rw [hrules, List.filterMap_append, filterMap_id_of_map_id hids,
          filterMap_id_of_map (Rule.revisedBy_id · entry)]
      rw [mergeEntries_cons]
      -- what the first entry has brought in is revised by the later ones like an old rule
      refine ⟨first.map (·.asListed rest) ++ later, ?_, ?_, ?_⟩
      · rw [hrulesRest, hrules, List.map_append, List.map_map, List.append_assoc]
        refine congrArg (· ++ _) (List.map_congr_left fun rule _ => ?_)
        rw [Rule.asListed_cons, Function.comp_apply]
      · have hfirst : (first.map (·.asListed rest)).map Rule.id = first.map Rule.id := by
          simp [Function.comp_def]
        rw [List.map_append, hfirst, hids, hidsRest, hknown, List.map_cons,
          newcomers_cons _ _ (rest.map ListedRule.id), List.map_append]
      · have hfirst : (first.map (·.asListed rest)).map Rule.name = first.map Rule.name := by
          simp [Function.comp_def]
        rw [hpulledRest, hpulled, List.map_append, hfirst, List.append_assoc]

/-- An entry that differs from the rule of its id reports that rule. -/
theorem Sound.mem_updated_mergeEntry (h : b.Sound) (hrule : rule ∈ b.rules)
    (report : SyncReport) (entry : ListedRule) :
    rule.name ∈ (b.mergeEntry report entry).2.updated ↔
      rule.name ∈ report.updated ∨ rule.id = some entry.id ∧ ¬rule.Mirrors entry := by
  by_cases hshows : b.Shows entry
  · rw [hshows.mergeEntry_eq]
    obtain ⟨shown, hshown, hmirrors⟩ := hshows
    refine (or_iff_left ?_).symm
    rintro ⟨hid, hdiffers⟩
    have hsame : b.byId? entry.id = some rule := h.byId?_eq_some_iff.mpr ⟨hrule, hid⟩
    exact hdiffers (Option.some.inj (hsame.symm.trans hshown) ▸ hmirrors)
  · cases hfound : b.byId? entry.id with
    | none =>
        have hother : rule.id ≠ some entry.id := fun hid =>
          id_not_mem hfound (List.mem_filterMap.mpr ⟨rule, hrule, hid⟩)
        simp [Rulebook.mergeEntry, hfound, hother]
    | some known =>
        obtain ⟨hknown, hid⟩ := h.byId?_eq_some_iff.mp hfound
        have hdiffers : ¬known.Mirrors entry := fun hmirrors => hshows ⟨known, hfound, hmirrors⟩
        rw [mergeEntry_of_known hfound hshows, List.mem_append, List.mem_singleton]
        refine or_congr_right ⟨fun hname => ?_, fun hdiffer => ?_⟩
        · obtain rfl : rule = known := List.inj_on_of_nodup_map h.names hrule hknown hname
          exact ⟨hid, hdiffers⟩
        · have hsame : b.byId? entry.id = some rule :=
            h.byId?_eq_some_iff.mpr ⟨hrule, hdiffer.1⟩
          rw [Option.some.inj (hsame.symm.trans hfound)]

/-- An old rule is reported as updated if any entry of its id differs from it. -/
theorem Sound.mem_updated_mergeEntries (h : b.Sound) (hrule : rule ∈ b.rules)
    (report : SyncReport) (listing : List ListedRule) :
    rule.name ∈ (b.mergeEntries report listing).2.updated ↔
      rule.name ∈ report.updated ∨
        ∃ entry ∈ listing, rule.id = some entry.id ∧ ¬rule.Mirrors entry := by
  induction listing generalizing b rule report with
  | nil => simp [Rulebook.mergeEntries]
  | cons entry rest ih =>
      obtain ⟨new, hrules, -, -⟩ := h.exists_mergeEntry report entry
      have hmerged : rule.revisedBy entry ∈ (b.mergeEntry report entry).1.rules :=
        hrules ▸ List.mem_append_left new (List.mem_map_of_mem hrule)
      have hrest := ih (h.mergeEntry report entry) hmerged (b.mergeEntry report entry).2
      rw [Rule.revisedBy_name, h.mem_updated_mergeEntry hrule] at hrest
      rw [mergeEntries_cons, hrest, List.exists_mem_cons_iff]
      by_cases hdiffers : rule.id = some entry.id ∧ ¬rule.Mirrors entry
      · simp [hdiffers]
      · -- the entry has left the rule as it was
        have hsame : rule.revisedBy entry = rule := by
          by_cases hid : rule.id = some entry.id
          · exact (of_not_not fun hne => hdiffers ⟨hid, hne⟩ : rule.Mirrors entry).revisedBy_eq
          · exact Rule.revisedBy_of_ne hid
        rw [hsame, or_iff_left hdiffers]
        simp [hdiffers]

/-- Rules that come with a listing are listed, so that the unlisted rules are old ones. -/
theorem Sound.unlisted_merge (h : b.Sound) (listing : List ListedRule) :
    (b.merge listing).2.unlisted =
      (b.rules.filter fun rule => ∀ entry ∈ listing, rule.id ≠ some entry.id).map Rule.name := by
  obtain ⟨new, hrules, hids, -⟩ := h.exists_mergeEntries {} listing
  have hunlisted (rule : Rule) : (!listing.any fun entry => rule.id == some entry.id) =
      decide (∀ entry ∈ listing, rule.id ≠ some entry.id) := by
    rw [Bool.eq_iff_iff]
    simp
  have hnew : new.filter (fun rule => ∀ entry ∈ listing, rule.id ≠ some entry.id) = [] := by
    refine List.filter_eq_nil_iff.mpr fun rule hrule hnone => ?_
    have hid : rule.id ∈ new.map Rule.id := List.mem_map_of_mem hrule
    rw [hids] at hid
    obtain ⟨id, hid, hsome⟩ := List.mem_map.mp hid
    obtain ⟨entry, hentry, rfl⟩ := List.mem_map.mp (mem_of_mem_newcomers hid)
    exact of_decide_eq_true hnone entry hentry hsome.symm
  change (b.mergeEntries {} listing).1.unlisted listing = _
  simp only [unlisted, hunlisted]
  rw [hrules, List.filter_append, hnew, List.append_nil, List.filter_map, List.map_map]
  simp [Function.comp_def]

/-- After whatever requests and a merge, each listed id is that of one rule, which has the text
and tag of the last entry of the id. Rules that are not listed are as they were. The old rules
keep names, ids and places, and behind them come those of the new ids in order of first
appearance. The report tells the names of these rules, those of the rules that are not listed,
and, of the old rules, those that some entry of their id differs from: among them are all that
the merge has changed. -/
theorem merge_leaves_listed_state (stem : String) (requests : List RulebookRequest)
    (listing : List ListedRule) :
    let b := ({ stem } : Rulebook).run requests
    let merged := (b.merge listing).1
    let report := (b.merge listing).2
    (∀ id ∈ listing.map ListedRule.id, ∃ rule last,
      merged.rules.filter (·.id == some id) = [rule] ∧
        ListedRule.last? listing id = some last ∧ rule.Mirrors last) ∧
    (∀ rule ∈ b.rules, (∀ entry ∈ listing, rule.id ≠ some entry.id) →
      rule.asListed listing = rule) ∧
    (∃ new : List Rule, merged.rules = b.rules.map (·.asListed listing) ++ new ∧
      merged.rules.map Rule.knownBy = b.rules.map Rule.knownBy ++ new.map Rule.knownBy ∧
      new.map Rule.id =
        (newcomers (b.rules.filterMap Rule.id) (listing.map ListedRule.id)).map some ∧
      report.pulled = new.map Rule.name) ∧
    report.unlisted =
      (b.rules.filter fun rule => ∀ entry ∈ listing, rule.id ≠ some entry.id).map Rule.name ∧
    ∀ rule ∈ b.rules, (rule.asListed listing ≠ rule → rule.name ∈ report.updated) ∧
      (rule.name ∈ report.updated ↔
        ∃ entry ∈ listing, rule.id = some entry.id ∧ ¬rule.Mirrors entry) := by
  intro b merged report
  have hb : b.Sound := (sound_empty stem).run requests
  have hupdated (rule : Rule) (hrule : rule ∈ b.rules) : rule.name ∈ report.updated ↔
      ∃ entry ∈ listing, rule.id = some entry.id ∧ ¬rule.Mirrors entry :=
    (hb.mem_updated_mergeEntries hrule {} listing).trans (or_iff_right List.not_mem_nil)
  refine ⟨fun id hid => ?_, fun rule _ hother => ?_, ?_, hb.unlisted_merge listing,
    fun rule hrule => ⟨fun hchanged => ?_, hupdated rule hrule⟩⟩
  · obtain ⟨last, hlast, rfl⟩ := exists_last hid
    obtain ⟨rule, hrule, hmirrors⟩ := (settled_mergeEntries b {} listing).last_shown hlast
    exact ⟨rule, last, (hb.mergeEntries {} listing).filter_id hrule, hlast, hmirrors⟩
  · exact Rule.asListed_of_mirrors fun entry hentry hid => absurd hid (hother entry hentry)
  · obtain ⟨new, hrules, hids, hpulled⟩ := hb.exists_mergeEntries {} listing
    refine ⟨new, hrules, ?_, hids, hpulled⟩
    have hkept : (b.rules.map (·.asListed listing)).map Rule.knownBy =
        b.rules.map Rule.knownBy := by
      simp [Rule.knownBy, Function.comp_def]
    exact (congrArg (List.map Rule.knownBy) hrules).trans (by rw [List.map_append, hkept])
  · rw [hupdated rule hrule]
    by_contra hnone
    exact hchanged (Rule.asListed_of_mirrors fun entry hentry hid =>
      not_not.mp fun hdiffers => hnone ⟨entry, hentry, hid, hdiffers⟩)

/-- A listing that changes a rule and changes it back, and another one that it brings in. -/
theorem merge_leaves_listed_state_repeated_ids :
    let requests : List RulebookRequest :=
      [.insert (some "Rule0") (some "1") "cat" "pets", .insert (some "mine") none "hen" "farm",
        .insert none (some "2") "dog" "pets", .insert none (some "3") "ant" "bugs",
        .removeById "3"]
    let b := ({ stem := "Rule" } : Rulebook).run requests
    let listing : List ListedRule := [⟨"9", "owl", "birds"⟩, ⟨"1", "cow", "farm"⟩,
      ⟨"9", "jay", "birds"⟩, ⟨"1", "cat", "pets"⟩, ⟨"4", "bee", "bugs"⟩]
    let mine : Rule := ⟨none, "mine", "hen", "farm"⟩
    (∃ rule, (b.merge listing).1.rules.filter (·.id == some "9") = [rule] ∧
      rule.Mirrors ⟨"9", "jay", "birds"⟩) ∧
    mine.asListed listing = mine ∧
    (b.merge listing).1.names = ["Rule0", "mine", "Rule0(1)", "Rule2", "Rule3"] ∧
    (b.merge listing).2.unlisted = ["mine", "Rule0(1)"] ∧
    "Rule0" ∈ (b.merge listing).2.updated ∧ "Rule0(1)" ∉ (b.merge listing).2.updated := by
  intro requests b listing mine
  obtain ⟨hlisted, hother, -, hunlisted, hupdated⟩ :=
    merge_leaves_listed_state "Rule" requests listing
  obtain ⟨rule, last, hfilter, hlast, hmirrors⟩ := hlisted "9" (by decide)
  obtain rfl : (⟨"9", "jay", "birds"⟩ : ListedRule) = last := Option.some.inj hlast
  have hcat : (⟨some "1", "Rule0", "cat", "pets"⟩ : Rule) ∈ b.rules := by decide +kernel
  have hdog : (⟨some "2", "Rule0(1)", "dog", "pets"⟩ : Rule) ∈ b.rules := by decide +kernel
  refine ⟨⟨rule, hfilter, hmirrors⟩, hother mine (by decide +kernel) (by decide),
    by decide +kernel, hunlisted.trans (by decide +kernel), ?_, ?_⟩
  · refine (hupdated _ hcat).2.mpr ⟨⟨"1", "cow", "farm"⟩, by decide, rfl, fun hcow => ?_⟩
    exact absurd hcow.expression (by decide)
  · intro hname
    obtain ⟨entry, hentry, hid, -⟩ := (hupdated _ hdog).2.mp hname
    revert entry
    decide

end Rulebook
end RuleDesk
