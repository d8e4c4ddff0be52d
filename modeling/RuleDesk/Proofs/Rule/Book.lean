import RuleDesk.Rule.Book

/-!
# What the operations of a rulebook do

One equation for each way in which a rule gets into the book: under a new id it comes last,
and under an id that is in the book it changes that rule where it stands. What is found under
an id afterwards follows from these, and so does what the merge of one entry does.
-/
namespace RuleDesk

/-- The rule has the id, the text and the tag of the entry. -/
structure Rule.Mirrors (rule : Rule) (entry : ListedRule) : Prop where
  id : rule.id = some entry.id
  expression : rule.expression = entry.text
  tag : rule.tag = entry.tag

namespace Rulebook

variable {b : Rulebook} {id other : RuleId} {old : Rule} {expression tag : String}

theorem isSome_byId?_iff : (b.byId? id).isSome = true ↔ some id ∈ b.rules.map Rule.id := by
  rw [byId?, List.find?_isSome, List.mem_map]
  simp

/-- A revision shows only in texts and tags. -/
theorem map_reviseFirst {α : Type} {f : Rule → α}
    (hf : ∀ (rule : Rule) expression tag, f { rule with expression, tag } = f rule)
    (id : RuleId) (expression tag : String) (rules : List Rule) :
    (reviseFirst id expression tag rules).map f = rules.map f := by
  induction rules with
  | nil => rfl
  | cons rule rules ih =>
      unfold reviseFirst
      split
      · rw [List.map_cons, List.map_cons, hf]
      · rw [List.map_cons, List.map_cons, ih]

theorem map_id_reviseFirst (id : RuleId) (expression tag : String) (rules : List Rule) :
    (reviseFirst id expression tag rules).map Rule.id = rules.map Rule.id :=
  map_reviseFirst (fun _ _ _ => rfl) id expression tag rules

theorem map_name_reviseFirst (id : RuleId) (expression tag : String) (rules : List Rule) :
    (reviseFirst id expression tag rules).map Rule.name = rules.map Rule.name :=
  map_reviseFirst (fun _ _ _ => rfl) id expression tag rules

theorem filterMap_id_reviseFirst (id : RuleId) (expression tag : String) (rules : List Rule) :
    (reviseFirst id expression tag rules).filterMap Rule.id = rules.filterMap Rule.id := by
  have hids := congrArg (List.filterMap fun id? => id?) (map_id_reviseFirst id expression tag rules)
  rwa [List.filterMap_map, List.filterMap_map] at hids

/-- A rule that is revised as it is stays. -/
theorem reviseFirst_of_find? {rules : List Rule}
    (h : rules.find? (·.id == some id) = some old) :
    reviseFirst id old.expression old.tag rules = rules := by
  induction rules with
  | nil => rfl
  | cons rule rules ih =>
      by_cases hrule : rule.id = some id
      · obtain rfl : rule = old := by simpa [hrule] using h
        exact if_pos (by simpa using hrule)
      · have hlater : rules.find? (·.id == some id) = some old := by
          simpa [List.find?_cons, hrule] using h
        simp [reviseFirst, hrule, ih hlater]

/-- The last revision of an id decides. -/
theorem reviseFirst_reviseFirst (id : RuleId) (earlier earlierTag expression tag : String)
    (rules : List Rule) :
    reviseFirst id expression tag (reviseFirst id earlier earlierTag rules) =
      reviseFirst id expression tag rules := by
  induction rules with
  | nil => rfl
  | cons rule rules ih =>
      by_cases hrule : (rule.id == some id) = true
      · simp [reviseFirst, hrule]
      · simp [reviseFirst, hrule, ih]

/-- Revisions of different ids do not meet. -/
theorem reviseFirst_comm (hids : id ≠ other) (expression tag text mark : String)
    (rules : List Rule) :
    reviseFirst id expression tag (reviseFirst other text mark rules) =
      reviseFirst other text mark (reviseFirst id expression tag rules) := by
  induction rules with
  | nil => rfl
  | cons rule rules ih =>
      by_cases hrule : rule.id = some id
      · have hother : rule.id ≠ some other := by simpa [hrule] using hids
        simp [reviseFirst, hrule, hids]
      · by_cases hother : rule.id = some other
        · simp [reviseFirst, hother, hids.symm]
        · simp [reviseFirst, hrule, hother, ih]

theorem find?_reviseFirst {rules : List Rule} (h : rules.find? (·.id == some id) = some old)
    (expression tag : String) :
    (reviseFirst id expression tag rules).find? (·.id == some id) =
      some { old with expression, tag } := by
  induction rules with
  | nil => cases h
  | cons rule rules ih =>
      by_cases hrule : rule.id = some id
      · obtain rfl : rule = old := by simpa [hrule] using h
        simp [reviseFirst, hrule]
      · have hlater : rules.find? (·.id == some id) = some old := by
          simpa [List.find?_cons, hrule] using h
        simp [reviseFirst, hrule, ih hlater]

theorem find?_reviseFirst_other (hids : other ≠ id) (expression tag : String)
    (rules : List Rule) :
    (reviseFirst other expression tag rules).find? (·.id == some id) =
      rules.find? (·.id == some id) := by
  induction rules with
  | nil => rfl
  | cons rule rules ih =>
      by_cases hrule : rule.id = some other
      · simp [reviseFirst, hrule, hids]
      · simp [reviseFirst, hrule, List.find?_cons, ih]

/-- The rule that is removed is the first one that is wanted, and all others stay in place. -/
theorem removeFirst?_eq_some_iff {wanted : Rule → Bool} {rule : Rule} {rest : Rulebook} :
    b.removeFirst? wanted = some (rule, rest) ↔
      ∃ before after, b.rules = before ++ rule :: after ∧ wanted rule = true ∧
        (∀ other ∈ before, wanted other = false) ∧
        rest = { b with rules := before ++ after } := by
  have herase {before after : List Rule} (hsplit : b.rules = before ++ rule :: after)
      (hrule : wanted rule = true) (hbefore : ∀ other ∈ before, wanted other = false) :
      b.rules.eraseP wanted = before ++ after := by
    rw [hsplit, List.eraseP_append_right _ (by simpa using hbefore),
      List.eraseP_cons_of_pos hrule]
  unfold removeFirst?
  constructor
  · intro h
    obtain ⟨found, hfound, heq⟩ := Option.map_eq_some_iff.mp h
    obtain ⟨rfl, rfl⟩ := Prod.mk.inj heq
    obtain ⟨hrule, before, after, hsplit, hbefore⟩ := List.find?_eq_some_iff_append.mp hfound
    have hothers : ∀ other ∈ before, wanted other = false := by simpa using hbefore
    exact ⟨before, after, hsplit, hrule, hothers, by rw [herase hsplit hrule hothers]⟩
  · rintro ⟨before, after, hsplit, hrule, hbefore, rfl⟩
    have hfound : b.rules.find? wanted = some rule :=
      List.find?_eq_some_iff_append.mpr
        ⟨hrule, before, after, hsplit, by simpa using hbefore⟩
    rw [hfound, Option.map_some, herase hsplit hrule hbefore]

theorem requestedName_rules (b : Rulebook) (name? : Option String) :
    (b.requestedName name?).2.rules = b.rules := by
  unfold requestedName
  split <;> rfl

theorem insert_known (h : b.byId? id = some old) (name? : Option String)
    (expression tag : String) :
    b.insert name? (some id) expression tag =
      ({ old with expression, tag },
        { b with rules := reviseFirst id expression tag b.rules }) := by
  simp [Rulebook.insert, h]

/-- A rule without an id or with one that the book does not have comes last. -/
theorem insert_absent {id? : Option RuleId} (h : id?.bind b.byId? = none) (name? : Option String)
    (expression tag : String) :
    b.insert name? id? expression tag =
      let requested := b.requestedName name?
      let rule : Rule := ⟨id?, b.uniqueName requested.1, expression, tag⟩
      (rule, { requested.2 with rules := b.rules ++ [rule] }) := by
  have hunique : (b.requestedName name?).2.uniqueName = b.uniqueName := by
    funext name
    simp [uniqueName, names, requestedName_rules]
  have hnone : (id?.bind fun id => (b.byId? id).map (id, ·)) = none := by
    cases id? with
    | none => rfl
    | some id => simpa using h
  simp [Rulebook.insert, hnone, hunique, requestedName_rules]

theorem insert_new (h : b.byId? id = none) (name? : Option String) (expression tag : String) :
    b.insert name? (some id) expression tag =
      let requested := b.requestedName name?
      let rule : Rule := ⟨some id, b.uniqueName requested.1, expression, tag⟩
      (rule, { requested.2 with rules := b.rules ++ [rule] }) :=
  insert_absent (show (some id).bind b.byId? = none from h) name? expression tag

theorem insert_fst (b : Rulebook) (name? : Option String) (id : RuleId)
    (expression tag : String) :
    ∃ name, (b.insert name? (some id) expression tag).1 = ⟨some id, name, expression, tag⟩ := by
  cases h : b.byId? id with
  | none => exact ⟨_, by rw [insert_new h]⟩
  | some old =>
      have hid : old.id = some id := by simpa using List.find?_some h
      exact ⟨old.name, by rw [insert_known h, hid]⟩

/-- What is found under the id of an inserted rule is that rule. -/
theorem byId?_insert (b : Rulebook) (name? : Option String) (id : RuleId)
    (expression tag : String) :
    (b.insert name? (some id) expression tag).2.byId? id =
      some (b.insert name? (some id) expression tag).1 := by
  cases h : b.byId? id with
  | none =>
      rw [insert_new h]
      unfold byId? at h ⊢
      simp [List.find?_append, h]
  | some old =>
      rw [insert_known h]
      exact find?_reviseFirst h expression tag

/-- An inserted rule hides no other id. -/
theorem byId?_insert_other (hids : other ≠ id) (b : Rulebook) (name? : Option String)
    (expression tag : String) :
    (b.insert name? (some other) expression tag).2.byId? id = b.byId? id := by
  cases h : b.byId? other with
  | none =>
      rw [insert_new h]
      simp [byId?, List.find?_append, hids]
  | some old =>
      rw [insert_known h]
      exact find?_reviseFirst_other hids expression tag b.rules

variable {entry : ListedRule}

/-- The rule under the entry's id has its text and tag. -/
def Shows (b : Rulebook) (entry : ListedRule) : Prop :=
  ∃ rule, b.byId? entry.id = some rule ∧ rule.Mirrors entry

/-- The book with the rule under the entry's id as the entry has it. -/
def revise (b : Rulebook) (entry : ListedRule) : Rulebook :=
  { b with rules := reviseFirst entry.id entry.text entry.tag b.rules }

/-- An entry that is shown changes and reports nothing. -/
theorem Shows.mergeEntry_eq (h : b.Shows entry) (report : SyncReport) :
    b.mergeEntry report entry = (b, report) := by
  obtain ⟨rule, hrule, hmatch⟩ := h
  unfold mergeEntry
  simp [hrule, hmatch.expression, hmatch.tag]

theorem Shows.revise_eq (h : b.Shows entry) : b.revise entry = b := by
  obtain ⟨rule, hrule, hmatch⟩ := h
  unfold revise
  rw [← hmatch.expression, ← hmatch.tag, reviseFirst_of_find? hrule]

/-- An entry of a known id that is not shown revises the rule and is reported. -/
theorem mergeEntry_of_known {rule : Rule} (hknown : b.byId? entry.id = some rule)
    (hshows : ¬b.Shows entry) (report : SyncReport) :
    b.mergeEntry report entry =
      (b.revise entry, { report with updated := report.updated ++ [rule.name] }) := by
  have hdiffers : (decide (rule.expression = entry.text) && decide (rule.tag = entry.tag)) =
      false := by
    rw [Bool.eq_false_iff]
    intro hsame
    simp only [Bool.and_eq_true, decide_eq_true_eq] at hsame
    have hid : rule.id = some entry.id := by simpa using List.find?_some hknown
    exact hshows ⟨rule, hknown, hid, hsame.1, hsame.2⟩
  unfold mergeEntry
  simp [hknown, hdiffers, insert_known hknown, revise]

/-- Unless it is shown already, an entry is inserted. -/
theorem mergeEntry_of_not_shows (hshows : ¬b.Shows entry) (report : SyncReport) :
    (b.mergeEntry report entry).1 =
      (b.insert none (some entry.id) entry.text entry.tag).2 := by
  cases hfound : b.byId? entry.id with
  | none => simp [mergeEntry, hfound]
  | some rule =>
      rw [mergeEntry_of_known hfound hshows, insert_known hfound]
      rfl

/-- A merged entry is shown. -/
theorem mergeEntry_shows (b : Rulebook) (report : SyncReport) (entry : ListedRule) :
    (b.mergeEntry report entry).1.Shows entry := by
  by_cases hshows : b.Shows entry
  · rw [hshows.mergeEntry_eq]
    exact hshows
  · rw [mergeEntry_of_not_shows hshows]
    obtain ⟨name, hrule⟩ := b.insert_fst none entry.id entry.text entry.tag
    exact ⟨_, byId?_insert .., by rw [hrule]; exact ⟨rfl, rfl, rfl⟩⟩

theorem byId?_mergeEntry_other {id : RuleId} (hid : entry.id ≠ id) (report : SyncReport) :
    (b.mergeEntry report entry).1.byId? id = b.byId? id := by
  by_cases hshows : b.Shows entry
  · rw [hshows.mergeEntry_eq]
  · rw [mergeEntry_of_not_shows hshows, byId?_insert_other hid]

theorem mergeEntries_cons (b : Rulebook) (report : SyncReport) (entry : ListedRule)
    (rest : List ListedRule) :
    b.mergeEntries report (entry :: rest) =
      (b.mergeEntry report entry).1.mergeEntries (b.mergeEntry report entry).2 rest := rfl

end Rulebook
end RuleDesk
