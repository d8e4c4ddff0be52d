import RuleDesk.Proofs.Lists
import RuleDesk.Proofs.Rule.Names

/-!
# What is asked of a rulebook

A rulebook goes through any requests: rules are inserted with or without a name and an id,
removed by either, cleared, and a listing is merged. Whatever the requests are, no two rules
have a name or an id in common, so that each is found by what it is known by. And a request
that does not remove a rule leaves it known by the same name and id, where it stood among the
others.
-/
namespace RuleDesk

/-- A call that may change a rulebook. -/
inductive RulebookRequest where
  | insert (name? : Option String) (id? : Option RuleId) (expression tag : String)
  | removeByName (name : String)
  | removeById (id : RuleId)
  | clear
  | merge (listing : List ListedRule)
deriving Repr, DecidableEq

/-- What a rule is known by. -/
def Rule.knownBy (rule : Rule) : String × Option RuleId :=
  (rule.name, rule.id)

/-- Whether a request removes the rule that is known by this name and id. -/
def RulebookRequest.removes : RulebookRequest → String × Option RuleId → Bool
  | .removeByName wanted, (name, _) => name == wanted
  | .removeById wanted, (_, id?) => id? == some wanted
  | .clear, _ => true
  | .insert .., _ => false
  | .merge _, _ => false

namespace Rulebook

/-- The book after a request. One that asks for a rule that is not there has no effect. -/
def apply (b : Rulebook) : RulebookRequest → Rulebook
  | .insert name? id? expression tag => (b.insert name? id? expression tag).2
  | .removeByName name => ((b.removeByName? name).map Prod.snd).getD b
  | .removeById id => ((b.removeById? id).map Prod.snd).getD b
  | .clear => b.clear
  | .merge listing => (b.merge listing).1

/-- The book after requests, one after the other. -/
def run (b : Rulebook) (requests : List RulebookRequest) : Rulebook :=
  requests.foldl apply b

variable {b : Rulebook}

theorem removed_eq (b : Rulebook) (wanted : Rule → Bool) :
    ((b.removeFirst? wanted).map Prod.snd).getD b =
      { b with rules := b.rules.eraseP wanted } := by
  unfold removeFirst?
  cases hfound : b.rules.find? wanted with
  | none =>
      have hnone : ∀ rule ∈ b.rules, ¬wanted rule = true := List.find?_eq_none.mp hfound
      rw [List.eraseP_of_forall_not hnone]
      rfl
  | some rule => rfl

/-- Rules have names, and no two of them share a name or an id. -/
structure Sound (b : Rulebook) : Prop where
  names : b.names.Nodup
  filled : "" ∉ b.names
  ids : (b.rules.filterMap Rule.id).Nodup

theorem sound_empty (stem : String) : ({ stem } : Rulebook).Sound :=
  ⟨.nil, List.not_mem_nil, .nil⟩

/-- Fewer rules are told apart by the same names and ids. -/
theorem Sound.sublist (h : b.Sound) {rules : List Rule} (hrules : rules.Sublist b.rules) :
    ({ b with rules } : Rulebook).Sound :=
  ⟨h.names.sublist (hrules.map Rule.name),
    fun hempty => h.filled ((hrules.map Rule.name).subset hempty),
    h.ids.sublist (hrules.filterMap Rule.id)⟩

/-- A new id is one that no rule has. -/
theorem id_not_mem {id : RuleId} (h : b.byId? id = none) : id ∉ b.rules.filterMap Rule.id := by
  intro hid
  obtain ⟨rule, hrule, hsame⟩ := List.mem_filterMap.mp hid
  have hknown : (b.byId? id).isSome = true :=
    isSome_byId?_iff.mpr (hsame ▸ List.mem_map_of_mem hrule)
  rw [h] at hknown
  cases hknown

theorem Sound.insert (h : b.Sound) (name? : Option String) (id? : Option RuleId)
    (expression tag : String) : (b.insert name? id? expression tag).2.Sound := by
  have hfilled : "" ∉ (b.insert name? id? expression tag).2.names := fun hempty =>
    (mem_names_insert hempty).elim h.filled fun hnew => hnew.ne_empty rfl
  refine ⟨nodup_names_insert h.names name? id? expression tag, hfilled, ?_⟩
  cases hfound : id?.bind b.byId? with
  | none =>
      rw [insert_absent hfound, List.filterMap_append]
      cases id? with
      | none => simpa using h.ids
      | some id => exact List.concat_eq_append ▸ h.ids.concat (id_not_mem hfound)
  | some old =>
      obtain ⟨id, rfl, hid⟩ := Option.bind_eq_some_iff.mp hfound
      rw [insert_known hid, filterMap_id_reviseFirst]
      exact h.ids

theorem Sound.mergeEntry (h : b.Sound) (report : SyncReport) (entry : ListedRule) :
    (b.mergeEntry report entry).1.Sound := by
  by_cases hshows : b.Shows entry
  · rw [hshows.mergeEntry_eq]
    exact h
  · rw [mergeEntry_of_not_shows hshows]
    exact h.insert ..

theorem Sound.mergeEntries (h : b.Sound) (report : SyncReport) (listing : List ListedRule) :
    (b.mergeEntries report listing).1.Sound := by
  induction listing generalizing b report with
  | nil => exact h
  | cons entry rest ih => exact ih (h.mergeEntry report entry) _

/-- Every request keeps names and ids distinct. -/
theorem Sound.apply (h : b.Sound) (request : RulebookRequest) : (b.apply request).Sound := by
  cases request with
  | insert name? id? expression tag => exact h.insert name? id? expression tag
  | removeByName name =>
      rw [Rulebook.apply, removeByName?, removed_eq]
      exact h.sublist List.eraseP_sublist
  | removeById id =>
      rw [Rulebook.apply, removeById?, removed_eq]
      exact h.sublist List.eraseP_sublist
  | clear => exact h.sublist (List.nil_sublist _)
  | merge listing => exact h.mergeEntries {} listing

theorem Sound.run (h : b.Sound) (requests : List RulebookRequest) : (b.run requests).Sound := by
  induction requests generalizing b with
  | nil => exact h
  | cons request rest ih => exact ih (h.apply request)

theorem Sound.one_of_id (h : b.Sound) (id : RuleId) :
    b.rules.Pairwise fun r s => (r.id == some id) = true → (s.id == some id) = false :=
  (List.pairwise_filterMap.mp h.ids).imp fun hne hr => by
    rw [beq_iff_eq] at hr
    exact beq_eq_false_iff_ne.mpr fun hs => hne id hr id hs rfl

variable {rule : Rule}

theorem Sound.byName?_eq_some_iff (h : b.Sound) {name : String} :
    b.byName? name = some rule ↔ rule ∈ b.rules ∧ rule.name = name := by
  rw [byName?, find?_eq_some_iff_of_pairwise (pairwise_beq_of_nodup_map h.names name), beq_iff_eq]

theorem byName?_eq_none_iff {name : String} : b.byName? name = none ↔ name ∉ b.names := by
  rw [byName?, List.find?_eq_none, names, List.mem_map]
  simp

theorem Sound.byId?_eq_some_iff (h : b.Sound) {id : RuleId} :
    b.byId? id = some rule ↔ rule ∈ b.rules ∧ rule.id = some id := by
  rw [byId?, find?_eq_some_iff_of_pairwise (h.one_of_id id), beq_iff_eq]

theorem exists_knownBy_insert (b : Rulebook) (name? : Option String) (id? : Option RuleId)
    (expression tag : String) :
    ∃ added, (b.insert name? id? expression tag).2.rules.map Rule.knownBy =
      b.rules.map Rule.knownBy ++ added := by
  cases hfound : id?.bind b.byId? with
  | none =>
      rw [insert_absent hfound, List.map_append]
      exact ⟨_, rfl⟩
  | some old =>
      obtain ⟨id, rfl, hid⟩ := Option.bind_eq_some_iff.mp hfound
      rw [insert_known hid, map_reviseFirst fun _ _ _ => rfl]
      exact ⟨[], (List.append_nil _).symm⟩

theorem exists_knownBy_mergeEntries (b : Rulebook) (report : SyncReport)
    (listing : List ListedRule) :
    ∃ added, (b.mergeEntries report listing).1.rules.map Rule.knownBy =
      b.rules.map Rule.knownBy ++ added := by
  induction listing generalizing b report with
  | nil => exact ⟨[], (List.append_nil _).symm⟩
  | cons entry rest ih =>
      obtain ⟨later, hlater⟩ := ih (b.mergeEntry report entry).1 (b.mergeEntry report entry).2
      rw [mergeEntries_cons, hlater]
      by_cases hshows : b.Shows entry
      · rw [hshows.mergeEntry_eq]
        exact ⟨later, rfl⟩
      · rw [mergeEntry_of_not_shows hshows]
        obtain ⟨first, hfirst⟩ := b.exists_knownBy_insert none (some entry.id) entry.text entry.tag
        exact ⟨first ++ later, by rw [hfirst, List.append_assoc]⟩

theorem filter_map_knownBy (rules : List Rule) (request : RulebookRequest) :
    (rules.map Rule.knownBy).filter (!request.removes ·) =
      (rules.filter fun rule => !request.removes rule.knownBy).map Rule.knownBy :=
  List.filter_map

/-- A request leaves what the rules are known by, in their order, but for those that it removes.
What is new comes last. -/
theorem Sound.exists_knownBy_apply (h : b.Sound) (request : RulebookRequest) :
    ∃ added, (b.apply request).rules.map Rule.knownBy =
      (b.rules.map Rule.knownBy).filter (!request.removes ·) ++ added := by
  have hall (hkeeps : ∀ known, request.removes known = false) :
      (b.rules.map Rule.knownBy).filter (!request.removes ·) = b.rules.map Rule.knownBy :=
    List.filter_eq_self.mpr fun known _ => by rw [hkeeps]; rfl
  cases request with
  | insert name? id? expression tag =>
      rw [hall fun _ => rfl]
      exact b.exists_knownBy_insert name? id? expression tag
  | removeByName name =>
      refine ⟨[], ?_⟩
      rw [Rulebook.apply, removeByName?, removed_eq,
        eraseP_eq_filter_not (pairwise_beq_of_nodup_map h.names name), filter_map_knownBy,
        List.append_nil]
      rfl
  | removeById id =>
      refine ⟨[], ?_⟩
      rw [Rulebook.apply, removeById?, removed_eq, eraseP_eq_filter_not (h.one_of_id id),
        filter_map_knownBy, List.append_nil]
      rfl
  | clear => exact ⟨[], by simp [Rulebook.apply, clear, RulebookRequest.removes]⟩
  | merge listing =>
      rw [hall fun _ => rfl]
      exact b.exists_knownBy_mergeEntries {} listing

theorem Sound.exists_knownBy_run (h : b.Sound) (requests : List RulebookRequest) :
    ∃ added, (b.run requests).rules.map Rule.knownBy =
      (b.rules.map Rule.knownBy).filter (fun known => requests.all (!·.removes known)) ++
        added := by
  induction requests generalizing b with
  | nil => exact ⟨[], by simp [Rulebook.run]⟩
  | cons request rest ih =>
      obtain ⟨later, hlater⟩ := ih (h.apply request)
      obtain ⟨first, hfirst⟩ := h.exists_knownBy_apply request
      refine ⟨first.filter (fun known => rest.all (!·.removes known)) ++ later, ?_⟩
      change ((b.apply request).run rest).rules.map Rule.knownBy = _
      rw [hlater, hfirst, List.filter_append, List.filter_filter, List.append_assoc]
      congr 2
      funext known
      rw [List.all_cons, Bool.and_comm]

/-- After whatever requests to a book that began without rules, no rule is without a name and no
two have a name or an id in common, so that a name or an id finds a rule exactly if the rule has
it. Whatever is asked for later, the rules that are not removed are known by the same names and
ids as before and in the same order, with the later ones behind them. -/
theorem names_and_ids_unique (stem : String) (requests later : List RulebookRequest) :
    let b := ({ stem } : Rulebook).run requests
    "" ∉ b.names ∧ b.names.Nodup ∧ (b.rules.filterMap Rule.id).Nodup ∧
    (∀ name rule, b.byName? name = some rule ↔ rule ∈ b.rules ∧ rule.name = name) ∧
    (∀ id rule, b.byId? id = some rule ↔ rule ∈ b.rules ∧ rule.id = some id) ∧
    ∃ added, (b.run later).rules.map Rule.knownBy =
      (b.rules.map Rule.knownBy).filter (fun known => later.all (!·.removes known)) ++ added := by
  intro b
  have hb : b.Sound := (sound_empty stem).run requests
  exact ⟨hb.filled, hb.names, hb.ids, fun _ _ => hb.byName?_eq_some_iff,
    fun _ _ => hb.byId?_eq_some_iff, hb.exists_knownBy_run later⟩

end Rulebook
end RuleDesk
