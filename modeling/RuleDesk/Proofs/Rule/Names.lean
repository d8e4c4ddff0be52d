import RuleDesk.Proofs.Rule.Book
import Mathlib.Data.List.Nodup

/-!
# Names of rules

A new rule is called as it was asked for, or by the next generated name, with suffixes until
that is free. So the names of a book stay distinct, and so do its ids, since a rule of a known
id is not put in again.
-/
namespace RuleDesk

/-- Fewer taken names are as long as a longer one: the name itself is too short. -/
theorem length_filter_longer_lt {taken : List String} {name longer : String} (hname : name ∈ taken)
    (hlonger : name.length < longer.length) :
    (taken.filter (longer.length ≤ ·.length)).length <
      (taken.filter (name.length ≤ ·.length)).length := by
  have hcounted : name ∈ taken.filter (name.length ≤ ·.length) :=
    List.mem_filter.mpr ⟨hname, by simp⟩
  have hagain : taken.filter (longer.length ≤ ·.length) =
      (taken.filter (name.length ≤ ·.length)).filter (longer.length ≤ ·.length) := by
    rw [List.filter_filter]
    refine List.filter_congr fun other _ => ?_
    simp only [← Bool.decide_and, decide_eq_decide]
    omega
  rw [hagain]
  exact List.length_filter_lt_length_iff_exists.mpr ⟨name, hcounted, by simpa using hlonger⟩

/-- The last round ends at a free name if there are as many rounds as taken names that are
no shorter: with every suffix there are fewer of these. -/
theorem freeName_not_mem {taken : List String} {rounds : Nat} {name : String}
    (h : (taken.filter (name.length ≤ ·.length)).length ≤ rounds) :
    freeName taken rounds name ∉ taken := by
  induction rounds generalizing name with
  | zero =>
      intro hname
      have hcounted : name ∈ taken.filter (name.length ≤ ·.length) :=
        List.mem_filter.mpr ⟨hname, by simp⟩
      have hpos := List.length_pos_of_mem hcounted
      omega
  | succ rounds ih =>
      unfold freeName
      split
      · next htaken =>
          have hlonger : name.length < (name ++ "(1)").length := by
            rw [String.length_append]
            exact Nat.lt_add_of_pos_right (by decide)
          have hfewer := length_filter_longer_lt (by simpa using htaken) hlonger
          exact ih (by omega)
      · next hfree => simpa using hfree

/-- The name followed by so many suffixes. -/
def suffixed (name : String) : Nat → String
  | 0 => name
  | k + 1 => suffixed name k ++ "(1)"

theorem suffixed_append (name : String) (k : Nat) :
    suffixed (name ++ "(1)") k = suffixed name (k + 1) := by
  induction k with
  | zero => rfl
  | succ k ih => rw [suffixed, ih, ← suffixed]

/-- Only suffixes are appended, and none without need. -/
theorem freeName_eq_suffixed (taken : List String) (rounds : Nat) (name : String) :
    ∃ k ≤ rounds, freeName taken rounds name = suffixed name k ∧
      ∀ j < k, suffixed name j ∈ taken := by
  induction rounds generalizing name with
  | zero => exact ⟨0, Nat.le_refl 0, rfl, fun j hj => absurd hj (Nat.not_lt_zero j)⟩
  | succ rounds ih =>
      unfold freeName
      split
      · next htaken =>
          obtain ⟨k, hk, hname, hearlier⟩ := ih (name ++ "(1)")
          refine ⟨k + 1, Nat.succ_le_succ hk, by rw [hname, suffixed_append], fun j hj => ?_⟩
          cases j with
          | zero => exact List.contains_iff_mem.mp htaken
          | succ j =>
              rw [← suffixed_append]
              exact hearlier j (Nat.lt_of_succ_lt_succ hj)
      · exact ⟨0, Nat.zero_le _, rfl, fun j hj => absurd hj (Nat.not_lt_zero j)⟩

/-- What a new rule may be called that `name?` is asked for. -/
inductive NewName (name? : Option String) : String → Prop where
  | asked {name : String} : name? = some name → name ≠ "" → NewName name? name
  | generated (stem : String) (n : Nat) : NewName name? (stem ++ toString n)
  | suffixed (stem : String) : NewName name? (stem ++ "(1)")

theorem NewName.ne_empty {name? : Option String} {name : String} (h : NewName name? name) :
    name ≠ "" := by
  cases h with
  | asked _ hfilled => exact hfilled
  | generated stem n => simp
  | suffixed stem => simp

namespace Rulebook

variable {b : Rulebook} {name? : Option String} {name : String}

theorem newName_requestedName (b : Rulebook) (name? : Option String) :
    NewName name? (b.requestedName name?).1 := by
  unfold requestedName
  split
  · next name hname =>
      obtain ⟨hasked, hfilled⟩ := Option.filter_eq_some_iff.mp hname
      exact .asked hasked (by simpa using hfilled)
  · exact .generated _ _

theorem newName_uniqueName (h : NewName name? name) (b : Rulebook) :
    NewName name? (b.uniqueName name) := by
  obtain ⟨k, -, hname, -⟩ := freeName_eq_suffixed b.names b.rules.length name
  rw [uniqueName, hname]
  cases k with
  | zero => exact h
  | succ k => exact .suffixed (suffixed name k)

theorem uniqueName_not_mem (b : Rulebook) (name : String) : b.uniqueName name ∉ b.names := by
  apply freeName_not_mem
  calc (b.names.filter (name.length ≤ ·.length)).length ≤ b.names.length :=
        List.length_filter_le ..
    _ = b.rules.length := List.length_map _

/-- The name with the least number of suffixes that no rule has. -/
theorem uniqueName_least (b : Rulebook) (name : String) :
    ∃ k, b.uniqueName name = suffixed name k ∧ suffixed name k ∉ b.names ∧
      ∀ j < k, suffixed name j ∈ b.names := by
  obtain ⟨k, -, hname, hearlier⟩ := freeName_eq_suffixed b.names b.rules.length name
  have hfree := uniqueName_not_mem b name
  rw [uniqueName, hname] at hfree
  exact ⟨k, hname, hfree, hearlier⟩

/-- What is asked for is the name given, or else the next generated one. -/
theorem requestedName_fst (b : Rulebook) (name? : Option String) :
    (b.requestedName name?).1 =
      (name?.filter (!·.isEmpty)).getD (b.stem ++ toString b.counter) := by
  unfold requestedName
  split
  · next hasked => rw [hasked, Option.getD_some]
  · next hnone => rw [hnone, Option.getD_none]

/-- A rule that the book does not have comes last, under the name asked for or else the next
generated one, with no more suffixes than it needs. -/
theorem exists_inserted {id : RuleId} (h : b.byId? id = none) (name? : Option String)
    (expression tag : String) :
    ∃ requested k, requested = (name?.filter (!·.isEmpty)).getD (b.stem ++ toString b.counter) ∧
      suffixed requested k ∉ b.names ∧ (∀ j < k, suffixed requested j ∈ b.names) ∧
      (b.insert name? (some id) expression tag).1 =
        ⟨some id, suffixed requested k, expression, tag⟩ ∧
      (b.insert name? (some id) expression tag).2.rules =
        b.rules ++ [(b.insert name? (some id) expression tag).1] := by
  obtain ⟨k, hname, hfree, hearlier⟩ := b.uniqueName_least (b.requestedName name?).1
  rw [insert_new h]
  exact ⟨_, k, b.requestedName_fst name?, hfree, hearlier,
    congrArg (fun name => (⟨some id, name, expression, tag⟩ : Rule)) hname, rfl⟩

theorem mem_names_insert {id? : Option RuleId} {expression tag : String}
    (h : name ∈ (b.insert name? id? expression tag).2.names) :
    name ∈ b.names ∨ NewName name? name := by
  cases hfound : id?.bind b.byId? with
  | none =>
      rw [insert_absent hfound, names, List.map_append, List.mem_append] at h
      refine h.imp_right fun hnew => ?_
      rw [List.map_singleton, List.mem_singleton] at hnew
      rw [hnew]
      exact newName_uniqueName (newName_requestedName b name?) b
  | some old =>
      obtain ⟨id, rfl, hid⟩ := Option.bind_eq_some_iff.mp hfound
      rw [insert_known hid, names, map_name_reviseFirst] at h
      exact .inl h

theorem mem_names_mergeEntry {entry : ListedRule} {report : SyncReport}
    (h : name ∈ (b.mergeEntry report entry).1.names) : name ∈ b.names ∨ NewName none name := by
  by_cases hshows : b.Shows entry
  · rw [hshows.mergeEntry_eq] at h
    exact .inl h
  · rw [mergeEntry_of_not_shows hshows] at h
    exact mem_names_insert h

theorem mem_names_mergeEntries {listing : List ListedRule} {report : SyncReport}
    (h : name ∈ (b.mergeEntries report listing).1.names) :
    name ∈ b.names ∨ NewName none name := by
  induction listing generalizing b report with
  | nil => exact .inl h
  | cons entry rest ih =>
      rcases ih h with hmerged | hnew
      · exact mem_names_mergeEntry hmerged
      · exact .inr hnew

theorem nodup_names_insert (h : b.names.Nodup) (name? : Option String) (id? : Option RuleId)
    (expression tag : String) : (b.insert name? id? expression tag).2.names.Nodup := by
  cases hfound : id?.bind b.byId? with
  | none =>
      rw [insert_absent hfound, names, List.map_append, List.map_singleton,
        ← List.concat_eq_append]
      exact h.concat (uniqueName_not_mem b _)
  | some old =>
      obtain ⟨id, rfl, hid⟩ := Option.bind_eq_some_iff.mp hfound
      rw [insert_known hid, names, map_name_reviseFirst]
      exact h

/-- Every rule has an id, and names and ids are distinct. -/
structure Distinct (b : Rulebook) : Prop where
  names : b.names.Nodup
  ids : (b.rules.map Rule.id).Nodup
  identified : none ∉ b.rules.map Rule.id

theorem Distinct.insert (h : b.Distinct) (name? : Option String) (id : RuleId)
    (expression tag : String) : (b.insert name? (some id) expression tag).2.Distinct := by
  have hnames := nodup_names_insert h.names name? (some id) expression tag
  cases hfound : b.byId? id with
  | none =>
      have hid : some id ∉ b.rules.map Rule.id := by
        rw [← isSome_byId?_iff, hfound]
        exact Bool.false_ne_true
      refine ⟨hnames, ?_, ?_⟩ <;> rw [insert_new hfound]
      · rw [List.map_append, List.map_singleton, ← List.concat_eq_append]
        exact h.ids.concat hid
      · simpa using h.identified
  | some old =>
      refine ⟨hnames, ?_, ?_⟩ <;> rw [insert_known hfound, map_id_reviseFirst]
      · exact h.ids
      · exact h.identified

theorem Distinct.mergeEntry (h : b.Distinct) (report : SyncReport) (entry : ListedRule) :
    (b.mergeEntry report entry).1.Distinct := by
  by_cases hshows : b.Shows entry
  · rw [hshows.mergeEntry_eq]
    exact h
  · rw [mergeEntry_of_not_shows hshows]
    exact h.insert ..

theorem Distinct.mergeEntries (h : b.Distinct) (report : SyncReport)
    (listing : List ListedRule) : (b.mergeEntries report listing).1.Distinct := by
  induction listing generalizing b report with
  | nil => exact h
  | cons entry rest ih => exact ih (h.mergeEntry report entry) _

/-- Fewer rules are told apart by the same names and ids. -/
theorem Distinct.sublist (h : b.Distinct) {rules : List Rule} (hrules : rules.Sublist b.rules) :
    ({ b with rules } : Rulebook).Distinct :=
  ⟨h.names.sublist (hrules.map Rule.name), h.ids.sublist (hrules.map Rule.id),
    fun hnone => h.identified ((hrules.map Rule.id).subset hnone)⟩

variable {before after : List Rule} {rule : Rule}

theorem Distinct.exists_id (h : b.Distinct) (hrule : rule ∈ b.rules) :
    ∃ id, rule.id = some id := by
  refine Option.ne_none_iff_exists'.mp fun hnone => h.identified ?_
  rw [← hnone]
  exact List.mem_map_of_mem hrule

/-- What tells all rules apart tells the others from one of them. -/
theorem ne_of_nodup_map {α : Type} {f : Rule → α}
    (h : ((before ++ rule :: after).map f).Nodup) :
    ∀ other ∈ before ++ after, f other ≠ f rule := by
  have hfirst : (f rule :: (before ++ after).map f).Nodup :=
    (List.perm_middle.map f).nodup_iff.mp h
  intro other hother hsame
  exact (List.nodup_cons.mp hfirst).1 (hsame ▸ List.mem_map_of_mem hother)

theorem Distinct.other_name (h : b.Distinct) (hrules : b.rules = before ++ rule :: after) :
    ∀ other ∈ before ++ after, other.name ≠ rule.name :=
  ne_of_nodup_map (hrules ▸ h.names)

theorem Distinct.other_id (h : b.Distinct) (hrules : b.rules = before ++ rule :: after) :
    ∀ other ∈ before ++ after, other.id ≠ rule.id :=
  ne_of_nodup_map (hrules ▸ h.ids)

/-- The rule that goes by its name is that rule, wherever it stands. -/
theorem Distinct.removeByName?_eq (h : b.Distinct)
    (hrules : b.rules = before ++ rule :: after) :
    b.removeByName? rule.name = some (rule, { b with rules := before ++ after }) := by
  have hbefore : ∀ other ∈ before, (other.name == rule.name) = false := fun other hother =>
    beq_eq_false_iff_ne.mpr (h.other_name hrules other (List.mem_append_left _ hother))
  exact removeFirst?_eq_some_iff.mpr ⟨before, after, hrules, by simp, hbefore, rfl⟩

end Rulebook
end RuleDesk
