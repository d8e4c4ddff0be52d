import RuleDesk.Proofs.Console.Change
import RuleDesk.Proofs.Rule.Requests

/-!
# Names and ids of rules

Names are what a user types and ids are what handles keep. With names and ids that are distinct
each is found again from the other, and a list of names fails at the first one that does not
lead to an id.
-/
namespace RuleDesk.Session

variable {σ : Type} {s : Session σ} {name : String} {id : RuleId} {rule : Rule}

theorem ruleId_of_rule (h : s.rules.Sound) (hrule : rule ∈ s.rules.rules)
    (hid : rule.id = some id) : s.ruleId rule.name = .ok id := by
  have hfound : s.rules.byName? rule.name = some rule := h.byName?_eq_some_iff.mpr ⟨hrule, rfl⟩
  simp only [ruleId, hfound, hid]

theorem ruleName_of_rule (h : s.rules.Sound) (hrule : rule ∈ s.rules.rules)
    (hid : rule.id = some id) : s.ruleName id = rule.name := by
  have hfound : s.rules.byId? id = some rule := h.byId?_eq_some_iff.mpr ⟨hrule, hid⟩
  simp only [ruleName, hfound]

/-- A name leads to an id if a rule has both. -/
theorem ruleId_eq_ok_iff (h : s.rules.Sound) :
    s.ruleId name = .ok id ↔ ∃ rule ∈ s.rules.rules, rule.name = name ∧ rule.id = some id := by
  constructor
  · intro hname
    unfold ruleId at hname
    split at hname
    · cases hname
    · next rule hfound =>
        obtain ⟨hrule, hsame⟩ := h.byName?_eq_some_iff.mp hfound
        split at hname
        · next found hid =>
            cases hname
            exact ⟨rule, hrule, hsame, hid⟩
        · cases hname
  · rintro ⟨rule, hrule, rfl, hid⟩
    exact ruleId_of_rule h hrule hid

/-- A name leads to no id if no rule has it or the rule that has it is without one. -/
theorem ruleId_eq_error_iff (h : s.rules.Sound) {e : CommandError} :
    s.ruleId name = .error e ↔
      name ∉ s.rules.names ∧ e = .notFound
          s!"Couldn't find rule '{name}'. Use 'rules list' to see current rules" ∨
        (∃ rule ∈ s.rules.rules, rule.name = name ∧ rule.id = none) ∧
          e = .invalid s!"Rule '{name}' has no id yet, run 'rules sync'" := by
  rw [← Rulebook.byName?_eq_none_iff]
  simp only [← and_assoc, ← h.byName?_eq_some_iff]
  unfold ruleId
  cases hfound : s.rules.byName? name with
  | none => simp [eq_comm]
  | some rule =>
      cases hid : rule.id with
      | none => simp [hid, eq_comm]
      | some id => simp [hid]

theorem ruleIds_cons_of_ok {names : List String} {ids : List RuleId}
    (hname : s.ruleId name = .ok id) (hnames : s.ruleIds names = .ok ids) :
    s.ruleIds (name :: names) = .ok (id :: ids) := by
  rw [ruleIds, hname, hnames]
  rfl

/-- A list of names fails as the first of them that does. -/
theorem ruleIds_eq_error_iff {names : List String} {e : CommandError} :
    s.ruleIds names = .error e ↔
      ∃ before name after, names = before ++ name :: after ∧
        (∀ other ∈ before, ∃ id, s.ruleId other = .ok id) ∧ s.ruleId name = .error e := by
  induction names with
  | nil => simp [ruleIds]
  | cons first rest ih =>
      cases hfirst : s.ruleId first with
      | error cause =>
          have hfails : s.ruleIds (first :: rest) = .error cause := by
            rw [ruleIds, hfirst]
            rfl
          rw [hfails]
          constructor
          · intro h
            cases h
            exact ⟨[], first, rest, rfl, by simp, hfirst⟩
          · rintro ⟨before, name, after, hsplit, hbefore, hname⟩
            cases before with
            | nil =>
                obtain ⟨rfl, -⟩ := List.cons.inj hsplit
                rw [hfirst] at hname
                exact congrArg Except.error (Except.error.inj hname)
            | cons earlier before =>
                obtain ⟨rfl, -⟩ := List.cons.inj hsplit
                obtain ⟨id, hid⟩ := hbefore first List.mem_cons_self
                rw [hfirst] at hid
                cases hid
      | ok id =>
          have hlater : s.ruleIds (first :: rest) = .error e ↔ s.ruleIds rest = .error e := by
            rw [ruleIds, hfirst]
            cases s.ruleIds rest <;> simp [bind, Except.bind, pure, Except.pure]
          rw [hlater, ih]
          constructor
          · rintro ⟨before, name, after, rfl, hbefore, hname⟩
            exact ⟨first :: before, name, after, rfl,
              List.forall_mem_cons.mpr ⟨⟨id, hfirst⟩, hbefore⟩, hname⟩
          · rintro ⟨before, name, after, hsplit, hbefore, hname⟩
            cases before with
            | nil =>
                obtain ⟨rfl, -⟩ := List.cons.inj hsplit
                rw [hfirst] at hname
                cases hname
            | cons earlier before =>
                obtain ⟨rfl, rfl⟩ := List.cons.inj hsplit
                exact ⟨before, name, after, rfl, (List.forall_mem_cons.mp hbefore).2, hname⟩

theorem exists_ruleIds (h : s.rules.Sound) {names : List String}
    (hnames : ∀ name ∈ names, ∃ rule ∈ s.rules.rules, rule.name = name ∧ rule.id.isSome = true) :
    ∃ ids, s.ruleIds names = .ok ids ∧ s.ruleNames ids = names := by
  induction names with
  | nil => exact ⟨[], rfl, rfl⟩
  | cons name names ih =>
      obtain ⟨⟨rule, hrule, hname, hsome⟩, hlater⟩ := List.forall_mem_cons.mp hnames
      obtain ⟨id, hid⟩ := Option.isSome_iff_exists.mp hsome
      obtain ⟨ids, hids, hback⟩ := ih hlater
      refine ⟨id :: ids, ruleIds_cons_of_ok (hname ▸ ruleId_of_rule h hrule hid) hids, ?_⟩
      rw [ruleNames, List.map_cons, ruleName_of_rule h hrule hid, hname]
      exact congrArg (List.cons name) hback

theorem ruleIds_ruleNames (h : s.rules.Sound) {ids : List RuleId}
    (hids : ∀ id ∈ ids, ∃ rule ∈ s.rules.rules, rule.id = some id) :
    s.ruleIds (s.ruleNames ids) = .ok ids := by
  induction ids with
  | nil => rfl
  | cons id ids ih =>
      obtain ⟨⟨rule, hrule, hid⟩, hlater⟩ := List.forall_mem_cons.mp hids
      rw [ruleNames, List.map_cons, ruleName_of_rule h hrule hid]
      exact ruleIds_cons_of_ok (ruleId_of_rule h hrule hid) (ih hlater)

/-- In a session with a rulebook that any requests have led to, names of rules with ids lead to
ids that lead back to these names, and ids of rules lead to names that lead back to these ids,
repeated or not and in the same order. A list of names fails exactly if it has a name that no
rule has or a rule without an id, and the failure tells of the first such name. -/
theorem names_and_ids_translate {stem : String} {requests : List RulebookRequest}
    (hrules : s.rules = ({ stem } : Rulebook).run requests) :
    (∀ names : List String,
      (∀ name ∈ names, ∃ rule ∈ s.rules.rules, rule.name = name ∧ rule.id.isSome = true) →
        ∃ ids, s.ruleIds names = .ok ids ∧ s.ruleNames ids = names) ∧
    (∀ ids : List RuleId, (∀ id ∈ ids, ∃ rule ∈ s.rules.rules, rule.id = some id) →
      s.ruleIds (s.ruleNames ids) = .ok ids) ∧
    ∀ (names : List String) (e : CommandError), s.ruleIds names = .error e ↔
      ∃ before name after, names = before ++ name :: after ∧
        (∀ other ∈ before,
          ∃ rule ∈ s.rules.rules, rule.name = other ∧ rule.id.isSome = true) ∧
        (name ∉ s.rules.names ∧ e = .notFound
            s!"Couldn't find rule '{name}'. Use 'rules list' to see current rules" ∨
          (∃ rule ∈ s.rules.rules, rule.name = name ∧ rule.id = none) ∧
            e = .invalid s!"Rule '{name}' has no id yet, run 'rules sync'") := by
  have h : s.rules.Sound := hrules ▸ (Rulebook.sound_empty stem).run requests
  have hleads (other : String) : (∃ id, s.ruleId other = .ok id) ↔
      ∃ rule ∈ s.rules.rules, rule.name = other ∧ rule.id.isSome = true := by
    simp only [ruleId_eq_ok_iff h, Option.isSome_iff_exists]
    exact ⟨fun ⟨id, rule, hrule, hname, hid⟩ => ⟨rule, hrule, hname, id, hid⟩,
      fun ⟨rule, hrule, hname, id, hid⟩ => ⟨id, rule, hrule, hname, hid⟩⟩
  refine ⟨fun names => exists_ruleIds h, fun ids => ruleIds_ruleNames h, fun names e => ?_⟩
  simp only [ruleIds_eq_error_iff, ruleId_eq_error_iff h, hleads]

/-- A rule changed under its id, rules that are pulled, one of which is gone, and a rule without
an id: the first name that fails comes before one that no rule has. -/
theorem names_and_ids_translate_after_merge :
    let requests : List RulebookRequest := [
      .insert (some "pets") (some "1") "cat" "pets", .insert none none "owl" "birds",
      .insert (some "other") (some "1") "dog" "pets",
      .merge [⟨"9", "jay", "birds"⟩, ⟨"1", "ant", "pests"⟩, ⟨"7", "hen", "birds"⟩],
      .removeById "9"]
    let s : Session MemoryStore :=
      { config := {}, store := {}, rules := ({ stem := "Rule" } : Rulebook).run requests }
    (∃ ids, s.ruleIds ["Rule2", "pets", "Rule2"] = .ok ids ∧
      s.ruleNames ids = ["Rule2", "pets", "Rule2"]) ∧
    s.ruleIds (s.ruleNames ["1", "7", "1"]) = .ok ["1", "7", "1"] ∧
    s.ruleIds ["pets", "Rule0", "ghost", "Rule1"] =
      .error (.invalid "Rule 'Rule0' has no id yet, run 'rules sync'") := by
  intro requests s
  have hbook : s.rules.rules = [⟨some "1", "pets", "ant", "pests"⟩, ⟨none, "Rule0", "owl", "birds"⟩,
      ⟨some "7", "Rule2", "hen", "birds"⟩] := by decide +kernel
  have hrules : s.rules = ({ stem := "Rule" } : Rulebook).run requests := rfl
  obtain ⟨hnames, hids, hfails⟩ := names_and_ids_translate hrules
  refine ⟨hnames _ ?_, hids _ ?_, (hfails _ _).mpr ⟨["pets"], "Rule0", ["ghost", "Rule1"], rfl, ?_,
    .inr ⟨?_, rfl⟩⟩⟩ <;> rw [hbook] <;> decide

end RuleDesk.Session
