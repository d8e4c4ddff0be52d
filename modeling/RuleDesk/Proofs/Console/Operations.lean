import RuleDesk.Console.Session
import RuleDesk.Proofs.Results
import RuleDesk.Proofs.Rule.Issued

/-!
# What the operations leave behind

For each operation on a session, what it has made of the session if it gives a result, and what
if it fails. An operation that fails has taken some of its steps. Each operation turns out to be
atomic: none of its own steps leaves a trace, since every step that can fail stands before the
first one that changes something, but for the calls on the store, which is in charge of its own.
-/
namespace RuleDesk.Session

variable {σ α : Type} {s t : Session σ}

section Lookups

variable {x : Except CommandError α}

@[simp] theorem run_lookup_eq_ok_iff {a : α} :
    (liftM x : Operation σ α).run s = .ok a t ↔ x = .ok a ∧ t = s := by
  cases x <;> simp [liftM, monadLift, MonadLift.monadLift, EStateM.run, eq_comm]

@[simp] theorem run_lookup_eq_error_iff {e : CommandError} :
    (liftM x : Operation σ α).run s = .error e t ↔ x = .error e ∧ t = s := by
  cases x <;> simp [liftM, monadLift, MonadLift.monadLift, EStateM.run, eq_comm]

/-- What is behind something that is found goes on with it in the same session. -/
theorem run_lookup_bind {β : Type} {a : α} (h : x = .ok a) (f : α → Operation σ β) :
    ((liftM x : Operation σ α) >>= f).run s = (f a).run s := by
  subst h
  rfl

theorem run_get_bind {β : Type} (f : Session σ → Operation σ β) :
    ((get : Operation σ (Session σ)) >>= f).run s = (f s).run s := rfl

end Lookups

theorem checkName_eq_ok_iff {name? : Option String} : checkName name? = .ok () ↔
    ∀ asked, name? = some asked → asked ≠ everyRule ∧ asked ≠ idFlag := by
  unfold checkName
  cases hreserved : name?.filter fun name => name = everyRule || name = idFlag with
  | none => simpa [Option.filter_eq_none_iff] using hreserved
  | some name =>
      obtain ⟨rfl, hname⟩ := Option.filter_eq_some_iff.mp hreserved
      simpa [or_iff_not_imp_left] using hname

theorem namedRule_eq_ok_iff {name : String} {rule : Rule} :
    s.namedRule name = .ok rule ↔ s.rules.byName? name = some rule := by
  unfold namedRule
  split <;> simp_all

/-- The rule of a name is taken out wherever there is one. -/
theorem removeRule_of_named {name : String} {rule : Rule}
    (h : s.rules.byName? name = some rule) :
    ∃ rules, s.rules.removeByName? name = some (rule, rules) ∧
      (removeRule name).run s = .ok rule { s with rules } := by
  have hremoved : s.rules.removeByName? name =
      some (rule, { s.rules with rules := s.rules.rules.eraseP (·.name == name) }) :=
    congrArg (Option.map _) h
  exact ⟨_, hremoved, by simp only [removeRule, EStateM.run, hremoved]⟩

section Traces

variable {β : Type} {x : Operation σ α} {f : α → Operation σ β}

/-- The operation leaves every session as it is. -/
structure ReadsOnly (x : Operation σ α) : Prop where
  ok : ∀ s a t, x.run s = .ok a t → t = s
  error : ∀ s e t, x.run s = .error e t → t = s

/-- The operation gives a result in every session. -/
def Succeeds (x : Operation σ α) : Prop :=
  ∀ s, ∃ a t, x.run s = .ok a t

theorem readsOnly_lookup (found : Except CommandError α) :
    ReadsOnly (liftM found : Operation σ α) :=
  ⟨fun _ _ _ h => (run_lookup_eq_ok_iff.mp h).2, fun _ _ _ h => (run_lookup_eq_error_iff.mp h).2⟩

theorem readsOnly_get : ReadsOnly (get : Operation σ (Session σ)) := by
  constructor
  · rintro s a t ⟨⟩
    rfl
  · rintro s e t ⟨⟩

theorem readsOnly_pure (a : α) : ReadsOnly (pure a : Operation σ α) := by
  constructor
  · rintro s b t ⟨⟩
    rfl
  · rintro s e t ⟨⟩

theorem readsOnly_throw (e : CommandError) : ReadsOnly (throw e : Operation σ α) := by
  constructor
  · rintro s a t ⟨⟩
  · rintro s e t ⟨⟩
    rfl

theorem succeeds_pure (a : α) : Succeeds (pure a : Operation σ α) :=
  fun s => ⟨a, s, rfl⟩

theorem succeeds_modifyGet (change : Session σ → α × Session σ) :
    Succeeds (modifyGet change : Operation σ α) :=
  fun _ => ⟨_, _, rfl⟩

theorem Succeeds.bind (hx : Succeeds x) (hf : ∀ a, Succeeds (f a)) : Succeeds (x >>= f) := by
  intro s
  obtain ⟨a, u, hu⟩ := hx s
  obtain ⟨b, t, ht⟩ := hf a u
  exact ⟨b, t, run_bind_eq_ok_iff.mpr ⟨a, u, hu, ht⟩⟩

theorem ReadsOnly.bind (hx : ReadsOnly x) (hf : ∀ a, ReadsOnly (f a)) : ReadsOnly (x >>= f) := by
  constructor
  · intro s b t h
    obtain ⟨a, u, hu, h⟩ := run_bind_eq_ok_iff.mp h
    exact ((hf a).ok u b t h).trans (hx.ok s a u hu)
  · intro s e t h
    rcases run_bind_eq_error_iff.mp h with h | ⟨a, u, hu, h⟩
    · exact hx.error s e t h
    · exact ((hf a).error u e t h).trans (hx.ok s a u hu)

end Traces

variable [RuleStore σ]

theorem storeRule_eq_ok_iff {expression tag : String} {id : RuleId} :
    (storeRule expression tag).run s = .ok id t ↔ ∃ store,
      RuleStore.add s.store expression tag = .ok (.ok id store) ∧ t = { s with store } := by
  simp only [storeRule, EStateM.run]
  constructor
  · intro h
    split at h <;> cases h
    next hadd => exact ⟨_, hadd, rfl⟩
  · rintro ⟨store, hadd, rfl⟩
    rw [hadd]

/-- A rule is added if its name is not reserved, its text compiles and the store takes the
compiled text. The rulebook takes it under the store's id. -/
theorem addRule_eq_ok_iff {name? tag? : Option String} {text : String} {rule : Rule} :
    (addRule name? text tag?).run s = .ok rule t ↔
      (∀ asked, name? = some asked → asked ≠ everyRule ∧ asked ≠ idFlag) ∧
      ∃ expression id store, compile text = .ok expression ∧
        RuleStore.add s.store expression (tag?.getD s.config.defaultTag) =
          .ok (.ok id store) ∧
        rule = (s.rules.insert name? (some id) expression (tag?.getD s.config.defaultTag)).1 ∧
        t = { s with
          store
          rules := (s.rules.insert name? (some id) expression
            (tag?.getD s.config.defaultTag)).2 } := by
  rw [← checkName_eq_ok_iff]
  unfold addRule
  simp only [run_bind_eq_ok_iff, run_lookup_eq_ok_iff, mapError_eq_ok_iff]
  constructor
  · rintro ⟨⟨⟩, _, ⟨hname, rfl⟩, expression, _, ⟨hcompile, rfl⟩, _, _, hget, id, u, hstored, h⟩
    cases hget
    obtain ⟨store, hadd, rfl⟩ := storeRule_eq_ok_iff.mp hstored
    cases h
    exact ⟨hname, expression, id, store, hcompile, hadd, rfl, rfl⟩
  · rintro ⟨hname, expression, id, store, hcompile, hadd, rfl, rfl⟩
    exact ⟨(), s, ⟨hname, rfl⟩, expression, s, ⟨hcompile, rfl⟩, s, s, rfl, id, _,
      storeRule_eq_ok_iff.mpr ⟨store, hadd, rfl⟩, rfl⟩

theorem addRule_eq_ok {name? tag? : Option String} {text : String} {rule : Rule}
    (h : (addRule name? text tag?).run s = .ok rule t) :
    ∃ id expression tag store, RuleStore.add s.store expression tag = .ok (.ok id store) ∧
      t = { s with store, rules := (s.rules.insert name? (some id) expression tag).2 } := by
  obtain ⟨-, expression, id, store, -, hadd, -, ht⟩ := addRule_eq_ok_iff.mp h
  exact ⟨id, expression, _, store, hadd, ht⟩

theorem unstoreRule_eq_ok {id : RuleId} (h : (unstoreRule id).run s = .ok () t) :
    ∃ store, t = { s with store } := by
  simp only [unstoreRule, EStateM.run] at h
  split at h <;> cases h <;> exact ⟨_, rfl⟩

theorem forgetId_eq_ok {id? : Option RuleId} (h : (forgetId id?).run s = .ok () t) :
    id? = none ∧ t = s ∨ ∃ id store, id? = some id ∧
      (unstoreRule id).run s = .ok () { s with store } ∧
      t = { s with store, handles := s.handles.forgetRule id } := by
  cases id? with
  | none =>
      cases h
      exact .inl ⟨rfl, rfl⟩
  | some id =>
      obtain ⟨⟨⟩, u, hunstored, h⟩ := run_bind_eq_ok_iff.mp h
      obtain ⟨store, rfl⟩ := unstoreRule_eq_ok hunstored
      cases h
      exact .inr ⟨id, store, rfl, hunstored, rfl⟩

theorem deleteRule_of_named {u : Session σ} {name : String} {rule : Rule}
    (hfound : s.rules.byName? name = some rule) (hforgotten : (forgetId rule.id).run s = .ok () u)
    (hremoved : (removeRule name).run u = .ok rule t) :
    (deleteRule name).run s = .ok rule t := by
  unfold deleteRule
  simp only [run_bind_eq_ok_iff, run_lookup_eq_ok_iff, namedRule_eq_ok_iff]
  exact ⟨s, s, rfl, rule, s, ⟨hfound, rfl⟩, (), u, hforgotten, hremoved⟩

/-- A deleted rule goes from the rulebook, and its id from the store and every handle. -/
theorem deleteRule_eq_ok {name : String} {rule : Rule}
    (h : (deleteRule name).run s = .ok rule t) :
    ∃ rules, s.rules.removeByName? name = some (rule, rules) ∧
      (rule.id = none ∧ t = { s with rules } ∨
        ∃ id store, rule.id = some id ∧ (unstoreRule id).run s = .ok () { s with store } ∧
          t = { s with store, rules, handles := s.handles.forgetRule id }) := by
  unfold deleteRule at h
  simp only [run_bind_eq_ok_iff, run_lookup_eq_ok_iff, namedRule_eq_ok_iff] at h
  obtain ⟨_, _, hget, found, _, ⟨hfound, rfl⟩, ⟨⟩, u, hforgotten, h⟩ := h
  cases hget
  obtain ⟨hid, rfl⟩ | ⟨id, store, hid, hunstored, rfl⟩ := forgetId_eq_ok hforgotten
  · obtain ⟨rules, hremoved, hrun⟩ := removeRule_of_named hfound
    rw [hrun] at h
    cases h
    exact ⟨rules, hremoved, .inl ⟨hid, rfl⟩⟩
  · obtain ⟨rules, hremoved, hrun⟩ := removeRule_of_named
      (s := { s with store, handles := s.handles.forgetRule id }) hfound
    rw [hrun] at h
    cases h
    exact ⟨rules, hremoved, .inr ⟨id, store, hid, hunstored, rfl⟩⟩

theorem deleteAllRules_eq_ok {count : Nat} (h : deleteAllRules.run s = .ok count t) :
    ∃ store, t =
      { s with store, rules := s.rules.clear, handles := s.handles.forgetAllRules } := by
  unfold deleteAllRules at h
  obtain ⟨⟨⟩, u, hcleared, h⟩ := run_bind_eq_ok_iff.mp h
  simp only [clearStore, EStateM.run] at hcleared
  split at hcleared
  · cases hcleared
    cases h
    exact ⟨_, rfl⟩
  · cases hcleared

theorem sync_eq_ok {report : SyncReport} (h : sync.run s = .ok report t) :
    ∃ listing, t = { s with rules := (s.rules.merge listing).1 } := by
  unfold sync at h
  simp only [run_bind_eq_ok_iff, run_lookup_eq_ok_iff] at h
  obtain ⟨_, _, hget, listing, _, ⟨-, rfl⟩, h⟩ := h
  cases hget
  cases h
  exact ⟨listing, rfl⟩

/-- What a store makes of itself in a call that it refuses. -/
inductive RefusedCall : σ → StoreError → σ → Prop where
  | add {a b : σ} {text tag : String} {cause : StoreError} :
      RuleStore.add a text tag = .ok (.error cause b) → RefusedCall a cause b
  | delete {a b : σ} {id : RuleId} {cause : StoreError} :
      RuleStore.delete a id = .error cause b → RefusedCall a cause b
  | deleteAll {a b : σ} {cause : StoreError} :
      RuleStore.deleteAll a = .error cause b → RefusedCall a cause b

/-- What is left of a session where nothing has changed it but a refusing or breaking store. -/
inductive Failed (s : Session σ) : CommandError → Session σ → Prop where
  | unchanged (e : CommandError) : Failed s e s
  | refused {cause : StoreError} {store : σ} :
      RefusedCall s.store cause store → Failed s (.store cause) { s with store }
  | broken {fault : Fault} {expression tag : String} :
      RuleStore.add s.store expression tag = .error fault → Failed s (.fault fault) (s.abort fault)

section Atomic

variable {β : Type} {x : Operation σ α} {f : α → Operation σ β}

/-- The operation fails without a trace of its own. -/
def Atomic (x : Operation σ α) : Prop :=
  ∀ s e t, x.run s = .error e t → s.Failed e t

theorem ReadsOnly.atomic (hx : ReadsOnly x) : Atomic x := by
  intro s e t h
  rw [hx.error s e t h]
  exact .unchanged e

theorem ReadsOnly.bind_atomic (hx : ReadsOnly x) (hf : ∀ a, Atomic (f a)) :
    Atomic (x >>= f) := by
  intro s e t hfailed
  rcases run_bind_eq_error_iff.mp hfailed with h | ⟨a, u, hu, h⟩
  · exact hx.atomic s e t h
  · obtain rfl := hx.ok s a u hu
    exact hf a u e t h

/-- Behind the last step that can fail the session may be changed. -/
theorem Atomic.bind_succeeds (hx : Atomic x) (hf : ∀ a, Succeeds (f a)) : Atomic (x >>= f) := by
  intro s e t h
  rcases run_bind_eq_error_iff.mp h with h | ⟨a, u, -, h⟩
  · exact hx s e t h
  · obtain ⟨b, v, hv⟩ := hf a u
    rw [hv] at h
    cases h

/-- The handles are changed, and what comes behind it fails only if they have stayed the same. -/
theorem atomic_withHandles {change : Handles → Handles × α} (hf : ∀ a, ReadsOnly (f a))
    (h : ∀ hs, Succeeds (f (change hs).2) ∨ (change hs).1 = hs) :
    Atomic (withHandles change >>= f) := by
  intro s e t hfailed
  rcases run_bind_eq_error_iff.mp hfailed with hchanged | ⟨a, u, hchanged, hbehind⟩
  · cases hchanged
  · cases hchanged
    rcases h s.handles with hsucceeds | hsame
    · obtain ⟨b, v, hv⟩ := hsucceeds { s with handles := (change s.handles).1 }
      rw [hv] at hbehind
      cases hbehind
    · rw [(hf _).error _ e t hbehind, hsame]
      exact .unchanged e

end Atomic

theorem storeRule_atomic (expression tag : String) :
    Atomic (storeRule expression tag : Operation σ RuleId) := by
  intro s e t h
  simp only [storeRule, EStateM.run] at h
  split at h <;> cases h
  · next hadd => exact .broken hadd
  · next hadd => exact .refused (.add hadd)

theorem unstoreRule_atomic (id : RuleId) : Atomic (unstoreRule id : Operation σ Unit) := by
  intro s e t h
  simp only [unstoreRule, EStateM.run] at h
  split at h <;> cases h
  next hdelete => exact .refused (.delete hdelete)

theorem clearStore_atomic : Atomic (clearStore : Operation σ Unit) := by
  intro s e t h
  simp only [clearStore, EStateM.run] at h
  split at h <;> cases h
  next hdelete => exact .refused (.deleteAll hdelete)

theorem sync_atomic : Atomic (sync : Operation σ SyncReport) :=
  readsOnly_get.bind_atomic fun _ =>
    (readsOnly_lookup _).atomic.bind_succeeds fun _ => succeeds_modifyGet _

/-- A rule enters the rulebook behind everything that can refuse it. -/
theorem addRule_atomic (name? : Option String) (text : String) (tag? : Option String) :
    Atomic (addRule name? text tag? : Operation σ Rule) :=
  (readsOnly_lookup _).bind_atomic fun _ => (readsOnly_lookup _).bind_atomic fun _ =>
    readsOnly_get.bind_atomic fun _ =>
      (storeRule_atomic _ _).bind_succeeds fun _ => succeeds_modifyGet _

theorem forgetId_atomic (id? : Option RuleId) : Atomic (forgetId id? : Operation σ Unit) := by
  cases id? with
  | none => exact (readsOnly_pure ()).atomic
  | some id => exact (unstoreRule_atomic id).bind_succeeds fun _ => succeeds_modifyGet _

/-- The rule is taken out of the rulebook last, behind changes of the store and the handles, and
that is a step that could fail. It does not, since the rule was found in the same rulebook. -/
theorem deleteRule_atomic (name : String) : Atomic (deleteRule name : Operation σ Rule) := by
  intro s e t hfailed
  unfold deleteRule at hfailed
  rcases run_bind_eq_error_iff.mp hfailed with hget | ⟨_, _, hget, hbehind⟩
  · cases hget
  cases hget
  rcases run_bind_eq_error_iff.mp hbehind with hnamed | ⟨rule, u, hnamed, hlast⟩
  · exact (readsOnly_lookup _).atomic _ _ _ hnamed
  obtain ⟨hfound, rfl⟩ := run_lookup_eq_ok_iff.mp hnamed
  rcases run_bind_eq_error_iff.mp hlast with hforgotten | ⟨⟨⟩, v, hforgotten, hremoved⟩
  · exact forgetId_atomic _ _ _ _ hforgotten
  have hsame : v.rules = u.rules := by
    obtain ⟨-, rfl⟩ | ⟨id, store, -, -, rfl⟩ := forgetId_eq_ok hforgotten <;> rfl
  obtain ⟨rules, -, hrun⟩ :=
    removeRule_of_named (s := v) (hsame ▸ namedRule_eq_ok_iff.mp hfound)
  rw [hrun] at hremoved
  cases hremoved

theorem deleteAllRules_atomic : Atomic (deleteAllRules : Operation σ Nat) := by
  refine clearStore_atomic.bind_succeeds fun _ => ?_
  refine Succeeds.bind (fun s => ⟨s, s, rfl⟩) fun _ => ?_
  exact Succeeds.bind (succeeds_modifyGet _) fun _ =>
    Succeeds.bind (succeeds_modifyGet _) fun _ => succeeds_pure _

/-- A store of numbered rules stays as it is in every call that it refuses. -/
theorem RefusedCall.eq_self {a b : MemoryStore} {cause : StoreError}
    (h : RefusedCall a cause b) : b = a := by
  cases h with
  | add hadd => exact MemoryStore.state_of_add_refused hadd
  | delete hdelete => exact MemoryStore.state_of_delete_refused hdelete
  | deleteAll hcleared => cases hcleared

/-- Over such a store nothing at all is left of an operation that fails. -/
theorem Failed.eq_self {s t : Session MemoryStore} {e : CommandError} (h : s.Failed e t)
    (hgoesOn : ∀ fault, e ≠ .fault fault) : t = s := by
  cases h with
  | unchanged => rfl
  | refused hcall => rw [hcall.eq_self]
  | broken => exact absurd rfl (hgoesOn _)

end RuleDesk.Session
