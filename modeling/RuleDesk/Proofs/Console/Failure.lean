import RuleDesk.Proofs.Command.Answer
import RuleDesk.Proofs.Console.Change
import RuleDesk.Proofs.Files.Run

/-!
# Lines that fail

A line that fails leaves the whole session as it was and shows nothing, unless it is the output
that failed or the program that broke down. The commands of the console are of two kinds: effects
on the session, each of them atomic, and the replay, which never changes it.
-/
namespace RuleDesk
namespace Console

variable {σ : Type} [RuleStore σ]

open Session

/-- The two kinds of handlers in the console's tree. -/
def IsEffectOrReplay (handler : Handler (Session σ)) : Prop :=
  (∃ effect : Effect σ, (∀ args, Atomic (effect args)) ∧ handler = effect.toHandler) ∨
    handler = replay

theorem forall_holds_command {effect : Effect σ} (hatomic : ∀ args, Atomic (effect args))
    {name description : String} {signature : Signature} :
    ∀ handler, (command name description signature effect).Holds handler →
      IsEffectOrReplay handler := by
  intro handler h
  cases h with
  | command hrun =>
      cases hrun
      exact .inl ⟨effect, hatomic, rfl⟩

theorem subscriptionGroup_holds :
    ∀ handler, (subscriptionGroup : Group (Session σ)).Holds handler →
      IsEffectOrReplay handler := by
  refine Group.forall_holds_addAll_new _ _ ?_
  simp only [List.forall_mem_cons, List.not_mem_nil, false_implies, implies_true, and_true]
  exact ⟨forall_holds_command subscribe_atomic, forall_holds_command unsubscribe_atomic⟩

theorem handleGroup_holds :
    ∀ handler, (handleGroup : Group (Session σ)).Holds handler → IsEffectOrReplay handler := by
  refine Group.forall_holds_addAll_new _ _ ?_
  simp only [List.forall_mem_cons, List.not_mem_nil, false_implies, implies_true, and_true]
  exact ⟨forall_holds_command addHandle_atomic, forall_holds_command deleteHandle_atomic,
    forall_holds_command fun args => (viewHandle_readsOnly args).atomic,
    forall_holds_command fun args => (listHandles_readsOnly args).atomic,
    forall_holds_command setFile_atomic, Group.forall_holds_toNode subscriptionGroup_holds⟩

theorem streamGroup_holds :
    ∀ handler, (streamGroup : Group (Session σ)).Holds handler → IsEffectOrReplay handler := by
  refine Group.forall_holds_addAll_new _ _ ?_
  simp only [List.forall_mem_cons, List.not_mem_nil, false_implies, implies_true, and_true]
  intro handler h
  cases h with
  | command hrun =>
      cases hrun
      exact .inr rfl

theorem ruleGroup_holds :
    ∀ handler, (ruleGroup : Group (Session σ)).Holds handler → IsEffectOrReplay handler := by
  refine Group.forall_holds_addAll_new _ _ ?_
  simp only [List.forall_mem_cons, List.not_mem_nil, false_implies, implies_true, and_true]
  exact ⟨forall_holds_command addRule_atomic, forall_holds_command deleteRule_atomic,
    forall_holds_command fun args => (viewRule_readsOnly args).atomic,
    forall_holds_command fun args => (listRules_readsOnly args).atomic,
    forall_holds_command syncRules_atomic,
    forall_holds_command fun args => (compileRule_readsOnly args).atomic⟩

theorem root_holds :
    ∀ handler, (root : Group (Session σ)).Holds handler → IsEffectOrReplay handler := by
  refine Group.forall_holds_addAll_new _ _ ?_
  simp only [List.forall_mem_cons, List.not_mem_nil, false_implies, implies_true, and_true]
  exact ⟨Group.forall_holds_toNode ruleGroup_holds, Group.forall_holds_toNode handleGroup_holds,
    Group.forall_holds_toNode streamGroup_holds, forall_holds_command quit_atomic⟩

omit [RuleStore σ] in
/-- Whatever a file answers, in the middle of the records too, the session stays. -/
theorem replay_state {args : Args} {s t : Session σ} {result : Except CommandError String}
    (h : (replay args s).EndsIn (t, result)) : t = s := by
  unfold replay at h
  split at h
  · exact (Prod.mk.inj (FileTask.endsIn_done_iff.mp h)).1
  · split at h
    · exact (Prod.mk.inj (FileTask.endsIn_done_iff.mp h)).1
    · rw [FileTask.bind_eq, FileTask.endsIn_bind_iff] at h
      obtain ⟨opened, -, h⟩ := h
      cases opened with
      | error cause => exact (Prod.mk.inj (FileTask.endsIn_done_iff.mp h)).1
      | ok file =>
          obtain ⟨replayed, -, h⟩ := FileTask.endsIn_bind_iff.mp h
          exact (Prod.mk.inj (FileTask.endsIn_done_iff.mp h)).1

/-- Of a command that fails no step of its own has left a trace. -/
theorem IsEffectOrReplay.failed {handler : Handler (Session σ)} (hkind : IsEffectOrReplay handler)
    {args : Args} {s t : Session σ} {cause : CommandError}
    (h : (handler args s).EndsIn (t, .error cause)) : s.Failed cause t := by
  rcases hkind with ⟨effect, hatomic, rfl⟩ | rfl
  · unfold Effect.toHandler at h
    split at h
    · cases FileTask.endsIn_done_iff.mp h
    · next e u heffect =>
        cases FileTask.endsIn_done_iff.mp h
        exact hatomic args s cause t heffect
  · rw [replay_state h]
    exact .unchanged cause

end Console

/-- A line that fails for any reason but the output's leaves the session and the
output exactly as they were. Where the program breaks down, the line does not fail:
it does not come to an end. -/
theorem Session.execute_failed {s : Session MemoryStore} {out : Output} {line : String}
    {o : Outcome (Session MemoryStore)} (h : (s.execute out line).EndsIn o) {e : DispatchError}
    (he : o.result = .error e)
    (hcause : ∀ command cause, e ≠ .command command (.output cause))
    (hends : ∀ command fault, e ≠ .command command (.fault fault)) :
    o.state = s ∧ o.out = out := by
  cases Group.dispatch_answer h with
  | help =>
      obtain ⟨cause, rfl⟩ := Outcome.ofText_error he
      exact absurd rfl (hcause _ cause)
  | shown =>
      obtain ⟨cause, rfl⟩ := Outcome.ofText_error he
      exact absurd rfl (hcause _ cause)
  | unrecognized | usage => exact ⟨rfl, rfl⟩
  | failed command hholds hend =>
      cases he
      refine ⟨((Console.root_holds _ hholds).failed hend).eq_self fun fault hfault => ?_, rfl⟩
      exact hends command fault (by rw [hfault])

instance Outcome.decEqResult : DecidableEq (Except DispatchError Unit)
  | .ok _, .ok _ => .isTrue rfl
  | .error d, .error e => decidable_of_iff (d = e) ⟨congrArg Except.error, Except.error.inj⟩
  | .ok _, .error _ => .isFalse nofun
  | .error _, .ok _ => .isFalse nofun

/-- A replay that has written to the file of one handle and cannot make that of the
other one. -/
theorem Session.execute_failed_halfway :
    let s : Session MemoryStore :=
      { config := {}, store := {}
        rules := { rules := [⟨some "1", "cats", "cat", "..."⟩] }
        handles := ⟨[⟨0, "good", "/a", []⟩, ⟨1, "bad", "/taken", ["1"]⟩], 2⟩ }
    let files : FileSpace :=
      { entries := [(["taken"], .directory), (["capture"], .regular
          (.ofText "\x7b\"data\": 5, \"matching_rules\": [\x7b\"id\": \"1\"\x7d]\x7d"))] }
    let run := (s.execute {} "stream replay /capture").run files
    run.1.result = .error (.command "stream replay" (.sink (.write "/taken" .isDirectory))) ∧
      FileSpace.entry? run.2 ["a"] = some (.regular (.ofText "5\n")) ∧
      run.1.state = s ∧ run.1.out = {} := by
  intro s files run
  have hresult : run.1.result =
      .error (.command "stream replay" (.sink (.write "/taken" .isDirectory))) := by decide +kernel
  have hwritten : FileSpace.entry? run.2 ["a"] = some (.regular (.ofText "5\n")) := by
    decide +kernel
  exact ⟨hresult, hwritten,
    execute_failed (FileTask.endsIn_run _ files) hresult (by simp) (by simp)⟩

end RuleDesk
