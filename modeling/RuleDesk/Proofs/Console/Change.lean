import RuleDesk.Console.Commands
import RuleDesk.Proofs.Command.Within
import RuleDesk.Proofs.Console.Operations
import RuleDesk.Proofs.Handle.Registry

/-!
# What a line can do to a session

Every way in which a line of input changes a session, as one relation. What holds
of every session that lines lead to is proved by cases on it, without a look at
words, parameters or texts.
-/
namespace RuleDesk

namespace Session

variable {σ : Type} [RuleStore σ]

/-- One change of a session. -/
inductive Change : Session σ → Session σ → Prop where
  | none (s : Session σ) : Change s s
  | failed {s t : Session σ} {e : CommandError} : s.Failed e t → Change s t
  | added {s t : Session σ} {name? tag? : Option String} {text : String} {rule : Rule} :
      (addRule name? text tag?).run s = .ok rule t → Change s t
  | deleted {s t : Session σ} {name : String} {rule : Rule} :
      (deleteRule name).run s = .ok rule t → Change s t
  | cleared {s t : Session σ} {count : Nat} : deleteAllRules.run s = .ok count t → Change s t
  | synced {s t : Session σ} {report : SyncReport} : sync.run s = .ok report t → Change s t
  | handleAdded {s : Session σ} {name file : String} {names : List String} {ids : List RuleId}
      {handle : Handle} {handles : Handles} :
      s.ruleIds names = .ok ids → s.handles.add name file ids = (handles, some handle) →
        name ≠ "" → Change s { s with handles }
  | handleRemoved {s : Session σ} {name : String} {handle : Handle} {handles : Handles} :
      s.handles.remove name = (handles, some handle) → Change s { s with handles }
  | fileSet {s : Session σ} {name file : String} {handles : Handles} :
      s.handles.setFile name file = (handles, true) → Change s { s with handles }
  | subscribed {s : Session σ} {name : String} {names : List String} {ids : List RuleId}
      {handles : Handles} :
      s.ruleIds names = .ok ids → s.handles.subscribe name ids = (handles, true) →
        Change s { s with handles }
  | unsubscribed {s : Session σ} {name : String} {names : List String} {ids : List RuleId}
      {handles : Handles} :
      s.ruleIds names = .ok ids → s.handles.unsubscribe name ids = (handles, true) →
        Change s { s with handles }
  | stopped (s : Session σ) : Change s s.stop

end Session

namespace Console

variable {σ : Type}

open Session

theorem viewRule_readsOnly (args : Args) : ReadsOnly (viewRule args : Operation σ String) :=
  (readsOnly_lookup _).bind fun _ => readsOnly_get.bind fun _ =>
    (readsOnly_lookup _).bind fun _ => readsOnly_pure _

theorem listRules_readsOnly (args : Args) : ReadsOnly (listRules args : Operation σ String) := by
  refine readsOnly_get.bind fun s => ?_
  split <;> exact readsOnly_pure _

theorem compileRule_readsOnly (args : Args) :
    ReadsOnly (compileRule args : Operation σ String) :=
  (readsOnly_lookup _).bind fun _ => (readsOnly_lookup _).bind fun _ => readsOnly_pure _

theorem viewHandle_readsOnly (args : Args) :
    ReadsOnly (viewHandle args : Operation σ String) := by
  refine (readsOnly_lookup _).bind fun name => readsOnly_get.bind fun s => ?_
  split
  · exact readsOnly_throw _
  · exact readsOnly_pure _

theorem listHandles_readsOnly (args : Args) :
    ReadsOnly (listHandles args : Operation σ String) := by
  refine readsOnly_get.bind fun s => ?_
  split <;> exact readsOnly_pure _

theorem onHandle_eq_ok {name text shown : String} {request : Handles → Handles × Bool}
    {s t : Session σ} (h : (onHandle name request text).run s = .ok shown t) :
    ∃ handles, request s.handles = (handles, true) ∧ t = { s with handles } := by
  obtain ⟨granted, u, hchanged, hshown⟩ := run_bind_eq_ok_iff.mp h
  cases hchanged
  split at hshown
  · next hgranted =>
      cases hshown
      exact ⟨_, Prod.ext rfl hgranted, rfl⟩
  · cases hshown

variable [RuleStore σ]

/-- An atomic effect makes a change if its successes do. -/
theorem Effect.within {effect : Effect σ} (hatomic : ∀ args, Atomic (effect args))
    (h : ∀ args s t text, args.Filled → (effect args).run s = .ok text t → s.Change t) :
    effect.toHandler.Within Session.Change := by
  intro args s r hargs hr
  unfold Effect.toHandler at hr
  split at hr
  · next text t heffect =>
      obtain rfl := FileTask.endsIn_done_iff.mp hr
      exact h args s t text hargs heffect
  · next e t heffect =>
      obtain rfl := FileTask.endsIn_done_iff.mp hr
      exact .failed (hatomic args s e t heffect)

/-- The commands that only look change nothing. -/
theorem Effect.within_of_readsOnly {effect : Effect σ} (h : ∀ args, ReadsOnly (effect args)) :
    effect.toHandler.Within Session.Change :=
  Effect.within (fun args => (h args).atomic) fun args s t text _ heffect => by
    obtain rfl := (h args).ok s text t heffect
    exact .none t

/-- A request on a handle is atomic if the registry stays the same where it is refused. -/
theorem onHandle_atomic {name text : String} {request : Handles → Handles × Bool}
    (hrefused : ∀ hs hs', request hs = (hs', false) → hs' = hs) :
    Atomic (onHandle name request text : Operation σ String) := by
  refine atomic_withHandles (fun granted => ?_) fun hs => ?_
  · cases granted
    · exact readsOnly_throw _
    · exact readsOnly_pure _
  · cases hgranted : (request hs).2
    · exact .inr (hrefused hs _ (Prod.ext rfl hgranted))
    · exact .inl (succeeds_pure text)

theorem addRule_atomic (args : Args) : Atomic (addRule args : Operation σ String) :=
  (readsOnly_lookup _).bind_atomic fun _ => (readsOnly_lookup _).bind_atomic fun _ =>
    (Session.addRule_atomic _ _ _).bind_succeeds fun _ => succeeds_pure _

theorem addRule_within : (addRule : Effect σ).toHandler.Within Session.Change := by
  refine Effect.within addRule_atomic fun args s t text _ h => ?_
  simp only [addRule, run_bind_eq_ok_iff, run_lookup_eq_ok_iff] at h
  obtain ⟨name, _, ⟨-, rfl⟩, rule, _, ⟨-, rfl⟩, added, u, hadd, hshown⟩ := h
  cases hshown
  exact .added hadd

theorem deleteRule_atomic (args : Args) : Atomic (deleteRule args : Operation σ String) := by
  refine (readsOnly_lookup _).bind_atomic fun name => ?_
  split
  · exact deleteAllRules_atomic.bind_succeeds fun _ => succeeds_pure _
  · exact (Session.deleteRule_atomic name).bind_succeeds fun _ => succeeds_pure _

/-- The name of the command stands for one rule or for all. -/
theorem deleteRule_eq_ok {args : Args} {s t : Session σ} {text : String}
    (h : (deleteRule args).run s = .ok text t) : ∃ name, args.require "name" = .ok name ∧
      (name = everyRule ∧ (∃ count, deleteAllRules.run s = .ok count t) ∨
        name ≠ everyRule ∧ ∃ rule, (Session.deleteRule name).run s = .ok rule t) := by
  obtain ⟨name, _, hlookup, hdelete⟩ := run_bind_eq_ok_iff.mp h
  obtain ⟨hname, rfl⟩ := run_lookup_eq_ok_iff.mp hlookup
  refine ⟨name, hname, ?_⟩
  split at hdelete
  · next hevery =>
      obtain ⟨count, u, hcleared, hshown⟩ := run_bind_eq_ok_iff.mp hdelete
      cases hshown
      exact .inl ⟨hevery, count, hcleared⟩
  · next hone =>
      obtain ⟨rule, u, hdeleted, hshown⟩ := run_bind_eq_ok_iff.mp hdelete
      cases hshown
      exact .inr ⟨hone, rule, hdeleted⟩

theorem deleteRule_within : (deleteRule : Effect σ).toHandler.Within Session.Change := by
  refine Effect.within deleteRule_atomic fun args s t text _ h => ?_
  obtain ⟨name, -, ⟨-, count, hcleared⟩ | ⟨-, rule, hdeleted⟩⟩ := deleteRule_eq_ok h
  · exact .cleared hcleared
  · exact .deleted hdeleted

theorem syncRules_atomic (args : Args) : Atomic (syncRules args : Operation σ String) :=
  sync_atomic.bind_succeeds fun _ => succeeds_pure _

theorem syncRules_within : (syncRules : Effect σ).toHandler.Within Session.Change := by
  refine Effect.within syncRules_atomic fun args s t text _ h => ?_
  obtain ⟨report, u, hsync, hshown⟩ := run_bind_eq_ok_iff.mp h
  cases hshown
  exact .synced hsync

/-- A handle is added if its name is free, and nothing is refused once it is there. -/
theorem addHandle_atomic (args : Args) : Atomic (addHandle args : Operation σ String) := by
  refine (readsOnly_lookup _).bind_atomic fun name => (readsOnly_lookup _).bind_atomic fun file =>
    readsOnly_get.bind_atomic fun s => (readsOnly_lookup _).bind_atomic fun rules => ?_
  refine atomic_withHandles (fun added => ?_) fun hs => ?_
  · cases added
    · exact readsOnly_throw _
    · exact readsOnly_pure _
  · cases hadded : (hs.add name file rules).2 with
    | none => exact .inr (Handles.state_of_add_refused (Prod.ext rfl hadded))
    | some handle => exact .inl (succeeds_pure _)

theorem addHandle_within : (addHandle : Effect σ).toHandler.Within Session.Change := by
  refine Effect.within addHandle_atomic fun args s t text hargs h => ?_
  simp only [addHandle, run_bind_eq_ok_iff, run_lookup_eq_ok_iff] at h
  obtain ⟨name, _, ⟨hname, rfl⟩, file, _, ⟨-, rfl⟩, _, _, hget, ids, _, ⟨hids, rfl⟩, added, u,
    hchanged, hshown⟩ := h
  cases hget
  cases hchanged
  split at hshown
  · next handle hadded =>
      cases hshown
      exact .handleAdded hids (Prod.ext rfl hadded) (hargs.require hname)
  · cases hshown

theorem deleteHandle_atomic (args : Args) : Atomic (deleteHandle args : Operation σ String) := by
  refine (readsOnly_lookup _).bind_atomic fun name => onHandle_atomic fun hs hs' hrefused => ?_
  rcases hremoved : hs.remove name with ⟨left, _ | handle⟩ <;> rw [hremoved] at hrefused <;>
    cases hrefused
  exact Handles.state_of_remove_refused hremoved

theorem deleteHandle_within : (deleteHandle : Effect σ).toHandler.Within Session.Change := by
  refine Effect.within deleteHandle_atomic fun args s t text _ h => ?_
  obtain ⟨name, u, hlookup, hrequest⟩ := run_bind_eq_ok_iff.mp h
  obtain ⟨-, rfl⟩ := run_lookup_eq_ok_iff.mp hlookup
  obtain ⟨handles, hgranted, rfl⟩ := onHandle_eq_ok hrequest
  rcases hremoved : u.handles.remove name with ⟨left, _ | handle⟩ <;> rw [hremoved] at hgranted <;>
    cases hgranted
  exact .handleRemoved hremoved

theorem setFile_atomic (args : Args) : Atomic (setFile args : Operation σ String) :=
  (readsOnly_lookup _).bind_atomic fun _ => (readsOnly_lookup _).bind_atomic fun _ =>
    onHandle_atomic fun _ _ => Handles.state_of_change_refused

theorem setFile_within : (setFile : Effect σ).toHandler.Within Session.Change := by
  refine Effect.within setFile_atomic fun args s t text _ h => ?_
  simp only [setFile, run_bind_eq_ok_iff, run_lookup_eq_ok_iff] at h
  obtain ⟨name, _, ⟨-, rfl⟩, file, _, ⟨-, rfl⟩, hrequest⟩ := h
  obtain ⟨handles, hset, rfl⟩ := onHandle_eq_ok hrequest
  exact .fileSet hset

theorem subscribe_atomic (args : Args) : Atomic (subscribe args : Operation σ String) :=
  (readsOnly_lookup _).bind_atomic fun _ => readsOnly_get.bind_atomic fun _ =>
    (readsOnly_lookup _).bind_atomic fun _ =>
      onHandle_atomic fun _ _ => Handles.state_of_change_refused

theorem subscribe_within : (subscribe : Effect σ).toHandler.Within Session.Change := by
  refine Effect.within subscribe_atomic fun args s t text _ h => ?_
  simp only [subscribe, run_bind_eq_ok_iff, run_lookup_eq_ok_iff] at h
  obtain ⟨name, _, ⟨-, rfl⟩, _, _, hget, ids, _, ⟨hids, rfl⟩, hrequest⟩ := h
  cases hget
  obtain ⟨handles, hset, rfl⟩ := onHandle_eq_ok hrequest
  exact .subscribed hids hset

theorem unsubscribe_atomic (args : Args) : Atomic (unsubscribe args : Operation σ String) :=
  (readsOnly_lookup _).bind_atomic fun _ => readsOnly_get.bind_atomic fun _ =>
    (readsOnly_lookup _).bind_atomic fun _ =>
      onHandle_atomic fun _ _ => Handles.state_of_change_refused

theorem unsubscribe_within : (unsubscribe : Effect σ).toHandler.Within Session.Change := by
  refine Effect.within unsubscribe_atomic fun args s t text _ h => ?_
  simp only [unsubscribe, run_bind_eq_ok_iff, run_lookup_eq_ok_iff] at h
  obtain ⟨name, _, ⟨-, rfl⟩, _, _, hget, ids, _, ⟨hids, rfl⟩, hrequest⟩ := h
  cases hget
  obtain ⟨handles, hset, rfl⟩ := onHandle_eq_ok hrequest
  exact .unsubscribed hids hset

theorem quit_atomic (args : Args) : Atomic (quit args : Operation σ String) := by
  rintro s e t ⟨⟩

theorem quit_within : (quit : Effect σ).toHandler.Within Session.Change := by
  refine Effect.within quit_atomic fun args s t text _ h => ?_
  cases h
  exact .stopped s

theorem unchanged_of_done {s : Session σ} {result : Except CommandError String}
    {r : Session σ × Except CommandError String}
    (h : (FileTask.done (s, result)).EndsIn r) : s.Change r.1 := by
  obtain rfl := FileTask.endsIn_done_iff.mp h
  exact .none s

/-- A replay reads and writes files and leaves the session as it is. -/
theorem replay_within : (replay : Handler (Session σ)).Within Session.Change := by
  intro args s r _ hr
  unfold replay at hr
  split at hr
  · exact unchanged_of_done hr
  · split at hr
    · exact unchanged_of_done hr
    · rw [FileTask.bind_eq, FileTask.endsIn_bind_iff] at hr
      obtain ⟨opened, -, hr⟩ := hr
      cases opened with
      | error cause => exact unchanged_of_done hr
      | ok file =>
          obtain ⟨result, -, hr⟩ := FileTask.endsIn_bind_iff.mp hr
          exact unchanged_of_done hr

theorem ruleGroup_within : (ruleGroup : Group (Session σ)).Within Session.Change := by
  refine Group.within_addAll_new _ _ ?_
  simp only [List.forall_mem_cons, List.not_mem_nil, false_implies, implies_true, and_true]
  exact ⟨Node.within_run addRule_within rfl .., Node.within_run deleteRule_within rfl ..,
    Node.within_run (Effect.within_of_readsOnly viewRule_readsOnly) rfl ..,
    Node.within_run (Effect.within_of_readsOnly listRules_readsOnly) rfl ..,
    Node.within_run syncRules_within rfl ..,
    Node.within_run (Effect.within_of_readsOnly compileRule_readsOnly) rfl ..⟩

theorem subscriptionGroup_within :
    (subscriptionGroup : Group (Session σ)).Within Session.Change := by
  refine Group.within_addAll_new _ _ ?_
  simp only [List.forall_mem_cons, List.not_mem_nil, false_implies, implies_true, and_true]
  exact ⟨Node.within_run subscribe_within rfl .., Node.within_run unsubscribe_within rfl ..⟩

theorem handleGroup_within : (handleGroup : Group (Session σ)).Within Session.Change := by
  refine Group.within_addAll_new _ _ ?_
  simp only [List.forall_mem_cons, List.not_mem_nil, false_implies, implies_true, and_true]
  exact ⟨Node.within_run addHandle_within rfl .., Node.within_run deleteHandle_within rfl ..,
    Node.within_run (Effect.within_of_readsOnly viewHandle_readsOnly) rfl ..,
    Node.within_run (Effect.within_of_readsOnly listHandles_readsOnly) rfl ..,
    Node.within_run setFile_within rfl .., subscriptionGroup_within.toNode⟩

theorem streamGroup_within : (streamGroup : Group (Session σ)).Within Session.Change := by
  refine Group.within_addAll_new _ _ ?_
  simp only [List.forall_mem_cons, List.not_mem_nil, false_implies, implies_true, and_true]
  exact Node.within_run replay_within rfl ..

/-- Every command of the console makes at most one change, and so does the help of
its groups. -/
theorem root_within : (root : Group (Session σ)).Within Session.Change := by
  refine Group.within_addAll_new _ _ ?_
  simp only [List.forall_mem_cons, List.not_mem_nil, false_implies, implies_true, and_true]
  exact ⟨ruleGroup_within.toNode, handleGroup_within.toNode, streamGroup_within.toNode,
    Node.within_run quit_within rfl ..⟩

end Console

namespace Session

variable {σ : Type} [RuleStore σ] {s : Session σ} {out : Output}

/-- A line makes at most one change, whatever it says and whether or not it fails. -/
theorem execute_change {line : String} {o : Outcome (Session σ)}
    (h : (s.execute out line).EndsIn o) : s.Change o.state :=
  Group.dispatch_within .none Console.root_within h

/-- The first sync is a sync, or nothing where the store fails. -/
theorem startupSync_change (s : Session σ) (out : Output) : s.Change (s.startupSync out).1 := by
  unfold startupSync
  split
  · next e t hsync => exact .failed (sync_atomic s e t hsync)
  · next hsync =>
      have hsynced := Change.synced hsync
      split
      · exact hsynced
      · split <;> exact hsynced

end Session
end RuleDesk
