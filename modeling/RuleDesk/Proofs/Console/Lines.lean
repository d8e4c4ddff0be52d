import RuleDesk.Console.Commands
import RuleDesk.Proofs.Command.Lookup
import RuleDesk.Proofs.Files.Run
import RuleDesk.Proofs.Results

/-!
# Lines and their commands

Which command a line of the console leads to.
-/
namespace RuleDesk.Console

variable {σ : Type}

@[simp] theorem command_name (name description : String) (signature : Signature)
    (effect : Effect σ) : (command name description signature effect).name = name := rfl

@[simp] theorem handleGroup_name : (handleGroup : Group (Session σ)).name = "handle" :=
  Group.addAll_name _ _

@[simp] theorem streamGroup_name : (streamGroup : Group (Session σ)).name = "stream" :=
  Group.addAll_name _ _

variable [RuleStore σ]

@[simp] theorem ruleGroup_name : (ruleGroup : Group (Session σ)).name = "rules" :=
  Group.addAll_name _ _

theorem root_child_rules : (root : Group (Session σ)).child? "rules" = some ruleGroup.toNode := by
  unfold root Group.root
  refine Group.child?_addAll (by simp) ?_ (by simp) ruleGroup_name
  rw [List.map_append]
  simp

theorem ruleGroup_child_sync : (ruleGroup : Group (Session σ)).child? "sync" =
    some (command "sync" "Pull the store's rules into the console" noParams syncRules) := by
  unfold ruleGroup
  refine Group.child?_addAll (by simp) ?_ (by simp) rfl
  rw [List.map_append]
  simp

theorem ruleGroup_child_view : (ruleGroup : Group (Session σ)).child? "view" =
    some (command "view" "Show one rule, by name or with '-i <id>'"
      ⟨[.required "name", .optional "id"], by decide⟩ viewRule) := by
  unfold ruleGroup
  refine Group.child?_addAll (by simp) ?_ (by simp) rfl
  rw [List.map_append]
  simp

theorem ruleGroup_child_delete : (ruleGroup : Group (Session σ)).child? "delete" =
    some (command "delete" "Delete a rule, '*' deletes every rule" nameOnly deleteRule) := by
  unfold ruleGroup
  refine Group.child?_addAll (by simp) ?_ (by simp) rfl
  rw [List.map_append]
  simp

theorem root_child_handle :
    (root : Group (Session σ)).child? "handle" = some handleGroup.toNode := by
  unfold root Group.root
  refine Group.child?_addAll (by simp) ?_ (by simp) handleGroup_name
  rw [List.map_append]
  simp

theorem root_child_stream :
    (root : Group (Session σ)).child? "stream" = some streamGroup.toNode := by
  unfold root Group.root
  refine Group.child?_addAll (by simp) ?_ (by simp) streamGroup_name
  rw [List.map_append]
  simp

omit [RuleStore σ] in
theorem streamGroup_child_replay : (streamGroup : Group (Session σ)).child? "replay" =
    some (.command ⟨"replay", "Route a JSON-lines capture through the current handles",
      ⟨[.required "capture", .optional "limit"], by decide⟩, .run replay⟩) := by
  unfold streamGroup
  refine Group.child?_addAll (by simp [Node.name]) ?_ (by simp) rfl
  rw [List.map_append]
  simp [Node.name]

omit [RuleStore σ] in
theorem handleGroup_child_view : (handleGroup : Group (Session σ)).child? "view" =
    some (command "view" "Show one handle" nameOnly viewHandle) := by
  unfold handleGroup
  refine Group.child?_addAll (by simp [subscriptionGroup]) ?_ (by simp) rfl
  rw [List.map_append]
  simp [subscriptionGroup]

omit [RuleStore σ] in
theorem handleGroup_child_list : (handleGroup : Group (Session σ)).child? "list" =
    some (command "list" "List every handle" noParams listHandles) := by
  unfold handleGroup
  refine Group.child?_addAll (by simp [subscriptionGroup]) ?_ (by simp) rfl
  rw [List.map_append]
  simp [subscriptionGroup]

/-- What a line leaves behind that leads to an effect: what the effect has made of the session,
and its text or its failure. -/
def effectOutcome (out : Output) (label : String)
    (result : EStateM.Result CommandError (Session σ) String) : Outcome (Session σ) :=
  match result with
  | .ok text t => .ofText t out label text
  | .error cause t => ⟨t, out, .error (.command label cause)⟩

omit [RuleStore σ] in
/-- Behind a line that has not failed is the session that the effect made. -/
theorem state_of_effectOutcome {out : Output} {label : String}
    {result : EStateM.Result CommandError (Session σ) String}
    (h : (effectOutcome out label result).result = .ok ()) :
    ∃ text, result = .ok text (effectOutcome out label result).state := by
  cases result with
  | error cause t => cases h
  | ok text t =>
      refine ⟨text, ?_⟩
      unfold effectOutcome Outcome.ofText
      dsimp only
      split <;> rfl

/-- A line that names a group and a command of it has the command's effect. -/
theorem execute_effect (s : Session σ) (out : Output) {line first second description : String}
    {words : List String} {group : Group (Session σ)} {signature : Signature} {effect : Effect σ}
    (hline : tokenize line = first :: second :: words)
    (hgroup : (root : Group (Session σ)).child? first = some group.toNode)
    (hname : group.name = first)
    (hcommand : group.child? second = some (command second description signature effect))
    {args : Args} (hbind : signature.bind words = .ok args) :
    s.execute out line =
      .done (effectOutcome out (qualify first second) ((effect args).run s)) := by
  have hroot : qualify "" (root : Group (Session σ)).name = "" := by
    simp [root, Group.root, qualify]
  have hpath : qualify "" group.name = first := hname
  unfold Session.execute Group.dispatch
  rw [hline, Group.dispatchWords_group hgroup, hroot, Group.dispatchWords_command hcommand]
  change Command.invoke _ group (qualify "" group.name) _ _ _ = _
  rw [hpath]
  unfold Command.invoke
  rw [hbind]
  change (Effect.toHandler effect args s).bind _ = _
  unfold Effect.toHandler
  cases (effect args).run s <;> rfl

/-- A line of `rules` whose effect succeeds shows the text of the effect. -/
theorem execute_rules (s : Session σ) (out : Output) {line second description : String}
    {words : List String} {signature : Signature} {effect : Effect σ}
    (hline : tokenize line = "rules" :: second :: words)
    (hcommand : (ruleGroup : Group (Session σ)).child? second =
      some (command second description signature effect))
    {args : Args} (hbind : signature.bind words = .ok args) {t : Session σ} {text : String}
    (heffect : (effect args).run s = .ok text t) :
    s.execute out line = .done (.ofText t out (qualify "rules" second) text) := by
  rw [execute_effect s out hline root_child_rules ruleGroup_name hcommand hbind, heffect]
  rfl

/-- The line `rules sync` syncs and shows the report. -/
theorem execute_sync (s : Session σ) (out : Output) {line : String}
    (hline : tokenize line = ["rules", "sync"]) {report : SyncReport} {t : Session σ}
    (hsync : Session.sync.run s = .ok report t) :
    s.execute out line = .done (.ofText t out "rules sync" (reportText report)) := by
  have heffect : (syncRules ⟨[]⟩).run s = .ok (reportText report) t :=
    run_bind_eq_ok_iff.mpr ⟨report, t, hsync, rfl⟩
  exact execute_rules s out hline ruleGroup_child_sync rfl heffect

theorem execute_view (s : Session σ) (out : Output) {line name : String}
    (hline : tokenize line = ["handle", "view", name]) : s.execute out line =
      .done (effectOutcome out "handle view" ((viewHandle ⟨[("name", .one name)]⟩).run s)) :=
  execute_effect s out hline root_child_handle handleGroup_name handleGroup_child_view rfl

theorem execute_list (s : Session σ) (out : Output) {line : String}
    (hline : tokenize line = ["handle", "list"]) : s.execute out line =
      .done (effectOutcome out "handle list" ((listHandles ⟨[]⟩).run s)) :=
  execute_effect s out hline root_child_handle handleGroup_name handleGroup_child_list rfl

/-- The line `stream replay` with a capture replays it. -/
theorem execute_replay (s : Session σ) (out : Output) {line capture : String}
    (hline : tokenize line = ["stream", "replay", capture]) {fs fs' : FileSpace} {text : String}
    (hreplay : (replay ⟨[("capture", .one capture), ("limit", .absent)]⟩ s).run fs =
      ((s, .ok text), fs')) :
    (s.execute out line).run fs = (.ofText s out "stream replay" text, fs') := by
  have hpath : qualify "" (root : Group (Session σ)).name = "" := by
    simp [root, Group.root, qualify]
  unfold Session.execute Group.dispatch
  rw [hline, Group.dispatchWords_group root_child_stream, hpath,
    Group.dispatchWords_command streamGroup_child_replay]
  show ((replay ⟨[("capture", .one capture), ("limit", .absent)]⟩ s).bind _).run fs = _
  rw [FileTask.run_bind_of_run hreplay]
  rfl

end RuleDesk.Console
