import RuleDesk.Proofs.Command.Lookup
import RuleDesk.Proofs.Files.Endings

/-!
# How a line ends

All the ways in which a line can end in a tree of commands. Either no handler has
run, and then the state is what it was, or one has, and its result decides.
-/
namespace RuleDesk

variable {σ : Type}

/-- Where a text is shown, it is only the output that can fail. -/
theorem Outcome.ofText_error {s : σ} {out : Output} {command text : String}
    {e : DispatchError} (h : (Outcome.ofText s out command text).result = .error e) :
    ∃ cause, e = .command command (.output cause) := by
  unfold Outcome.ofText at h
  split at h
  · cases h
  · next cause _ => exact ⟨cause, (Except.error.inj h).symm⟩

/-- The handler belongs to the node or to one below it. -/
inductive Node.Holds (handler : Handler σ) : Node σ → Prop where
  | command {c : Command σ} : c.action = .run handler → Node.Holds handler (.command c)
  | group {name description : String} {children : List (Node σ)} {node : Node σ} :
      node ∈ children → node.Holds handler → Node.Holds handler (.group name description children)

namespace Group

def Holds (g : Group σ) (handler : Handler σ) : Prop :=
  ∃ node ∈ g.children, node.Holds handler

inductive Answer (g : Group σ) (s : σ) (out : Output) : Outcome σ → Prop where
  | help (command text : String) : Answer g s out (.ofText s out command text)
  | unrecognized (word : String) : Answer g s out ⟨s, out, .error (.unrecognizedCommand word)⟩
  | usage (line : String) (reason : BindingFailure) :
      Answer g s out ⟨s, out, .error (.usage line reason)⟩
  | shown {handler : Handler σ} {args : Args} {t : σ} {text : String} (command : String) :
      g.Holds handler → (handler args s).EndsIn (t, .ok text) →
        Answer g s out (.ofText t out command text)
  | failed {handler : Handler σ} {args : Args} {t : σ} {cause : CommandError}
      (command : String) :
      g.Holds handler → (handler args s).EndsIn (t, .error cause) →
        Answer g s out ⟨t, out, .error (.command command cause)⟩

variable {g : Group σ} {s : σ} {out : Output} {o : Outcome σ}

theorem Answer.mono {f : Group σ} (h : f.Answer s out o)
    (hfg : ∀ handler, f.Holds handler → g.Holds handler) : g.Answer s out o := by
  cases h with
  | help command text => exact .help command text
  | unrecognized word => exact .unrecognized word
  | usage line reason => exact .usage line reason
  | shown command hholds hend => exact .shown command (hfg _ hholds) hend
  | failed command hholds hend => exact .failed command (hfg _ hholds) hend

theorem invoke_answer {c : Command σ} (hc : .command c ∈ g.children) {path : String}
    {words : List String} (h : (c.invoke g path words s out).EndsIn o) : g.Answer s out o := by
  unfold Command.invoke at h
  split at h
  · next reason _ =>
      obtain rfl := FileTask.endsIn_done_iff.mp h
      exact .usage _ reason
  · next args _ =>
      split at h
      · obtain rfl := FileTask.endsIn_done_iff.mp h
        exact .help _ _
      · next handler hrun =>
          have hholds : g.Holds handler := ⟨.command c, hc, .command hrun⟩
          rw [FileTask.bind_eq, FileTask.endsIn_bind_iff] at h
          obtain ⟨⟨t, result⟩, hend, ho⟩ := h
          cases result with
          | ok text =>
              obtain rfl := FileTask.endsIn_done_iff.mp ho
              exact .shown _ hholds hend
          | error cause =>
              obtain rfl := FileTask.endsIn_done_iff.mp ho
              exact .failed _ hholds hend

/-- The words lead down the tree, and what a group inside answers its group answers. -/
theorem dispatchWords_answer {words : List String} {above : String}
    (h : (g.dispatchWords above s out words).EndsIn o) : g.Answer s out o := by
  induction words generalizing g above with
  | nil =>
      obtain rfl := FileTask.endsIn_done_iff.mp h
      exact .help _ _
  | cons word words ih =>
      unfold dispatchWords at h
      split at h
      · obtain rfl := FileTask.endsIn_done_iff.mp h
        exact .unrecognized word
      · next name description children hchild =>
          have hmem := List.mem_of_find?_eq_some hchild
          refine (ih h).mono fun handler ⟨node, hnode, hholds⟩ => ?_
          exact ⟨_, hmem, .group hnode hholds⟩
      · next hchild => exact invoke_answer (List.mem_of_find?_eq_some hchild) h

theorem dispatch_answer {line : String} (h : (g.dispatch s out line).EndsIn o) :
    g.Answer s out o :=
  dispatchWords_answer h

theorem holds_of_addAll {nodes : List (Node σ)} {handler : Handler σ}
    (h : (g.addAll nodes).Holds handler) :
    g.Holds handler ∨ ∃ node ∈ nodes, node.Holds handler := by
  induction nodes generalizing g with
  | nil => exact .inl h
  | cons node nodes ih =>
      rw [addAll_cons] at h
      rcases ih h with ⟨other, hother, hholds⟩ | ⟨other, hother, hholds⟩
      · rcases mem_addAll_singleton hother with hold | rfl
        · exact .inl ⟨other, hold, hholds⟩
        · exact .inr ⟨other, by simp, hholds⟩
      · exact .inr ⟨other, by simp [hother], hholds⟩

/-- A new group has no handler but those of the nodes that are added. -/
theorem forall_holds_addAll_new {P : Handler σ → Prop} (name description : String)
    {nodes : List (Node σ)} (hnodes : ∀ node ∈ nodes, ∀ handler, node.Holds handler → P handler) :
    ∀ handler, ((Group.new name description).addAll nodes).Holds handler → P handler := by
  intro handler h
  rcases holds_of_addAll h with ⟨node, hnode, hholds⟩ | ⟨node, hnode, hholds⟩
  · obtain rfl : node = .command .help := by simpa [Group.new] using hnode
    cases hholds with
    | command hrun => cases hrun
  · exact hnodes node hnode handler hholds

theorem forall_holds_toNode {P : Handler σ → Prop} (h : ∀ handler, g.Holds handler → P handler) :
    ∀ handler, g.toNode.Holds handler → P handler := by
  intro handler hholds
  cases hholds with
  | group hnode hholds => exact h handler ⟨_, hnode, hholds⟩

end Group
end RuleDesk
