import RuleDesk.Proofs.Command.Binding
import RuleDesk.Proofs.Command.Lookup
import RuleDesk.Proofs.Command.Words
import RuleDesk.Proofs.Files.Endings

/-!
# What the commands of a tree do to the state

If every handler of a tree moves the state along a reflexive relation, then so
does every line that is carried out, whichever command it leads to and whether
or not it fails. The arguments that a handler gets are never empty words, since a
line has no empty word and no parameter falls back on one.
-/
namespace RuleDesk

/-- No single argument is the empty word. -/
def Args.Filled (args : Args) : Prop :=
  ∀ name word, (name, BoundValue.one word) ∈ args.values → word ≠ ""

/-- No parameter falls back on the empty word. -/
def Signature.fallsBackFilled (s : Signature) : Bool :=
  s.params.all (·.kind != .optional (some ""))

theorem Args.Filled.get? {args : Args} (h : args.Filled) {name word : String}
    (hget : args.get? name = some word) : word ≠ "" := by
  unfold Args.get? Args.lookup? at hget
  split at hget
  · next found hfound =>
      obtain rfl := Option.some.inj hget
      obtain ⟨before, after, hvalues, -⟩ := List.lookup_eq_some_iff.mp hfound
      apply h name found
      rw [hvalues]
      exact List.mem_append_right _ List.mem_cons_self
  · cases hget

theorem Args.Filled.require {args : Args} (h : args.Filled) {name word : String}
    (hrequire : args.require name = .ok word) : word ≠ "" := by
  unfold Args.require at hrequire
  split at hrequire
  · next found hfound =>
      obtain rfl := Except.ok.inj hrequire
      exact h.get? hfound
  · cases hrequire

theorem Parameter.filled_bindAll {params : List Parameter} {words : List String}
    {values : List (String × BoundValue)}
    (hparams : ∀ p ∈ params, p.kind ≠ .optional (some "")) (hwords : ∀ w ∈ words, w ≠ "")
    (h : bindAll params words = .ok values) : (Args.mk values).Filled := by
  induction params generalizing words values with
  | nil =>
      cases words with
      | nil =>
          cases h
          exact fun _ _ hmem => nomatch hmem
      | cons word words => cases h
  | cons p rest ih =>
      obtain ⟨value, later, hvalue, hlater, rfl⟩ := bindAll_cons_ok h
      obtain ⟨hfallback, hrest⟩ := List.forall_mem_cons.mp hparams
      have hfilled := ih hrest (fun w hw => hwords w (p.passes_subset words hw)) hlater
      intro name word hmem
      rcases List.mem_cons.mp hmem with hfirst | hothers
      · rw [← (Prod.mk.inj hfirst).2] at hvalue
        rcases bound?_one hvalue with hword | hown
        · exact hwords word hword
        · rintro rfl
          exact hfallback hown
      · exact hfilled name word hothers

theorem Signature.filled_bind {s : Signature} (hs : s.fallsBackFilled = true)
    {words : List String} (hwords : ∀ w ∈ words, w ≠ "") {args : Args}
    (h : s.bind words = .ok args) : args.Filled := by
  obtain ⟨values, hvalues, rfl⟩ := map_eq_ok_iff.mp h
  refine Parameter.filled_bindAll (fun p hp => ?_) hwords hvalues
  simpa using List.all_eq_true.mp hs p hp

variable {σ : Type} {R : σ → σ → Prop}

/-- From every state the handler ends in a related one, if no argument is empty. -/
def Handler.Within (R : σ → σ → Prop) (handler : Handler σ) : Prop :=
  ∀ args s r, args.Filled → (handler args s).EndsIn r → R s r.1

/-- Every handler below the node moves the state along the relation. -/
inductive Node.Within (R : σ → σ → Prop) : Node σ → Prop where
  | command {c : Command σ} : c.signature.fallsBackFilled = true →
      (∀ handler, c.action = .run handler → handler.Within R) → Node.Within R (.command c)
  | group {name description : String} {children : List (Node σ)} :
      (∀ node ∈ children, Node.Within R node) → Node.Within R (.group name description children)

def Group.Within (R : σ → σ → Prop) (g : Group σ) : Prop :=
  ∀ node ∈ g.children, node.Within R

theorem Node.within_run {handler : Handler σ} (h : handler.Within R) {signature : Signature}
    (hfilled : signature.fallsBackFilled = true) (name description : String) :
    (Node.command ⟨name, description, signature, .run handler⟩).Within R := by
  refine .command hfilled fun _ hrun => ?_
  cases hrun
  exact h

theorem Group.Within.toNode {g : Group σ} (h : g.Within R) : g.toNode.Within R := .group h

/-- A new group holds its help only. -/
theorem Group.within_new (name description : String) :
    (Group.new name description : Group σ).Within R := by
  intro node hnode
  obtain rfl : node = .command .help := by simpa [Group.new] using hnode
  exact .command rfl fun _ hrun => by cases hrun

theorem Group.Within.addAll {g : Group σ} (h : g.Within R) {nodes : List (Node σ)}
    (hnodes : ∀ node ∈ nodes, node.Within R) : (g.addAll nodes).Within R := by
  induction nodes generalizing g with
  | nil => exact h
  | cons node nodes ih =>
      rw [Group.addAll_cons]
      refine ih ?_ fun other hother => hnodes other (by simp [hother])
      rcases g.addAll_singleton node with hsame | ⟨-, -, hlonger⟩
      · rw [hsame]
        exact h
      · rw [hlonger]
        intro other hother
        rcases List.mem_append.mp hother with hother | hother
        · exact h other hother
        · obtain rfl := List.mem_singleton.mp hother
          exact hnodes other (by simp)

theorem Group.within_addAll_new (name description : String) {nodes : List (Node σ)}
    (hnodes : ∀ node ∈ nodes, node.Within R) :
    ((Group.new name description).addAll nodes).Within R :=
  (Group.within_new name description).addAll hnodes

@[simp] theorem Outcome.ofText_state (s : σ) (out : Output) (command text : String) :
    (Outcome.ofText s out command text).state = s := by
  unfold Outcome.ofText
  split <;> rfl

/-- A command leaves the state that its handler leaves. -/
theorem Command.invoke_run {c : Command σ} {handler : Handler σ} (hrun : c.action = .run handler)
    {words : List String} {args : Args} (hbind : c.signature.bind words = .ok args)
    {owner : Group σ} {path : String} {s : σ} {out : Output} {o : Outcome σ}
    (h : (c.invoke owner path words s out).EndsIn o) :
    ∃ r, (handler args s).EndsIn r ∧ o.state = r.1 := by
  unfold Command.invoke at h
  simp only [hbind, hrun] at h
  obtain ⟨⟨t, result⟩, hend, ho⟩ := FileTask.endsIn_bind_iff.mp h
  refine ⟨_, hend, ?_⟩
  cases result with
  | ok text => rw [FileTask.endsIn_done_iff.mp ho, Outcome.ofText_state]
  | error cause => rw [FileTask.endsIn_done_iff.mp ho]

theorem Command.invoke_within (hrefl : ∀ s, R s s) {c : Command σ}
    (hc : (Node.command c).Within R) {owner : Group σ} {path : String} {words : List String}
    (hwords : ∀ w ∈ words, w ≠ "") {s : σ} {out : Output} {o : Outcome σ}
    (h : (c.invoke owner path words s out).EndsIn o) : R s o.state := by
  cases hc with
  | command hfilled hall =>
      cases hbind : c.signature.bind words with
      | error reason =>
          unfold Command.invoke at h
          rw [hbind] at h
          rw [FileTask.endsIn_done_iff.mp h]
          exact hrefl s
      | ok args =>
          cases haction : c.action with
          | help =>
              unfold Command.invoke at h
              simp only [hbind, haction] at h
              rw [FileTask.endsIn_done_iff.mp h, Outcome.ofText_state]
              exact hrefl s
          | run handler =>
              obtain ⟨r, hend, hstate⟩ := Command.invoke_run haction hbind h
              have hargs := c.signature.filled_bind hfilled hwords hbind
              rw [hstate]
              exact hall handler haction args s r hargs hend

/-- The words of a line lead down the tree, so the induction is on them. -/
theorem Group.dispatchWords_within (hrefl : ∀ s, R s s) {words : List String} {g : Group σ}
    (hg : g.Within R) (hwords : ∀ w ∈ words, w ≠ "") {above : String} {s : σ} {out : Output}
    {o : Outcome σ} (h : (g.dispatchWords above s out words).EndsIn o) : R s o.state := by
  induction words generalizing g above with
  | nil =>
      obtain rfl := FileTask.endsIn_done_iff.mp h
      simpa using hrefl s
  | cons word words ih =>
      have hlater := (List.forall_mem_cons.mp hwords).2
      unfold Group.dispatchWords at h
      split at h
      · obtain rfl := FileTask.endsIn_done_iff.mp h
        exact hrefl s
      · next name description children hchild =>
          have hnode := hg _ (List.mem_of_find?_eq_some hchild)
          cases hnode with
          | group hchildren => exact ih (g := ⟨name, description, children⟩) hchildren hlater h
      · next hchild =>
          have hnode := hg _ (List.mem_of_find?_eq_some hchild)
          exact Command.invoke_within hrefl hnode hlater h

theorem Group.dispatch_within (hrefl : ∀ s, R s s) {g : Group σ} (hg : g.Within R) {s : σ}
    {out : Output} {line : String} {o : Outcome σ} (h : (g.dispatch s out line).EndsIn o) :
    R s o.state :=
  dispatchWords_within hrefl hg (fun _ => ne_empty_of_mem_tokenize) h

end RuleDesk
