import RuleDesk.Proofs.Command.Lookup
import RuleDesk.Proofs.Command.Spelling
import RuleDesk.Proofs.Files.Endings
import Mathlib.Data.List.Nodup

/-!
# What a line addresses

In a tree that was built by adding commands and groups, the words of a line lead from
group to group to one address: a group, a word that names nothing, or a command and the
words that are left for it. What the line does is decided by the address, and a handler
is called for a command only, once. Every command of the tree has lines that address it.
-/
namespace RuleDesk

variable {σ ι : Type}

namespace Group

/-- New groups, and groups to which commands and other such groups are added one after the
other. A node whose name is empty or taken is left out. -/
inductive Built : Group σ → Prop where
  | new (name description : String) : Built (Group.new name description)
  | command {g : Group σ} (name description : String) (signature : Signature)
      (handler : Handler σ) :
      Built g → Built (g.addAll [.command ⟨name, description, signature, .run handler⟩])
  | group {g h : Group σ} : Built g → Built h → Built (g.addAll [h.toNode])

/-- The nodes of a group have distinct names that are not empty, only its help shows help,
and the groups inside are of the same kind. -/
inductive Sound : Group σ → Prop where
  | intro {g : Group σ} :
      (g.children.map Node.name).Nodup →
      (∀ node ∈ g.children, node.name ≠ "") →
      (∀ c, .command c ∈ g.children → c.action = .help → c = .help) →
      (∀ name description children, .group name description children ∈ g.children →
        Sound ⟨name, description, children⟩) →
      Sound g

variable {g f : Group σ}

theorem Sound.nodup (hg : g.Sound) : (g.children.map Node.name).Nodup := by
  cases hg
  assumption

theorem Sound.named (hg : g.Sound) : ∀ node ∈ g.children, node.name ≠ "" := by
  cases hg
  assumption

theorem Sound.eq_help (hg : g.Sound) {c : Command σ} (hc : .command c ∈ g.children)
    (haction : c.action = .help) : c = .help := by
  cases hg with
  | intro _ _ hhelp _ => exact hhelp c hc haction

theorem Sound.group (hg : g.Sound) {name description : String} {children : List (Node σ)}
    (h : .group name description children ∈ g.children) :
    Sound ⟨name, description, children⟩ := by
  cases hg with
  | intro _ _ _ hbelow => exact hbelow name description children h

theorem Sound.eq_of_name (hg : g.Sound) {node other : Node σ} (hnode : node ∈ g.children)
    (hother : other ∈ g.children) (hname : node.name = other.name) : node = other :=
  List.inj_on_of_nodup_map hg.nodup hnode hother hname

theorem sound_new (name description : String) :
    (Group.new name description : Group σ).Sound := by
  have hchild {node : Node σ} (h : node ∈ (Group.new name description : Group σ).children) :
      node = .command .help := List.mem_singleton.mp h
  refine .intro (by simp) ?_ ?_ ?_
  · intro node hnode
    rw [hchild hnode]
    simp [Node.name, Command.help]
  · intro c hc _
    cases hchild hc
    rfl
  · intro name description children h
    cases hchild h

theorem Sound.addAll_singleton (hg : g.Sound) {node : Node σ}
    (hhelp : ∀ c, node = .command c → c.action = .help → c = .help)
    (hbelow : ∀ name description children, node = .group name description children →
      Sound ⟨name, description, children⟩) : (g.addAll [node]).Sound := by
  rcases g.addAll_singleton node with hsame | ⟨hname, hfree, hlonger⟩
  · rw [hsame]
    exact hg
  · rw [hlonger]
    refine .intro ?_ ?_ ?_ ?_
    · rw [List.map_append, List.map_singleton]
      exact List.nodup_append.mpr ⟨hg.nodup, by simp, by
        rintro name hold _ hnew rfl
        exact hfree (List.mem_singleton.mp hnew ▸ hold)⟩
    · intro other hother
      rcases List.mem_append.mp hother with hold | hnew
      · exact hg.named other hold
      · rwa [List.mem_singleton.mp hnew]
    · intro c hc haction
      rcases List.mem_append.mp hc with hold | hnew
      · exact hg.eq_help hold haction
      · exact hhelp c (List.mem_singleton.mp hnew).symm haction
    · intro name description children h
      rcases List.mem_append.mp h with hold | hnew
      · exact hg.group hold
      · exact hbelow name description children (List.mem_singleton.mp hnew).symm

/-- Every step that builds a tree keeps it sound. -/
theorem Built.sound (hg : g.Built) : g.Sound := by
  induction hg with
  | new name description => exact sound_new name description
  | command name description signature handler _ ih =>
      refine ih.addAll_singleton ?_ ?_
      · rintro c ⟨⟩ haction
        cases haction
      · rintro _ _ _ ⟨⟩
  | group _ _ ih ihadded =>
      refine ih.addAll_singleton ?_ ?_
      · rintro c ⟨⟩
      · rintro name description children ⟨⟩
        exact ihadded

/-- The names lead from the group down to another one. -/
inductive Reaches : Group σ → List String → Group σ → Prop where
  | here (g : Group σ) : Reaches g [] g
  | step {g f : Group σ} {name description : String} {children : List (Node σ)}
      {names : List String} :
      .group name description children ∈ g.children →
        Reaches ⟨name, description, children⟩ names f → Reaches g (name :: names) f

theorem Reaches.sound {names : List String} (h : g.Reaches names f) (hg : g.Sound) : f.Sound := by
  induction h with
  | here g => exact hg
  | step hmem _ ih => exact ih (hg.group hmem)

theorem Reaches.named {names : List String} (h : g.Reaches names f) (hg : g.Sound) :
    ∀ name ∈ names, name ≠ "" := by
  induction h with
  | here g => simp
  | step hmem _ ih => exact List.forall_mem_cons.mpr ⟨hg.named _ hmem, ih (hg.group hmem)⟩

end Group

/-- Where the words of a line lead. A path names the groups on the way, one space apart. -/
inductive Address (σ : Type) where
  | group (path : String) (reached : Group σ)
  /-- A word that names nothing in the group reached. -/
  | unknown (word : String)
  /-- A command of the group `owner`, and the words behind its name. -/
  | command (path : String) (owner : Group σ) (command : Command σ) (words : List String)

/-- Each word names a node of the group that the words before it have led to. -/
inductive Group.LeadsTo : Group σ → String → List String → Address σ → Prop where
  | group {g : Group σ} {above : String} : LeadsTo g above [] (.group (qualify above g.name) g)
  | unknown {g : Group σ} {above word : String} {words : List String} :
      word ∉ g.children.map Node.name → LeadsTo g above (word :: words) (.unknown word)
  | command {g : Group σ} {above : String} {c : Command σ} {words : List String} :
      .command c ∈ g.children →
        LeadsTo g above (c.name :: words) (.command (qualify above g.name) g c words)
  | step {g : Group σ} {above name description : String} {children : List (Node σ)}
      {words : List String} {a : Address σ} :
      .group name description children ∈ g.children →
        LeadsTo ⟨name, description, children⟩ (qualify above g.name) words a →
          LeadsTo g above (name :: words) a

namespace Group

variable {g f : Group σ} {above : String} {words : List String} {a b : Address σ}

theorem exists_leadsTo (g : Group σ) (above : String) (words : List String) :
    ∃ a, g.LeadsTo above words a := by
  induction words generalizing g above with
  | nil => exact ⟨_, .group⟩
  | cons word words ih =>
      by_cases hword : word ∈ g.children.map Node.name
      · obtain ⟨node, hnode, rfl⟩ := List.mem_map.mp hword
        cases node with
        | command c => exact ⟨_, .command hnode⟩
        | group name description children =>
            obtain ⟨a, ha⟩ := ih ⟨name, description, children⟩ (qualify above g.name)
            exact ⟨a, .step hnode ha⟩
      · exact ⟨_, .unknown hword⟩

/-- Names are distinct on every level, so the words leave no choice. -/
theorem LeadsTo.unique (hg : g.Sound) (h : g.LeadsTo above words a)
    (h' : g.LeadsTo above words b) : a = b := by
  induction h with
  | group =>
      cases h'
      rfl
  | unknown hword =>
      cases h' with
      | unknown => rfl
      | command hc => exact absurd (List.mem_map_of_mem hc) hword
      | step hmem => exact absurd (List.mem_map_of_mem hmem) hword
  | @command g above c words hc =>
      generalize hname : c.name = word at h'
      cases h' with
      | unknown hword => exact absurd (hname ▸ List.mem_map_of_mem hc) hword
      | command hother =>
          cases hg.eq_of_name hc hother hname
          rfl
      | step hmem => cases hg.eq_of_name hc hmem hname
  | @step g above name description children words a hmem _ ih =>
      generalize hname : name = word at h'
      cases h' with
      | unknown hword => exact absurd (hname ▸ List.mem_map_of_mem hmem) hword
      | command hother => cases hg.eq_of_name hmem hother hname
      | step hother hlater =>
          cases hg.eq_of_name hmem hother hname
          exact ih (hg.group hmem) hlater

/-- What the names lead to leads on by the words behind them. -/
theorem Reaches.leadsTo {names : List String} (h : g.Reaches names f) {c : Command σ}
    (hc : .command c ∈ f.children) (above : String) (words : List String) :
    g.LeadsTo above (names ++ c.name :: words)
      (.command (names.foldl qualify (qualify above g.name)) f c words) := by
  induction h generalizing above with
  | here g => exact .command hc
  | step hmem _ ih => exact .step hmem (ih hc (qualify above _))

end Group

/-- The output with a text behind what it has taken. -/
def Output.showing (out : Output) (text : String) : Output :=
  { out with text := out.text ++ text }

/-- What a line that leads here does, where the output takes every text. -/
def Address.answer (s : σ) (out : Output) : Address σ → FileTask (Outcome σ)
  | .group path reached => .done ⟨s, out.showing (Help.render reached path .simple), .ok ()⟩
  | .unknown word => .done ⟨s, out, .error (.unrecognizedCommand word)⟩
  | .command path owner c words =>
    match c.signature.bind words with
    | .error reason => .done ⟨s, out, .error (.usage (Help.commandLine path c) reason)⟩
    | .ok args =>
      match c.action with
      | .help =>
        let mode := if words = [recursiveFlag] then .recursive else .simple
        .done ⟨s, out.showing (Help.render owner path mode), .ok ()⟩
      | .run handler => (handler args s).bind fun
        | (t, .ok text) => .done ⟨t, out.showing text, .ok ()⟩
        | (t, .error cause) => .done ⟨t, out, .error (.command (qualify path c.name) cause)⟩

/-- The handlers that a line which leads here calls, each told by a label of its command,
and what they are called with. -/
def Address.calls (label : Command σ → ι) : Address σ → List (ι × Args)
  | .command _ _ c words =>
    match c.signature.bind words, c.action with
    | .ok args, .run _ => [(label c, args)]
    | _, _ => []
  | _ => []

theorem Outcome.ofText_of_open {out : Output} (hout : out.broken = false) (s : σ)
    (command text : String) :
    Outcome.ofText s out command text = ⟨s, out.showing text, .ok ()⟩ := by
  simp [Outcome.ofText, Output.write, Output.showing, hout]

/-- The words that the parameter of `help` takes. -/
theorem Command.bind_help {words : List String} {args : Args}
    (h : (Command.help : Command σ).signature.bind words = .ok args) :
    args.get? "flag" = some recursiveFlag ↔ words = [recursiveFlag] := by
  match words with
  | [] =>
      cases h
      simp [Args.get?, Args.lookup?, Parameter.optional]
  | [word] =>
      cases h
      simp [Args.get?, Args.lookup?, Parameter.optional]
  | _ :: _ :: _ => cases h

theorem Command.invoke_eq_answer {c : Command σ} (hhelp : c.action = .help → c = .help)
    {out : Output} (hout : out.broken = false) (owner : Group σ) (path : String)
    (words : List String) (s : σ) :
    c.invoke owner path words s out = (Address.command path owner c words).answer s out := by
  simp only [Command.invoke, Address.answer]
  cases hbind : c.signature.bind words with
  | error reason => rfl
  | ok args =>
      cases haction : c.action with
      | help =>
          obtain rfl := hhelp haction
          simp only [Outcome.ofText_of_open hout, Command.bind_help hbind]
      | run handler =>
          refine congrArg (handler args s).bind (funext fun r => ?_)
          obtain ⟨t, result⟩ := r
          cases result with
          | ok text => exact congrArg FileTask.done (Outcome.ofText_of_open hout ..)
          | error cause => rfl

namespace Group

variable {g f : Group σ} {above : String} {words : List String} {a : Address σ}

theorem Sound.child? (hg : g.Sound) {node : Node σ} (hnode : node ∈ g.children) :
    g.child? node.name = some node :=
  child?_of_mem hg.nodup hnode

/-- The words do what is done at their address. The induction is on the way to it. -/
theorem LeadsTo.dispatchWords_eq (hg : g.Sound) (h : g.LeadsTo above words a) (s : σ)
    {out : Output} (hout : out.broken = false) :
    g.dispatchWords above s out words = a.answer s out := by
  induction h with
  | group => exact congrArg FileTask.done (Outcome.ofText_of_open hout ..)
  | @unknown g above word words hword =>
      have hnone : g.child? word = none := by
        rw [child?, List.find?_eq_none]
        intro node hnode hsame
        exact hword (List.mem_map.mpr ⟨node, hnode, by simpa using hsame⟩)
      simp only [dispatchWords, hnone, Address.answer]
  | @command g above c words hc =>
      have hfound : g.child? c.name = some (.command c) := hg.child? hc
      rw [dispatchWords_command hfound]
      exact Command.invoke_eq_answer (hg.eq_help hc) hout ..
  | @step g above name description children words a hmem _ ih =>
      have hfound : g.child? name = some (.group name description children) := hg.child? hmem
      rw [dispatchWords_group hfound]
      exact ih (hg.group hmem)

/-- Every handler of the tree notes in the state that it has been called, and with what. -/
def Records (g : Group σ) (label : Command σ → ι) (log : σ → List (ι × Args)) : Prop :=
  ∀ names f c handler, g.Reaches names f → .command c ∈ f.children → c.action = .run handler →
    ∀ args s r, (handler args s).EndsIn r → log r.1 = log s ++ [(label c, args)]

theorem Records.below {label : Command σ → ι} {log : σ → List (ι × Args)}
    (h : g.Records label log) {name description : String} {children : List (Node σ)}
    (hmem : .group name description children ∈ g.children) :
    Records ⟨name, description, children⟩ label log :=
  fun names f c handler hreach => h (name :: names) f c handler (.step hmem hreach)

/-- The handlers that are called are those of the address. -/
theorem LeadsTo.log_eq {label : Command σ → ι} {log : σ → List (ι × Args)}
    (h : g.LeadsTo above words a) (hrecords : g.Records label log) {s : σ} {out : Output}
    {o : Outcome σ} (hend : (a.answer s out).EndsIn o) :
    log o.state = log s ++ a.calls label := by
  induction h with
  | group | unknown =>
      obtain rfl := FileTask.endsIn_done_iff.mp hend
      simp [Address.calls]
  | @command g above c words hc =>
      cases hbind : c.signature.bind words with
      | error reason =>
          simp only [Address.answer, hbind] at hend
          obtain rfl := FileTask.endsIn_done_iff.mp hend
          simp [Address.calls, hbind]
      | ok args =>
          cases haction : c.action with
          | help =>
              simp only [Address.answer, hbind, haction] at hend
              obtain rfl := FileTask.endsIn_done_iff.mp hend
              simp [Address.calls, hbind, haction]
          | run handler =>
              simp only [Address.answer, hbind, haction, FileTask.endsIn_bind_iff] at hend
              obtain ⟨⟨t, result⟩, hcalled, ho⟩ := hend
              have hlog := hrecords [] g c handler (.here g) hc haction args s _ hcalled
              simp only [Address.calls, hbind, haction]
              cases result with
              | ok text =>
                  obtain rfl := FileTask.endsIn_done_iff.mp ho
                  exact hlog
              | error cause =>
                  obtain rfl := FileTask.endsIn_done_iff.mp ho
                  exact hlog
  | step hmem _ ih => exact ih (hrecords.below hmem) hend

end Group
end RuleDesk
