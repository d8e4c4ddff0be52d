import RuleDesk.Proofs.Command.Addresses
import RuleDesk.Proofs.Command.Answer

/-!
# Entries of help

Help has one entry for each node below its group, a group before what is in it, and all of
them under the names that lead to them from the root of the tree. The reports of failed
lines use the same names and entries.
-/
namespace RuleDesk

variable {σ : Type}

/-- The name of the root, if it has one, and the names from there down, one space apart. -/
def Group.fullName (root : Group σ) (names : List String) : String :=
  " ".intercalate ((root.name :: names).filter (· ≠ ""))

theorem foldl_qualify {path : String} (hpath : path ≠ "") {names : List String}
    (hnames : ∀ name ∈ names, name ≠ "") :
    names.foldl qualify path = " ".intercalate (path :: names) := by
  induction names generalizing path with
  | nil => simp
  | cons name names ih =>
      obtain ⟨hname, hothers⟩ := List.forall_mem_cons.mp hnames
      have hstep : qualify path name = path ++ " " ++ name := by
        simp [qualify, hpath, hname]
      have hne : path ++ " " ++ name ≠ "" := by simp
      rw [List.foldl_cons, hstep, ih hne hothers]
      cases names with
      | nil => simp
      | cons next names => simp [String.append_assoc]

theorem Group.foldl_qualify_eq_fullName (root : Group σ) {names : List String}
    (hnames : ∀ name ∈ names, name ≠ "") :
    names.foldl qualify root.name = root.fullName names := by
  have hkept : names.filter (· ≠ "") = names := by simpa using hnames
  by_cases hroot : root.name = ""
  · have hall : root.fullName names = " ".intercalate names := by
      simp only [fullName, hroot]
      rw [List.filter_cons_of_neg (by simp), hkept]
    rw [hall, hroot]
    cases names with
    | nil => simp
    | cons name names =>
        obtain ⟨hname, hothers⟩ := List.forall_mem_cons.mp hnames
        have hfirst : qualify "" name = name := by simp [qualify]
        rw [List.foldl_cons, hfirst, foldl_qualify hname hothers]
  · rw [foldl_qualify hroot hnames, fullName, List.filter_cons_of_pos (by simpa using hroot),
      hkept]

/-- A node below a group. -/
structure Entry (σ : Type) where
  /-- The names of the groups on the way to it. -/
  way : List String
  node : Node σ

namespace Entry

/-- The names that lead to the node. -/
def address (e : Entry σ) : List String :=
  e.way ++ [e.node.name]

/-- The entry as it is seen from outside of the group with this name. -/
def inside (name : String) (e : Entry σ) : Entry σ :=
  { e with way := name :: e.way }

end Entry

/-- What help says of a node under its full name. -/
def Node.summary (fullName : String) : Node σ → String
  | .command c =>
    if c.signature.usage.isEmpty then s!"{fullName} : {c.description}"
    else s!"{fullName} {c.signature.usage} : {c.description}"
  | .group _ description _ => s!"{fullName} ... : {description}"

mutual

/-- A node and all that is below it. -/
def Node.entries : Node σ → List (Entry σ)
  | .command c => [⟨[], .command c⟩]
  | .group name description children =>
    ⟨[], .group name description children⟩ :: (entriesOfAll children).map (.inside name)

def Node.entriesOfAll : List (Node σ) → List (Entry σ)
  | [] => []
  | node :: rest => entries node ++ entriesOfAll rest

end

/-- All that is below a group. -/
def Group.entries (g : Group σ) : List (Entry σ) :=
  Node.entriesOfAll g.children

@[simp] theorem Node.entriesOfAll_eq_flatMap (nodes : List (Node σ)) :
    entriesOfAll nodes = nodes.flatMap entries := by
  induction nodes with
  | nil => rfl
  | cons node nodes ih => simp [entriesOfAll, ih]

/-- What holds of a node whenever it holds of its children holds of every node. -/
@[elab_as_elim]
theorem Node.induction_on_children {P : Node σ → Prop} (node : Node σ)
    (command : ∀ c, P (.command c))
    (group : ∀ name description children, (∀ c ∈ children, P c) →
      P (.group name description children)) : P node :=
  Node.rec (motive_2 := fun children => ∀ c ∈ children, P c) command group (by simp)
    (fun c children hc hchildren => List.forall_mem_cons.mpr ⟨hc, hchildren⟩) node

theorem Node.mem_entries_nil {child node : Node σ} : ⟨[], node⟩ ∈ child.entries ↔ node = child := by
  cases child with
  | command c => simp [entries]
  | group name description children => simp [entries, Entry.inside]

theorem Node.mem_entries_cons {child node : Node σ} {name : String} {way : List String} :
    ⟨name :: way, node⟩ ∈ child.entries ↔ ∃ description children,
      child = .group name description children ∧ ⟨way, node⟩ ∈ entriesOfAll children := by
  cases child with
  | command c => simp [entries]
  | group own description children =>
      constructor
      · intro h
        rcases List.mem_cons.mp h with hfirst | hlater
        · cases hfirst
        · obtain ⟨e, he, hinside⟩ := List.mem_map.mp hlater
          cases hinside
          exact ⟨description, children, rfl, he⟩
      · rintro ⟨_, _, ⟨⟩, he⟩
        exact List.mem_cons_of_mem _ (List.mem_map_of_mem (f := Entry.inside name) he)

namespace Group

variable {g f h : Group σ} {names inner : List String}

theorem Reaches.trans (hf : g.Reaches names f) (hh : f.Reaches inner h) :
    g.Reaches (names ++ inner) h := by
  induction hf with
  | here g => exact hh
  | step hmem _ ih => exact .step hmem (ih hh)

theorem mem_entries {e : Entry σ} : e ∈ g.entries ↔ ∃ node ∈ g.children, e ∈ node.entries := by
  simp [entries]

/-- The entries are the nodes of the groups that can be reached. The induction is on the
names of these groups. -/
theorem mem_entries_iff {way : List String} {node : Node σ} :
    ⟨way, node⟩ ∈ g.entries ↔ ∃ owner, g.Reaches way owner ∧ node ∈ owner.children := by
  induction way generalizing g with
  | nil =>
      rw [mem_entries]
      constructor
      · rintro ⟨child, hchild, hentry⟩
        obtain rfl := Node.mem_entries_nil.mp hentry
        exact ⟨g, .here g, hchild⟩
      · rintro ⟨owner, hreach, hnode⟩
        cases hreach
        exact ⟨node, hnode, Node.mem_entries_nil.mpr rfl⟩
  | cons name way ih =>
      rw [mem_entries]
      constructor
      · rintro ⟨child, hchild, hentry⟩
        obtain ⟨description, children, rfl, hbelow⟩ := Node.mem_entries_cons.mp hentry
        obtain ⟨owner, hreach, hnode⟩ := (@ih ⟨name, description, children⟩).mp hbelow
        exact ⟨owner, .step hchild hreach, hnode⟩
      · rintro ⟨owner, hreach, hnode⟩
        cases hreach with
        | @step _ _ _ description children _ hmem hlater =>
            have hbelow := (@ih ⟨name, description, children⟩).mpr ⟨owner, hlater, hnode⟩
            exact ⟨_, hmem, Node.mem_entries_cons.mpr ⟨description, children, rfl, hbelow⟩⟩

/-- The addresses of a node and of what is below it begin with its name. -/
theorem head?_address {node : Node σ} {e : Entry σ} (he : e ∈ node.entries) :
    e.address.head? = some node.name := by
  obtain ⟨way, below⟩ := e
  cases way with
  | nil =>
      obtain rfl := Node.mem_entries_nil.mp he
      rfl
  | cons name way =>
      obtain ⟨description, children, rfl, -⟩ := Node.mem_entries_cons.mp he
      rfl

theorem address_inside (name : String) (e : Entry σ) :
    (e.inside name).address = name :: e.address := rfl

/-- No two entries have the same address. -/
theorem Sound.nodup_addresses (hg : g.Sound) : (g.entries.map Entry.address).Nodup := by
  induction hg with
  | @intro g hnames _ _ _ ih =>
      rw [entries, Node.entriesOfAll_eq_flatMap, List.map_flatMap, List.nodup_flatMap]
      constructor
      · intro node hnode
        cases node with
        | command c => simp [Node.entries]
        | group name description children =>
            have hbelow : ((Node.entriesOfAll children).map Entry.address).Nodup :=
              ih name description children hnode
            have hinside : ((Node.entriesOfAll children).map (.inside name)).map Entry.address =
                ((Node.entriesOfAll children).map Entry.address).map (name :: ·) := by
              simp [List.map_map, Function.comp_def, address_inside]
            rw [Node.entries, List.map_cons, hinside, List.nodup_cons]
            constructor
            · intro hmem
              obtain ⟨address, hmem, hsame⟩ := List.mem_map.mp hmem
              obtain ⟨e, -, rfl⟩ := List.mem_map.mp hmem
              simp [Entry.address, Node.name] at hsame
            · exact hbelow.map (List.cons_injective)
      · refine (List.pairwise_map.mp hnames).imp fun hne => ?_
        intro address hfirst hsecond
        obtain ⟨e, he, rfl⟩ := List.mem_map.mp hfirst
        obtain ⟨e', he', hsame⟩ := List.mem_map.mp hsecond
        have hhead := head?_address he'
        rw [hsame, head?_address he] at hhead
        exact hne (Option.some.inj hhead)

end Group

/-- Whether the entry of a node is shown. -/
def HelpMode.shows : HelpMode → Entry σ → Bool
  | simple, e => e.way.isEmpty
  | recursive, _ => true

namespace Help

theorem commandLine_eq_summary (path : String) (c : Command σ) :
    commandLine path c = (Node.command c).summary (qualify path c.name) := rfl

theorem childLines_eq_flatMap (mode : HelpMode) (path : String) (depth : Nat)
    (nodes : List (Node σ)) :
    childLines mode path depth nodes = nodes.flatMap (nodeLines mode path depth) := by
  induction nodes with
  | nil => rfl
  | cons node nodes ih => rw [childLines, List.flatMap_cons, ih]

/-- The line of an entry in the help of a group with the given path. -/
def entryLine (path : String) (depth : Nat) (e : Entry σ) : String :=
  line (depth + e.way.length) (e.node.summary (e.address.foldl qualify path))

theorem entryLine_inside (path name : String) (depth : Nat) (e : Entry σ) :
    entryLine path depth (e.inside name) = entryLine (qualify path name) (depth + 1) e := by
  have hdepth : depth + (e.inside name).way.length = depth + 1 + e.way.length := by
    simp only [Entry.inside, List.length_cons]
    omega
  rw [entryLine, hdepth]
  rfl

theorem nodeLines_recursive (node : Node σ) (path : String) (depth : Nat) :
    nodeLines .recursive path depth node = node.entries.map (entryLine path depth) := by
  induction node using Node.induction_on_children generalizing path depth with
  | command c => rfl
  | group name description children ih =>
      have hbelow : children.flatMap (nodeLines .recursive (qualify path name) (depth + 1)) =
          children.flatMap fun child =>
            child.entries.map (entryLine (qualify path name) (depth + 1)) :=
        List.flatMap_congr fun child hchild => ih child hchild _ _
      rw [nodeLines, childLines_eq_flatMap, hbelow, Node.entries, Node.entriesOfAll_eq_flatMap,
        List.map_cons, List.map_map, List.map_flatMap]
      simp only [Function.comp_def, entryLine_inside]
      rfl

theorem filter_shows_inside (name : String) (entries : List (Entry σ)) :
    (entries.map (.inside name)).filter HelpMode.simple.shows = [] := by
  simp [HelpMode.shows, Entry.inside]

theorem nodeLines_eq_map (mode : HelpMode) (node : Node σ) (path : String) (depth : Nat) :
    nodeLines mode path depth node =
      (node.entries.filter mode.shows).map (entryLine path depth) := by
  cases mode with
  | recursive =>
      have hall : node.entries.filter HelpMode.recursive.shows = node.entries :=
        List.filter_eq_self.mpr fun _ _ => rfl
      rw [hall, nodeLines_recursive]
  | simple =>
      cases node with
      | command c => rfl
      | group name description children =>
          rw [Node.entries, List.filter_cons_of_pos (by rfl), filter_shows_inside]
          rfl

/-- What stands before the entries: a heading and, for a group with a name, its own summary. -/
def opening (fullName : String) (g : Group σ) : String :=
  if g.name = "" then "Here are your commands:\n"
  else s!"Here are your commands for {fullName}:\n" ++ line 1 (g.toNode.summary fullName)

/-- How far the children of a group are indented. -/
def childDepth (g : Group σ) : Nat :=
  if g.name = "" then 1 else 2

theorem render_eq (g : Group σ) (path : String) (mode : HelpMode) :
    render g path mode = opening path g ++
      String.join ((g.entries.filter mode.shows).map (entryLine path (childDepth g))) := by
  have hlines (depth : Nat) : childLines mode path depth g.children =
      (g.entries.filter mode.shows).map (entryLine path depth) := by
    rw [childLines_eq_flatMap, Group.entries, Node.entriesOfAll_eq_flatMap, List.filter_flatMap,
      List.map_flatMap]
    exact List.flatMap_congr fun node _ => nodeLines_eq_map mode node path depth
  by_cases hroot : g.name = ""
  · simp [render, opening, childDepth, Group.isRoot, hroot, hlines]
  · simp [render, opening, childDepth, Group.isRoot, hroot, hlines, Node.summary, groupLine,
      Group.toNode]

end Help

namespace Group

variable {g f : Group σ} {names : List String}

theorem eq_of_add_eq_ok {node : Node σ} {later : Group σ} (h : g.add node = .ok later) :
    later = { g with children := g.children ++ [node] } := by
  unfold add at h
  split at h
  · cases h
  · exact (Except.ok.inj h).symm

/-- What is added comes behind all other entries. -/
theorem entries_of_add_eq_ok {node : Node σ} {later : Group σ} (h : g.add node = .ok later) :
    later.entries = g.entries ++ node.entries := by
  rw [eq_of_add_eq_ok h]
  simp [entries]

theorem Built.help_mem (hg : g.Built) : .command .help ∈ g.children := by
  induction hg with
  | new name description => exact List.mem_singleton_self _
  | command _ _ _ _ _ ih => exact mem_addAll_of_mem ih
  | group _ _ ih _ => exact mem_addAll_of_mem ih

theorem Built.of_mem (hg : g.Built) {name description : String} {children : List (Node σ)}
    (hmem : .group name description children ∈ g.children) :
    Built ⟨name, description, children⟩ := by
  induction hg with
  | new => cases List.mem_singleton.mp hmem
  | command _ _ _ _ _ ih =>
      rcases mem_addAll_singleton hmem with hold | hnew
      · exact ih hold
      · cases hnew
  | group _ hadded ih _ =>
      rcases mem_addAll_singleton hmem with hold | hnew
      · exact ih hold
      · cases hnew
        exact hadded

theorem Reaches.built (h : g.Reaches names f) (hg : g.Built) : f.Built := by
  induction h with
  | here g => exact hg
  | step hmem _ ih => exact ih (hg.of_mem hmem)

/-- Words that begin with the way to a group go on in it, under the path so far. -/
theorem Reaches.dispatchWords (h : g.Reaches names f) (hg : g.Sound) (above : String) :
    ∃ inside, qualify inside f.name = names.foldl qualify (qualify above g.name) ∧
      ∀ (s : σ) (out : Output) (words : List String),
        g.dispatchWords above s out (names ++ words) = f.dispatchWords inside s out words := by
  induction h generalizing above with
  | here g => exact ⟨above, rfl, fun _ _ _ => rfl⟩
  | @step g f name description children names hmem _ ih =>
      have hfound : g.child? name = some (.group name description children) := hg.child? hmem
      obtain ⟨inside, hpath, hwords⟩ := ih (hg.group hmem) (qualify above g.name)
      refine ⟨inside, hpath, fun s out words => ?_⟩
      rw [List.cons_append, dispatchWords_group hfound]
      exact hwords s out words

theorem Reaches.dispatch (h : g.Reaches names f) (hg : g.Sound) :
    ∃ inside, qualify inside f.name = g.fullName names ∧
      ∀ (s : σ) (out : Output) (line : String) (words : List String),
        tokenize line = names ++ words →
          g.dispatch s out line = f.dispatchWords inside s out words := by
  obtain ⟨inside, hpath, hwords⟩ := h.dispatchWords hg ""
  refine ⟨inside, hpath.trans (g.foldl_qualify_eq_fullName (h.named hg)), ?_⟩
  intro s out line words hline
  rw [Group.dispatch, hline, hwords]

/-- A line that ends at a group shows its help. -/
theorem Reaches.dispatch_help (h : g.Reaches names f) (hg : g.Sound) (s : σ) (out : Output)
    {line : String} (hline : tokenize line = names) :
    g.dispatch s out line = .done (.ofText s out (qualify (g.fullName names) "help")
      (Help.render f (g.fullName names) .simple)) := by
  obtain ⟨inside, hpath, hwords⟩ := h.dispatch hg
  rw [hwords s out line [] (by simpa using hline), Group.dispatchWords]
  simp only [hpath]

theorem Reaches.dispatch_command (h : g.Reaches names f) (hg : g.Sound) {c : Command σ}
    (hc : .command c ∈ f.children) (s : σ) (out : Output) {line : String} {words : List String}
    (hline : tokenize line = names ++ c.name :: words) :
    g.dispatch s out line = c.invoke f (g.fullName names) words s out := by
  have hfound : f.child? c.name = some (.command c) := (h.sound hg).child? hc
  obtain ⟨inside, hpath, hwords⟩ := h.dispatch hg
  rw [hwords s out line _ hline, dispatchWords_command hfound, hpath]

end Group

/-- The report is one of the command with this full name: its usage, as help has it, or a
failure under its name. -/
def DispatchError.IsOf (c : Command σ) (fullName : String) : DispatchError → Prop
  | unrecognizedCommand _ => False
  | usage line _ => line = (Node.command c).summary fullName
  | command name _ => name = fullName

namespace Command

variable {c : Command σ} {owner : Group σ} {path : String} {words : List String} {s : σ}
  {out : Output}

theorem invoke_of_bind_error {reason : BindingFailure}
    (h : c.signature.bind words = .error reason) :
    c.invoke owner path words s out = .done ⟨s, out, .error
      (.usage ((Node.command c).summary (qualify path c.name)) reason)⟩ := by
  simp only [invoke, h, Help.commandLine_eq_summary]

theorem invoke_of_handler_error {args : Args} {handler : Handler σ} {t : σ} {cause : CommandError}
    (hargs : c.signature.bind words = .ok args) (haction : c.action = .run handler)
    (h : (handler args s).EndsIn (t, .error cause)) :
    (c.invoke owner path words s out).EndsIn
      ⟨t, out, .error (.command (qualify path c.name) cause)⟩ := by
  rw [invoke, hargs, haction]
  exact FileTask.endsIn_bind_iff.mpr ⟨_, h, FileTask.endsIn_done_iff.mpr rfl⟩

/-- Whatever the handler and the output do. -/
theorem isOf_of_invoke (hhelp : c.action = .help → c = .help) {o : Outcome σ}
    (hend : (c.invoke owner path words s out).EndsIn o) {e : DispatchError}
    (he : o.result = .error e) : e.IsOf c (qualify path c.name) := by
  cases hbind : c.signature.bind words with
  | error reason =>
      rw [invoke_of_bind_error hbind] at hend
      obtain rfl := FileTask.endsIn_done_iff.mp hend
      obtain rfl := Except.error.inj he
      exact rfl
  | ok args =>
      cases haction : c.action with
      | help =>
          obtain rfl := hhelp haction
          simp only [invoke, hbind, haction] at hend
          obtain rfl := FileTask.endsIn_done_iff.mp hend
          obtain ⟨cause, rfl⟩ := Outcome.ofText_error he
          exact rfl
      | run handler =>
          simp only [invoke, hbind, haction, FileTask.bind_eq, FileTask.endsIn_bind_iff] at hend
          obtain ⟨⟨t, result⟩, -, ho⟩ := hend
          cases result with
          | ok text =>
              obtain rfl := FileTask.endsIn_done_iff.mp ho
              obtain ⟨cause, rfl⟩ := Outcome.ofText_error he
              exact rfl
          | error cause =>
              obtain rfl := FileTask.endsIn_done_iff.mp ho
              obtain rfl := Except.error.inj he
              exact rfl

end Command

namespace Group

variable {g f : Group σ} {names : List String}

theorem Sound.address_named (hf : f.Sound) {e : Entry σ} (he : e ∈ f.entries) :
    ∀ name ∈ e.address, name ≠ "" := by
  obtain ⟨owner, hreach, hnode⟩ := mem_entries_iff.mp he
  rw [Entry.address, List.forall_mem_append, List.forall_mem_singleton]
  exact ⟨hreach.named hf, (hreach.sound hf).named _ hnode⟩

theorem Reaches.foldl_qualify_address (h : g.Reaches names f) (hg : g.Sound) {e : Entry σ}
    (he : e ∈ f.entries) :
    e.address.foldl qualify (g.fullName names) = g.fullName (names ++ e.address) := by
  have haddress := (h.sound hg).address_named he
  rw [← g.foldl_qualify_eq_fullName (h.named hg), ← List.foldl_append]
  exact g.foldl_qualify_eq_fullName (List.forall_mem_append.mpr ⟨h.named hg, haddress⟩)

/-- The help of a group, as it is shown inside a tree. -/
theorem Reaches.render_eq (h : g.Reaches names f) (hg : g.Sound) (mode : HelpMode) :
    Help.render f (g.fullName names) mode = Help.opening (g.fullName names) f ++
      String.join ((f.entries.filter mode.shows).map fun e =>
        Help.line (Help.childDepth f + e.way.length)
          (e.node.summary (g.fullName (names ++ e.address)))) := by
  rw [Help.render_eq]
  refine congrArg (Help.opening _ f ++ String.join ·) (List.map_congr_left fun e he => ?_)
  rw [Help.entryLine, h.foldl_qualify_address hg (List.mem_of_mem_filter he)]

/-- A line with the address of a command runs it under its full name. -/
theorem Reaches.dispatch_entry (h : g.Reaches names f) (hg : g.Sound) {way : List String}
    {c : Command σ} (he : ⟨way, .command c⟩ ∈ f.entries) :
    (c.action = .help → c = .help) ∧ ∃ owner path,
      qualify path c.name = g.fullName (names ++ (way ++ [c.name])) ∧
      ∀ (s : σ) (out : Output) (line : String) (words : List String),
        tokenize line = names ++ (way ++ [c.name]) ++ words →
          g.dispatch s out line = c.invoke owner path words s out := by
  obtain ⟨owner, hreach, hc⟩ := mem_entries_iff.mp he
  have howner := h.trans hreach
  have hnamed : ∀ name ∈ names ++ (way ++ [c.name]), name ≠ "" :=
    List.forall_mem_append.mpr ⟨h.named hg, (h.sound hg).address_named he⟩
  refine ⟨((howner.sound hg).eq_help hc), owner, g.fullName (names ++ way), ?_, ?_⟩
  · rw [← g.foldl_qualify_eq_fullName hnamed, ← List.append_assoc, List.foldl_append,
      g.foldl_qualify_eq_fullName (howner.named hg)]
    rfl
  · intro s out line words hline
    exact howner.dispatch_command hg hc s out (by simpa using hline)

theorem Built.shows_help (hg : g.Built) (hf : g.Reaches names f) (s : σ) (out : Output)
    (line : String) :
    (tokenize line = names ∨ tokenize line = names ++ ["help"] →
      g.dispatch s out line = .done (.ofText s out (g.fullName (names ++ ["help"]))
        (Help.render f (g.fullName names) .simple))) ∧
    (tokenize line = names ++ ["help", recursiveFlag] →
      g.dispatch s out line = .done (.ofText s out (g.fullName (names ++ ["help"]))
        (Help.render f (g.fullName names) .recursive))) := by
  have hname : qualify (g.fullName names) "help" = g.fullName (names ++ ["help"]) :=
    hf.foldl_qualify_address hg.sound
      (mem_entries_iff.mpr ⟨f, .here f, (hf.built hg).help_mem⟩)
  have hhelp {words : List String} (hline : tokenize line = names ++ "help" :: words) :
      g.dispatch s out line = Command.help.invoke f (g.fullName names) words s out :=
    hf.dispatch_command hg.sound (hf.built hg).help_mem s out hline
  rw [← hname]
  refine ⟨?_, fun hline => hhelp hline⟩
  rintro (hline | hline)
  · exact hf.dispatch_help hg.sound s out hline
  · exact hhelp hline

/-- In a tree that was built, help has one entry for each node below its group, a group
before what is in it and the last to be added last. Behind the opening of the help stands one
line for each of them, or for each child only, with as many tabs more as there are groups
between, and its summary under the full name from the root. The lines that lead to the group
show these texts. A line that leads to a command and does not fit it is reported with the
summary that the command has in every such help, and all that fails behind it is reported
under the full name. -/
theorem help_agrees_with_reports (hg : g.Built) (hf : g.Reaches names f) :
    (f.entries.map Entry.address).Nodup ∧
    (∀ way node, ⟨way, node⟩ ∈ f.entries ↔
      ∃ owner, f.Reaches way owner ∧ node ∈ owner.children) ∧
    (∀ node later, f.add node = .ok later → later.entries = f.entries ++ node.entries) ∧
    (∀ mode, Help.render f (g.fullName names) mode = Help.opening (g.fullName names) f ++
      String.join ((f.entries.filter mode.shows).map fun e =>
        Help.line (Help.childDepth f + e.way.length)
          (e.node.summary (g.fullName (names ++ e.address))))) ∧
    (∀ s out line,
      (tokenize line = names ∨ tokenize line = names ++ ["help"] →
        g.dispatch s out line = .done (.ofText s out (g.fullName (names ++ ["help"]))
          (Help.render f (g.fullName names) .simple))) ∧
      (tokenize line = names ++ ["help", recursiveFlag] →
        g.dispatch s out line = .done (.ofText s out (g.fullName (names ++ ["help"]))
          (Help.render f (g.fullName names) .recursive)))) ∧
    ∀ way c, ⟨way, .command c⟩ ∈ f.entries →
      let fullName := g.fullName (names ++ (way ++ [c.name]))
      ∀ s out line words, tokenize line = names ++ (way ++ [c.name]) ++ words →
        (∀ reason, c.signature.bind words = .error reason →
          g.dispatch s out line =
            .done ⟨s, out, .error (.usage ((Node.command c).summary fullName) reason)⟩) ∧
        (∀ args handler t cause, c.signature.bind words = .ok args → c.action = .run handler →
          (handler args s).EndsIn (t, .error cause) →
            (g.dispatch s out line).EndsIn ⟨t, out, .error (.command fullName cause)⟩) ∧
        ∀ o e, (g.dispatch s out line).EndsIn o → o.result = .error e → e.IsOf c fullName := by
  refine ⟨(hf.sound hg.sound).nodup_addresses, fun way node => mem_entries_iff,
    fun node later => entries_of_add_eq_ok, hf.render_eq hg.sound, hg.shows_help hf, ?_⟩
  intro way c hc fullName s out line words hline
  obtain ⟨hhelp, owner, path, hname, hdispatch⟩ := hf.dispatch_entry hg.sound hc
  rw [hdispatch s out line words hline]
  change qualify path c.name = fullName at hname
  rw [← hname]
  refine ⟨?_, ?_, ?_⟩
  · intro reason hbind
    exact Command.invoke_of_bind_error hbind
  · intro args handler t cause hargs haction hend
    exact Command.invoke_of_handler_error hargs haction hend
  · intro o e hend he
    exact Command.isOf_of_invoke hhelp hend he

/-- A tree whose root has a name, and a command in it that always fails. -/
theorem help_agrees_with_reports_named_root :
    let handler : Handler Nat := fun _ calls => .done (calls + 1, .error (.invalid "full"))
    let adder : Command Nat :=
      ⟨"add", "Adds a rule", ⟨[.required "name", .variadic "rules"], by decide⟩, .run handler⟩
    let rules : Group Nat := (Group.new "rules" "Handle rules").addAll [.command adder]
    let desk : Group Nat := (Group.new "desk" "All commands").addAll [rules.toNode]
    let usage := "desk rules add <name> [opt: rules...] : Adds a rule"
    desk.Built ∧ desk.Reaches ["rules"] rules ∧ ⟨[], .command adder⟩ ∈ rules.entries ∧
      Help.render rules "desk rules" .recursive =
        "Here are your commands for desk rules:\n\tdesk rules ... : Handle rules\n" ++
        "\t\tdesk rules help [opt: flag] : Show available commands, -r expands every group\n" ++
        "\t\t" ++ usage ++ "\n" ∧
      desk.dispatch 0 {} "rules add" =
        .done ⟨0, {}, .error (.usage usage (.missingArgument "name"))⟩ ∧
      (desk.dispatch 0 {} "rules add it").EndsIn
        ⟨1, {}, .error (.command "desk rules add" (.invalid "full"))⟩ ∧
      ∀ o e, (desk.dispatch 0 {} "rules add it").EndsIn o → o.result = .error e →
        e.IsOf adder "desk rules add" := by
  intro handler adder rules desk usage
  have hbuilt : desk.Built := .group (.new _ _) (.command _ _ _ _ (.new _ _))
  have hrules : rules.children = [.command .help, .command adder] :=
    congrArg Group.children (addAll_eq (by simp [Node.name, adder])
      (by rw [List.map_append]; simp [Node.name, adder]))
  have hmem : rules.toNode ∈ desk.children := by
    rw [show desk = _ from addAll_eq (by simp [rules])
      (by rw [List.map_append]; simp [rules])]
    exact List.mem_append_right _ (List.mem_singleton_self _)
  have hreach : desk.Reaches ["rules"] rules := .step hmem (.here rules)
  have hadder : ⟨[], .command adder⟩ ∈ rules.entries :=
    mem_entries_iff.mpr ⟨rules, .here rules, by simp [hrules]⟩
  obtain ⟨-, -, -, -, -, hreports⟩ := help_agrees_with_reports hbuilt hreach
  have hadd := hreports [] adder hadder 0 {}
  obtain ⟨husage, -, -⟩ := hadd "rules add" [] (by decide +kernel)
  obtain ⟨-, hfailure, hof⟩ := hadd "rules add it" ["it"] (by decide +kernel)
  refine ⟨hbuilt, hreach, hadder, by decide +kernel, husage _ rfl, ?_, hof⟩
  exact hfailure _ handler 1 _ rfl rfl (.done _)

end Group

end RuleDesk
