import RuleDesk.Command.Dispatch

/-!
# The way of the words

Nodes that are added to a group under distinct names are all in it, each under
its own name. The words of a line are followed from group to group by these names.
-/
namespace RuleDesk

/-- Where a field tells the entries of a list apart, each is found by its own. -/
theorem find?_of_nodup_map {α β : Type} [BEq β] [LawfulBEq β] {f : α → β} {entries : List α}
    (hdistinct : (entries.map f).Nodup) {a : α} (ha : a ∈ entries) :
    entries.find? (f · == f a) = some a := by
  induction entries with
  | nil => cases ha
  | cons first entries ih =>
      rw [List.map_cons, List.nodup_cons] at hdistinct
      rcases List.mem_cons.mp ha with rfl | hlater
      · exact List.find?_cons_of_pos (by simp)
      · have hne : f first ≠ f a := fun heq => hdistinct.1 (heq ▸ List.mem_map_of_mem hlater)
        rw [List.find?_cons_of_neg (by simpa using hne)]
        exact ih hdistinct.2 hlater

namespace Group

variable {σ : Type} {g : Group σ}

@[simp] theorem toNode_name (g : Group σ) : g.toNode.name = g.name := rfl

@[simp] theorem new_name (name description : String) :
    (Group.new name description : Group σ).name = name := rfl

@[simp] theorem names_new (name description : String) :
    (Group.new name description : Group σ).children.map Node.name = ["help"] := rfl

theorem add_eq_ok {node : Node σ} (hname : node.name ≠ "")
    (hfree : node.name ∉ g.children.map Node.name) :
    g.add node = .ok { g with children := g.children ++ [node] } := by
  have hempty : node.name.isEmpty = false := by simpa using hname
  have hnone : g.child? node.name = none := by
    unfold child?
    rw [List.find?_eq_none]
    intro other hother hsame
    exact hfree (List.mem_map.mpr ⟨other, hother, by simpa using hsame⟩)
  simp [add, hempty, hnone]

theorem addAll_cons (g : Group σ) (node : Node σ) (nodes : List (Node σ)) :
    g.addAll (node :: nodes) = (g.addAll [node]).addAll nodes := rfl

/-- A node that is added comes last under a name of its own, or it is left out. -/
theorem addAll_singleton (g : Group σ) (node : Node σ) :
    g.addAll [node] = g ∨ node.name ≠ "" ∧ node.name ∉ g.children.map Node.name ∧
      g.addAll [node] = { g with children := g.children ++ [node] } := by
  by_cases hname : node.name = ""
  · left
    simp [addAll, add, hname]
  · by_cases hfree : node.name ∈ g.children.map Node.name
    · left
      obtain ⟨other, hother, hsame⟩ := List.mem_map.mp hfree
      have htaken : (g.child? node.name).isSome = true := by
        rw [child?, List.find?_isSome]
        exact ⟨other, hother, by simpa using hsame⟩
      simp [addAll, add, htaken]
    · right
      refine ⟨hname, hfree, ?_⟩
      simp [addAll, add_eq_ok hname hfree]

theorem mem_addAll_singleton {node other : Node σ} (h : other ∈ (g.addAll [node]).children) :
    other ∈ g.children ∨ other = node := by
  rcases g.addAll_singleton node with hsame | ⟨-, -, hlonger⟩
  · rw [hsame] at h
    exact .inl h
  · rw [hlonger] at h
    exact (List.mem_append.mp h).imp_right List.mem_singleton.mp

theorem mem_addAll_of_mem {node other : Node σ} (h : other ∈ g.children) :
    other ∈ (g.addAll [node]).children := by
  rcases g.addAll_singleton node with hsame | ⟨-, -, hlonger⟩
  · rwa [hsame]
  · rw [hlonger]
    exact List.mem_append_left [node] h

@[simp] theorem addAll_name (g : Group σ) (nodes : List (Node σ)) :
    (g.addAll nodes).name = g.name := by
  induction nodes generalizing g with
  | nil => rfl
  | cons node nodes ih =>
      rw [addAll_cons, ih]
      rcases addAll_singleton g node with h | ⟨-, -, h⟩ <;> rw [h]

theorem addAll_eq {nodes : List (Node σ)} (hnames : ∀ node ∈ nodes, node.name ≠ "")
    (hdistinct : ((g.children ++ nodes).map Node.name).Nodup) :
    g.addAll nodes = { g with children := g.children ++ nodes } := by
  induction nodes generalizing g with
  | nil => simp [addAll]
  | cons node nodes ih =>
      have hfree : node.name ∉ g.children.map Node.name := by
        intro hmem
        rw [List.map_append, List.map_cons] at hdistinct
        exact (List.nodup_append.mp hdistinct).2.2 node.name hmem node.name (by simp) rfl
      have hadd := add_eq_ok (hnames node (by simp)) hfree
      have hfirst : g.addAll [node] = { g with children := g.children ++ [node] } := by
        unfold addAll
        rw [List.foldl_cons, hadd]
        rfl
      rw [addAll_cons, hfirst, ih (fun other hother => hnames other (by simp [hother]))
        (by simpa using hdistinct)]
      simp

/-- Where names are distinct, each node is found under its own. -/
theorem child?_of_mem (hdistinct : (g.children.map Node.name).Nodup) {node : Node σ}
    (hnode : node ∈ g.children) : g.child? node.name = some node :=
  find?_of_nodup_map hdistinct hnode

theorem child?_addAll {nodes : List (Node σ)} (hnames : ∀ node ∈ nodes, node.name ≠ "")
    (hdistinct : ((g.children ++ nodes).map Node.name).Nodup) {node : Node σ}
    (hnode : node ∈ nodes) {word : String} (hword : node.name = word) :
    (g.addAll nodes).child? word = some node := by
  rw [addAll_eq hnames hdistinct, ← hword]
  exact child?_of_mem hdistinct (List.mem_append_right g.children hnode)

variable {above word : String} {words : List String} {s : σ} {out : Output}

theorem dispatchWords_group {name description : String} {children : List (Node σ)}
    (h : g.child? word = some (.group name description children)) :
    g.dispatchWords above s out (word :: words) =
      (⟨name, description, children⟩ : Group σ).dispatchWords (qualify above g.name) s out
        words := by
  simp only [dispatchWords, h]

theorem dispatchWords_command {c : Command σ} (h : g.child? word = some (.command c)) :
    g.dispatchWords above s out (word :: words) =
      c.invoke g (qualify above g.name) words s out := by
  simp only [dispatchWords, h]

end Group
end RuleDesk
