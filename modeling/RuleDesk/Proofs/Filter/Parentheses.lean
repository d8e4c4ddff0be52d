import RuleDesk.Proofs.Filter.Tree

/-!
# Where parentheses are due

Parentheses stand around a conjunction or disjunction that is below another one, and around
one of several children right below a negation. No counting is needed to tell.

A walk through the expression that counts how deep it is gets the same text. It has one
counter for the whole expression, and it leaves every node with the count that it came
with, so what it writes for a node does not depend on the nodes that it has been to.
-/
namespace RuleDesk.Expression

/-- What holds of a node whenever it holds of its children holds of every expression. -/
@[elab_as_elim]
theorem induction_on_children {P : Expression → Prop} (e : Expression)
    (term : ∀ t, P (term t))
    (and : ∀ cs : List Expression, (∀ c ∈ cs, P c) → P (and cs))
    (or : ∀ cs : List Expression, (∀ c ∈ cs, P c) → P (or cs))
    (not : ∀ cs : List Expression, (∀ c ∈ cs, P c) → P (not cs)) : P e :=
  Expression.rec (motive_2 := fun cs => ∀ c ∈ cs, P c) term and or not (by simp)
    (fun c cs hc hcs => List.forall_mem_cons.mpr ⟨hc, hcs⟩) e

/-- A conjunction or disjunction, of however many children. -/
def isGroup : Expression → Bool
  | and _ | or _ => true
  | _ => false

def isNegation : Expression → Bool
  | not _ => true
  | _ => false

/-- Whether parentheses are due around a conjunction or disjunction of some children. What
stands above it begins with its parent. -/
def isDue (above children : List Expression) : Bool :=
  above.any isGroup || (above.head?.any isNegation && 2 ≤ children.length)

def parenthesized (due : Bool) (body : String) : String :=
  if due then "(" ++ body ++ ")" else body

mutual

/-- The text of a node below some others. -/
def dueText (above : List Expression) : Expression → String
  | term t => t
  | and children =>
    parenthesized (isDue above children)
      (" ".intercalate (dueTexts (and children :: above) children))
  | or children =>
    parenthesized (isDue above children)
      (" OR ".intercalate (dueTexts (or children :: above) children))
  | not children =>
    " ".intercalate ((dueTexts (not children :: above) children).map ("-" ++ ·))

def dueTexts (above : List Expression) : List Expression → List String
  | [] => []
  | child :: rest => dueText above child :: dueTexts above rest

end

theorem dueTexts_eq_map (above cs : List Expression) :
    dueTexts above cs = cs.map (dueText above) := by
  induction cs with
  | nil => rfl
  | cons c cs ih => simp [dueTexts, ih]

theorem wrapAt_eq_parenthesized {level : Nat} {due : Bool} (h : level ≠ 0 ↔ due = true)
    (body : String) : wrapAt level body = parenthesized due body := by
  cases due with
  | false =>
      obtain rfl : level = 0 := by simpa using h
      rfl
  | true =>
      have hlevel : level ≠ 0 := by simpa using h
      exact if_neg hlevel

/-- The level is not that of the top where a conjunction or disjunction of such a node
would get its parentheses. -/
def Suits (above : List Expression) (level : Nat) (e : Expression) : Prop :=
  level ≠ 0 ↔ (above.any isGroup || (above.head?.any isNegation && e.isCompound)) = true

/-- Below a conjunction or disjunction every level but that of the top is right. -/
theorem suits_below_group {parent : Expression} (hparent : parent.isGroup = true)
    (above : List Expression) (level : Nat) (e : Expression) :
    Suits (parent :: above) (level + 1) e := by
  simp [Suits, hparent]

/-- A negation passes its level on, and moves compound children off the top. -/
theorem Suits.below_negation {above cs : List Expression} {level : Nat}
    (h : Suits above level (not cs)) (c : Expression) :
    Suits (not cs :: above) (levelBelow level c) c := by
  have htop : level ≠ 0 ↔ above.any isGroup = true := by simpa [Suits, isCompound] using h
  unfold Suits levelBelow
  cases level with
  | zero =>
      have habove : above.any isGroup = false := by simpa using htop
      cases hcompound : c.isCompound <;> simp [isGroup, isNegation, habove]
  | succ level =>
      have habove : above.any isGroup = true := by simpa using htop
      simp [habove]

theorem textAt_eq_dueText (e : Expression) {above : List Expression} {level : Nat}
    (h : Suits above level e) : e.textAt level = e.dueText above := by
  induction e using induction_on_children generalizing above level with
  | term t => rfl
  | and cs ih =>
      have hchildren : cs.map (textAt (level + 1)) = cs.map (dueText (and cs :: above)) :=
        List.map_congr_left fun c hc => ih c hc (suits_below_group rfl above level c)
      rw [textAt, dueText, textsAt_eq_map, dueTexts_eq_map, hchildren]
      exact wrapAt_eq_parenthesized h _
  | or cs ih =>
      have hchildren : cs.map (textAt (level + 1)) = cs.map (dueText (or cs :: above)) :=
        List.map_congr_left fun c hc => ih c hc (suits_below_group rfl above level c)
      rw [textAt, dueText, textsAt_eq_map, dueTexts_eq_map, hchildren]
      exact wrapAt_eq_parenthesized h _
  | not cs ih =>
      rw [textAt, dueText, negationsAt_eq_map, dueTexts_eq_map, List.map_map]
      congr 1
      exact List.map_congr_left fun c hc =>
        congrArg ("-" ++ ·) (ih c hc (h.below_negation c))

/-- Does something one level deeper. -/
def oneDeeper {α : Type} (walk : StateM Int α) : StateM Int α := do
  modify (· + 1)
  let a ← walk
  modify (· - 1)
  return a

/-- Joins the texts of children one level deeper, in parentheses below level 0. -/
def walkGroup (sep : String) (children : StateM Int (List String)) : StateM Int String :=
  oneDeeper do
    let body := sep.intercalate (← children)
    return if (← get) > 0 then "(" ++ body ++ ")" else body

/-- A compound child of a negation above level 0 is written one level deeper. -/
def walkNegation (child : Expression) (walk : StateM Int String) : StateM Int String :=
  ("-" ++ ·) <$> do if child.isCompound && (← get) < 0 then oneDeeper walk else walk

mutual

/-- Writes a node. The counter stands for the level of the node above it, -1 at the top. -/
def walk : Expression → StateM Int String
  | term t => return t
  | and children => walkGroup " " (walkAll children)
  | or children => walkGroup " OR " (walkAll children)
  | not children => return " ".intercalate (← walkNegations children)

def walkAll : List Expression → StateM Int (List String)
  | [] => return []
  | child :: rest => return (← walk child) :: (← walkAll rest)

def walkNegations : List Expression → StateM Int (List String)
  | [] => return []
  | child :: rest => return (← walkNegation child (walk child)) :: (← walkNegations rest)

end

theorem walkAll_eq_mapM (cs : List Expression) : walkAll cs = cs.mapM walk := by
  induction cs with
  | nil => rfl
  | cons c cs ih => rw [walkAll, List.mapM_cons, ih]

theorem walkNegations_eq_mapM (cs : List Expression) :
    walkNegations cs = cs.mapM fun c => walkNegation c c.walk := by
  induction cs with
  | nil => rfl
  | cons c cs ih => rw [walkNegations, List.mapM_cons, ih]

/-- The counter is left as it was found. -/
def Restores {α : Type} (walk : StateM Int α) : Prop :=
  ∀ depth, (walk.run depth).2 = depth

theorem run_oneDeeper {α : Type} {walk : StateM Int α} (h : Restores walk) (depth : Int) :
    (oneDeeper walk).run depth = ((walk.run (depth + 1)).1, depth) := by
  have hrun : (oneDeeper walk).run depth =
      ((walk.run (depth + 1)).1, (walk.run (depth + 1)).2 - 1) := rfl
  rw [hrun, h, Int.add_sub_cancel]

theorem run_walkGroup (sep : String) {children : StateM Int (List String)}
    (h : Restores children) (depth : Int) :
    (walkGroup sep children).run depth =
      (parenthesized (0 < depth + 1) (sep.intercalate (children.run (depth + 1)).1), depth) := by
  have hrun : (walkGroup sep children).run depth =
      (if (children.run (depth + 1)).2 > 0 then
          "(" ++ sep.intercalate (children.run (depth + 1)).1 ++ ")"
        else sep.intercalate (children.run (depth + 1)).1,
        (children.run (depth + 1)).2 - 1) := rfl
  rw [hrun, h, Int.add_sub_cancel]
  simp [parenthesized]

theorem run_walkNegation (child : Expression) {walk : StateM Int String} (h : Restores walk)
    (depth : Int) :
    (walkNegation child walk).run depth =
      ("-" ++ (walk.run (if child.isCompound && depth < 0 then depth + 1 else depth)).1,
        depth) := by
  have hrun : (walkNegation child walk).run depth =
      ("-" ++ ((if child.isCompound && depth < 0 then oneDeeper walk else walk).run depth).1,
        ((if child.isCompound && depth < 0 then oneDeeper walk else walk).run depth).2) := rfl
  rw [hrun]
  split
  · rw [run_oneDeeper h]
  · rw [h]

/-- What is done for one element of a list does not depend on the elements before it. -/
theorem run_mapM {α β : Type} {l : List α} {f : α → StateM Int β} (h : ∀ a ∈ l, Restores (f a))
    (depth : Int) : (l.mapM f).run depth = (l.map fun a => ((f a).run depth).1, depth) := by
  induction l with
  | nil => rfl
  | cons a l ih =>
      obtain ⟨ha, hl⟩ := List.forall_mem_cons.mp h
      have hrun : ((a :: l).mapM f).run depth =
          (((f a).run depth).1 :: ((l.mapM f).run ((f a).run depth).2).1,
            ((l.mapM f).run ((f a).run depth).2).2) := by
        rw [List.mapM_cons]
        rfl
      rw [hrun, ha, ih hl]
      rfl

theorem Restores.mapM {α β : Type} {l : List α} {f : α → StateM Int β}
    (h : ∀ a ∈ l, Restores (f a)) : Restores (l.mapM f) :=
  fun depth => by rw [run_mapM h]

theorem Restores.walkNegation {c : Expression} {walk : StateM Int String} (h : Restores walk) :
    Restores (walkNegation c walk) :=
  fun depth => by rw [run_walkNegation c h]

/-- Every node leaves the counter as it found it. -/
theorem restores_walk (e : Expression) : Restores e.walk := by
  induction e using induction_on_children with
  | term t => exact fun depth => rfl
  | and cs ih | or cs ih =>
      intro depth
      rw [walk, walkAll_eq_mapM, run_walkGroup _ (.mapM ih)]
  | not cs ih =>
      intro depth
      have hcs : Restores (cs.mapM fun c => walkNegation c c.walk) :=
        .mapM fun c hc => (ih c hc).walkNegation
      rw [walk, walkNegations_eq_mapM]
      exact hcs depth

theorem run_walkAll (cs : List Expression) (depth : Int) :
    (walkAll cs).run depth = (cs.map fun c => (c.walk.run depth).1, depth) := by
  rw [walkAll_eq_mapM, run_mapM fun c _ => restores_walk c]

theorem run_walkNegations (cs : List Expression) (depth : Int) :
    (walkNegations cs).run depth =
      (cs.map fun c => ((walkNegation c c.walk).run depth).1, depth) := by
  rw [walkNegations_eq_mapM, run_mapM fun c _ => (restores_walk c).walkNegation]

theorem run_walkGroup_walkAll (sep : String) {cs : List Expression} {level : Nat}
    (hcs : ∀ c ∈ cs, (c.walk.run level).1 = c.textAt (level + 1)) :
    ((walkGroup sep (walkAll cs)).run (level - 1)).1 =
      wrapAt level (sep.intercalate (textsAt (level + 1) cs)) := by
  have hrestores : Restores (walkAll cs) := fun depth => by rw [run_walkAll]
  have hlevel : level ≠ 0 ↔ decide (0 < (level : Int)) = true := by
    rw [decide_eq_true_iff]
    omega
  rw [run_walkGroup sep hrestores, Int.sub_add_cancel, run_walkAll, List.map_congr_left hcs,
    textsAt_eq_map, wrapAt_eq_parenthesized hlevel]

/-- The counter of a compound child of a negation is moved where its level is. -/
theorem depth_below_negation (level : Nat) (c : Expression) :
    (if c.isCompound && (level - 1 : Int) < 0 then (level - 1 : Int) + 1 else level - 1) =
      levelBelow level c - 1 := by
  unfold levelBelow
  cases level with
  | zero => cases c.isCompound <;> rfl
  | succ level =>
      have hdeep : ¬ (level : Int) < 0 := by omega
      simp [hdeep]

/-- The counter stands one below the level. -/
theorem run_walk (e : Expression) (level : Nat) :
    e.walk.run (level - 1) = (e.textAt level, (level - 1 : Int)) := by
  refine Prod.ext ?_ (restores_walk e _)
  induction e using induction_on_children generalizing level with
  | term t => rfl
  | and cs ih | or cs ih =>
      exact run_walkGroup_walkAll _ fun c hc => by simpa using ih c hc (level + 1)
  | not cs ih =>
      have hcs : ∀ c ∈ cs, ((walkNegation c c.walk).run (level - 1)).1 =
          "-" ++ c.textAt (levelBelow level c) := by
        intro c hc
        rw [run_walkNegation c (restores_walk c), depth_below_negation, ih c hc]
      have hrun : ((not cs).walk.run (level - 1)).1 =
          " ".intercalate ((walkNegations cs).run (level - 1)).1 := rfl
      rw [hrun, run_walkNegations, textAt, negationsAt_eq_map, List.map_congr_left hcs]

/-- The flattened text has parentheses exactly where they are due. A walk that counts the
depth writes the same text, leaves every node with the counter as it found it, and writes a
node in the same way whatever it has written before it on the same level. -/
theorem text_parenthesized_where_due (e : Expression) :
    e.text = e.dueText [] ∧ e.walk.run (-1) = (e.text, -1) ∧
      ∀ depth : Int, (e.walk.run depth).2 = depth ∧
        ∀ before after : List Expression,
          ((walkAll (before ++ e :: after)).run depth).1[before.length]? =
              some (e.walk.run depth).1 ∧
            ((walkNegations (before ++ e :: after)).run depth).1[before.length]? =
              some ((walkNegation e e.walk).run depth).1 := by
  have hdue : e.text = e.dueText [] := textAt_eq_dueText e (by simp [Suits])
  have hwalk : e.walk.run (-1) = (e.text, -1) := run_walk e 0
  refine ⟨hdue, hwalk, fun depth => ⟨restores_walk e depth, fun before after => ?_⟩⟩
  rw [run_walkAll, run_walkNegations]
  simp

/-- Parentheses come with a second child below a negation, and below another group they
come with one child. -/
example : (not [and [term "a"], or [term "b", and [term "c"]]]).text = "-a -(b OR (c))" := by
  decide

end RuleDesk.Expression
