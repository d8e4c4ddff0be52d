import RuleDesk.Handle.Basic
import Mathlib.Data.List.Nodup

/-!
# What holds of every registry of handles

Whatever operations a registry has seen, its handles have increasing ids below the
next one, distinct names, and no handle lists a rule twice.
-/
namespace RuleDesk

theorem mem_subscribeTo {subscribed rules : List RuleId} {id : RuleId} :
    id ∈ subscribeTo subscribed rules ↔ id ∈ subscribed ∨ id ∈ rules := by
  induction rules generalizing subscribed with
  | nil => simp [subscribeTo]
  | cons rule rules ih =>
      rw [subscribeTo, ih]
      split <;> grind

theorem nodup_subscribeTo {subscribed : List RuleId} (h : subscribed.Nodup)
    (rules : List RuleId) : (subscribeTo subscribed rules).Nodup := by
  induction rules generalizing subscribed with
  | nil => exact h
  | cons rule rules ih =>
      rw [subscribeTo]
      refine ih ?_
      split
      · exact h
      · next hnew =>
          rw [← List.concat_eq_append]
          exact h.concat (by simpa using hnew)

namespace Handles

/-- One operation on a registry that is not refused. -/
inductive Step : Handles → Handles → Prop where
  | added {hs hs' : Handles} {name file : String} {rules : List RuleId} {handle : Handle} :
      hs.add name file rules = (hs', some handle) → Step hs hs'
  | removed {hs hs' : Handles} {name : String} {handle : Handle} :
      hs.remove name = (hs', some handle) → Step hs hs'
  | subscribed {hs hs' : Handles} {name : String} {rules : List RuleId} :
      hs.subscribe name rules = (hs', true) → Step hs hs'
  | unsubscribed {hs hs' : Handles} {name : String} {rules : List RuleId} :
      hs.unsubscribe name rules = (hs', true) → Step hs hs'
  | fileSet {hs hs' : Handles} {name file : String} :
      hs.setFile name file = (hs', true) → Step hs hs'
  | ruleForgotten (hs : Handles) (id : RuleId) : Step hs (hs.forgetRule id)
  | allForgotten (hs : Handles) : Step hs hs.forgetAllRules

/-- Registries that operations lead to from the empty one. -/
inductive Reached : Handles → Prop where
  | empty : Reached {}
  | step {hs hs' : Handles} : Reached hs → Step hs hs' → Reached hs'

structure Sound (hs : Handles) : Prop where
  increasing : (hs.list.map Handle.id).Pairwise (· < ·)
  bounded : ∀ id ∈ hs.list.map Handle.id, id < hs.nextId
  names : (hs.list.map Handle.name).Nodup
  rules : ∀ h ∈ hs.list, h.rules.Nodup

variable {hs hs' : Handles} {name : String}

theorem Sound.nodup_ids (h : hs.Sound) : (hs.list.map Handle.id).Nodup :=
  h.increasing.imp Nat.ne_of_lt

theorem Sound.eq_of_id (h : hs.Sound) {g k : Handle} (hg : g ∈ hs.list) (hk : k ∈ hs.list)
    (hid : g.id = k.id) : g = k :=
  List.inj_on_of_nodup_map h.nodup_ids hg hk hid

theorem isSome_byName?_iff : (hs.byName? name).isSome = true ↔ name ∈ hs.list.map Handle.name := by
  rw [byName?, List.find?_isSome, List.mem_map]
  simp

theorem map_changeFirst {α : Type} {f : Handle → α} {change : Handle → Handle}
    (hf : ∀ h, f (change h) = f h) (list : List Handle) :
    (changeFirst name change list).map f = list.map f := by
  induction list with
  | nil => rfl
  | cons h list ih =>
      unfold changeFirst
      split <;> simp [hf, ih]

theorem mem_changeFirst {change : Handle → Handle} {list : List Handle} {h : Handle}
    (hh : h ∈ changeFirst name change list) : h ∈ list ∨ ∃ g ∈ list, h = change g := by
  induction list with
  | nil => exact .inl hh
  | cons first list ih =>
      unfold changeFirst at hh
      split at hh <;> grind

theorem change_eq_true {change : Handle → Handle} (h : hs.change name change = (hs', true)) :
    hs' = { hs with list := changeFirst name change hs.list } := by
  unfold Handles.change at h
  split at h
  · exact (Prod.mk.inj h).1.symm
  · cases (Prod.mk.inj h).2

theorem names_change {change : Handle → Handle} (h : hs.change name change = (hs', true))
    (hname : ∀ g, (change g).name = g.name) :
    hs'.list.map Handle.name = hs.list.map Handle.name := by
  rw [change_eq_true h]
  exact map_changeFirst hname _

/-- A refused change leaves the registry as it was, and so do the other refused requests: the
name is looked up before anything is changed. -/
theorem state_of_change_refused {change : Handle → Handle}
    (h : hs.change name change = (hs', false)) : hs' = hs := by
  unfold Handles.change at h
  split at h
  · cases (Prod.mk.inj h).2
  · exact (Prod.mk.inj h).1.symm

theorem state_of_add_refused {file : String} {rules : List RuleId}
    (h : hs.add name file rules = (hs', none)) : hs' = hs := by
  unfold Handles.add at h
  split at h
  · exact (Prod.mk.inj h).1.symm
  · cases (Prod.mk.inj h).2

theorem state_of_remove_refused (h : hs.remove name = (hs', none)) : hs' = hs := by
  unfold Handles.remove at h
  split at h
  · cases (Prod.mk.inj h).2
  · exact (Prod.mk.inj h).1.symm

/-- Handles that keep their ids and names, with rule lists that are still sound. -/
theorem Sound.of_list (h : hs.Sound) {list : List Handle}
    (hids : list.map Handle.id = hs.list.map Handle.id)
    (hnames : list.map Handle.name = hs.list.map Handle.name)
    (hrules : ∀ g ∈ list, g.rules.Nodup) : ({ hs with list } : Handles).Sound where
  increasing := hids ▸ h.increasing
  bounded := fun id hid => h.bounded id (hids ▸ hid)
  names := hnames ▸ h.names
  rules := hrules

theorem Sound.change (h : hs.Sound) {change : Handle → Handle}
    (hchange : hs.change name change = (hs', true)) (hid : ∀ g, (change g).id = g.id)
    (hname : ∀ g, (change g).name = g.name)
    (hrules : ∀ g, g.rules.Nodup → (change g).rules.Nodup) : hs'.Sound := by
  rw [change_eq_true hchange]
  refine h.of_list (map_changeFirst hid _) (map_changeFirst hname _) fun g hg => ?_
  rcases mem_changeFirst hg with hold | ⟨k, hk, rfl⟩
  · exact h.rules g hold
  · exact hrules k (h.rules k hk)

theorem Sound.add (h : hs.Sound) {file : String} {rules : List RuleId} {handle : Handle}
    (hadd : hs.add name file rules = (hs', some handle)) : hs'.Sound := by
  unfold Handles.add at hadd
  split at hadd
  · cases (Prod.mk.inj hadd).2
  · next hfree =>
      obtain ⟨rfl, -⟩ := Prod.mk.inj hadd
      have hname : name ∉ hs.list.map Handle.name := isSome_byName?_iff.not.mp hfree
      refine ⟨?_, ?_, ?_, ?_⟩
      · rw [List.map_append, List.pairwise_append]
        exact ⟨h.increasing, by simp, fun id hid new hnew => by
          simp only [List.map_cons, List.map_nil, List.mem_singleton] at hnew
          exact hnew ▸ h.bounded id hid⟩
      · intro id hid
        rw [List.map_append, List.mem_append] at hid
        rcases hid with hold | hnew
        · exact Nat.lt_succ_of_lt (h.bounded id hold)
        · simp only [List.map_cons, List.map_nil, List.mem_singleton] at hnew
          exact hnew ▸ Nat.lt_succ_self _
      · rw [List.map_append, List.map_cons, List.map_nil, ← List.concat_eq_append]
        exact h.names.concat hname
      · intro g hg
        rcases List.mem_append.mp hg with hold | hnew
        · exact h.rules g hold
        · obtain rfl := List.mem_singleton.mp hnew
          exact nodup_subscribeTo .nil rules

theorem remove_eq_some {handle : Handle} (h : hs.remove name = (hs', some handle)) :
    hs.byName? name = some handle ∧ hs' = { hs with list := hs.list.eraseP (·.name == name) } := by
  unfold Handles.remove at h
  split at h
  · next hfound =>
      obtain ⟨rfl, heq⟩ := Prod.mk.inj h
      exact ⟨hfound.trans heq, rfl⟩
  · cases (Prod.mk.inj h).2

theorem Sound.remove (h : hs.Sound) {handle : Handle}
    (hremove : hs.remove name = (hs', some handle)) : hs'.Sound := by
  obtain rfl := (remove_eq_some hremove).2
  have hsublist : (hs.list.eraseP (·.name == name)).Sublist hs.list := List.eraseP_sublist
  exact
    { increasing := h.increasing.sublist (hsublist.map _)
      bounded := fun id hid => h.bounded id ((hsublist.map _).subset hid)
      names := h.names.sublist (hsublist.map _)
      rules := fun g hg => h.rules g (hsublist.subset hg) }

theorem Sound.step (h : hs.Sound) (hstep : Step hs hs') : hs'.Sound := by
  cases hstep with
  | added hadd => exact h.add hadd
  | removed hremove => exact h.remove hremove
  | subscribed hchange =>
      exact h.change hchange (fun _ => rfl) (fun _ => rfl)
        fun _ hrules => nodup_subscribeTo hrules _
  | unsubscribed hchange =>
      exact h.change hchange (fun _ => rfl) (fun _ => rfl) fun _ hrules => hrules.filter _
  | fileSet hchange =>
      exact h.change hchange (fun _ => rfl) (fun _ => rfl) fun _ hrules => hrules
  | ruleForgotten id =>
      refine h.of_list (by simp) (by simp) fun g hg => ?_
      obtain ⟨k, hk, rfl⟩ := List.mem_map.mp hg
      exact (h.rules k hk).filter _
  | allForgotten =>
      refine h.of_list (by simp) (by simp) fun g hg => ?_
      obtain ⟨k, -, rfl⟩ := List.mem_map.mp hg
      exact .nil

theorem Reached.sound (h : hs.Reached) : hs.Sound := by
  induction h with
  | empty => exact ⟨.nil, by simp, .nil, by simp⟩
  | step _ hstep ih => exact ih.step hstep

end Handles
end RuleDesk
