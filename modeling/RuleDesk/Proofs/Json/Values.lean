import RuleDesk.Json.Value
import RuleDesk.Proofs.Json.Integers
import Mathlib.Data.String.Basic

/-!
# What a value that was read is like

However a value was spelled, its integers are in range, the members of each object are in the
order of their names with no name twice, and arrays and objects are nested no deeper than there
was room for.
-/
namespace RuleDesk.Json.Value

/-- The members stand in the order of their names, and each name once. -/
def Ordered (members : List (String × Value)) : Prop :=
  members.Pairwise fun m other => m.1 < other.1

section Members

variable {members before : List (String × Value)} {name : String} {value : Value}
  {m : String × Value}

theorem mem_insertMember (h : m ∈ insertMember name value members) :
    m = (name, value) ∨ m ∈ members := by
  induction members with
  | nil => exact .inl (List.mem_singleton.mp h)
  | cons other rest ih =>
      unfold insertMember at h
      split at h
      · exact (List.mem_cons.mp h).imp_right (List.mem_cons_of_mem _)
      · split at h
        · exact List.mem_cons.mp h
        · rcases List.mem_cons.mp h with rfl | hlater
          · exact .inr List.mem_cons_self
          · exact (ih hlater).imp_right (List.mem_cons_of_mem _)

theorem Ordered.insertMember (h : Ordered members) (name : String) (value : Value) :
    Ordered (insertMember name value members) := by
  induction h with
  | nil => exact List.pairwise_singleton _ _
  | @cons other rest hlater hrest ih =>
      unfold Value.insertMember
      split
      · next hsame =>
          rw [← hsame] at hlater
          exact .cons hlater hrest
      · next hdiffers =>
          split
          · next hless =>
              refine .cons (fun m hm => ?_) (.cons hlater hrest)
              rcases List.mem_cons.mp hm with rfl | hm
              · exact hless
              · exact lt_trans hless (hlater m hm)
          · next hnot =>
              have hmore : other.1 < name := lt_of_le_of_ne (not_lt.mp hnot) (Ne.symm hdiffers)
              refine .cons (fun m hm => ?_) ih
              rcases mem_insertMember hm with rfl | hm
              · exact hmore
              · exact hlater m hm

theorem Ordered.insertAll (h : Ordered before) (members : List (String × Value)) :
    Ordered (members.foldl (fun sorted m => Value.insertMember m.1 m.2 sorted) before) := by
  induction members generalizing before with
  | nil => exact h
  | cons m rest ih => exact ih (h.insertMember m.1 m.2)

theorem ordered_sortMembers (members : List (String × Value)) : Ordered (sortMembers members) :=
  Ordered.insertAll .nil members

theorem mem_insertAll
    (h : m ∈ members.foldl (fun sorted m => Value.insertMember m.1 m.2 sorted) before) :
    m ∈ before ∨ m ∈ members := by
  induction members generalizing before with
  | nil => exact .inl h
  | cons other rest ih =>
      rcases ih h with hinserted | hrest
      · rcases mem_insertMember hinserted with rfl | hbefore
        · exact .inr List.mem_cons_self
        · exact .inl hbefore
      · exact .inr (List.mem_cons_of_mem _ hrest)

theorem mem_sortMembers (h : m ∈ sortMembers members) : m ∈ members :=
  (mem_insertAll h).resolve_left List.not_mem_nil

/-- A member behind all others is put at the end. -/
theorem insertMember_last (h : ∀ m ∈ members, m.1 < name) :
    Value.insertMember name value members = members ++ [(name, value)] := by
  induction members with
  | nil => rfl
  | cons other rest ih =>
      rw [List.forall_mem_cons] at h
      unfold Value.insertMember
      rw [if_neg (ne_of_gt h.1), if_neg (lt_asymm h.1), ih h.2]
      rfl

theorem insertAll_eq_append (h : Ordered (before ++ members)) :
    members.foldl (fun sorted m => Value.insertMember m.1 m.2 sorted) before =
      before ++ members := by
  induction members generalizing before with
  | nil => simp
  | cons m rest ih =>
      obtain ⟨-, -, hacross⟩ := List.pairwise_append.mp h
      have hlast : ∀ other ∈ before, other.1 < m.1 := fun other hother =>
        hacross other hother m List.mem_cons_self
      rw [List.foldl_cons, insertMember_last hlast, ih]
      · simp
      · simpa using h

/-- Members in order stay as they are. -/
theorem Ordered.sortMembers_eq (h : Ordered members) : sortMembers members = members :=
  insertAll_eq_append h

end Members

/-- A value with room for so many nested arrays and objects, as it is read. -/
inductive Fits : Nat → Value → Prop where
  | null {room : Nat} : Fits room null
  | bool {room : Nat} (b : Bool) : Fits room (bool b)
  | number {room : Nat} {n : Number} : n.InRange → Fits room (number n)
  | string {room : Nat} (s : String) : Fits room (string s)
  | array {room : Nat} {items : List Value} :
      (∀ item ∈ items, Fits room item) → Fits (room + 1) (array items)
  | object {room : Nat} {members : List (String × Value)} :
      Ordered members → (∀ m ∈ members, Fits room m.2) → Fits (room + 1) (object members)

mutual

/-- Whatever is read fits. -/
theorem fits_of_ofTree? {room : Nat} {t : Tree} {v : Value} (h : ofTree? room t = some v) :
    v.Fits room := by
  match t with
  | .null =>
      obtain rfl := Option.some.inj h
      exact .null
  | .bool b =>
      obtain rfl := Option.some.inj h
      exact .bool b
  | .number l =>
      obtain ⟨n, hn, rfl⟩ := Option.map_eq_some_iff.mp h
      exact .number (Number.inRange_of_ofLiteral? hn)
  | .string units =>
      obtain ⟨s, -, rfl⟩ := Option.map_eq_some_iff.mp h
      exact .string s
  | .array items =>
      match room with
      | 0 => cases h
      | room + 1 =>
          obtain ⟨values, hvalues, rfl⟩ := Option.map_eq_some_iff.mp h
          exact .array (fits_of_ofTrees? hvalues)
  | .object members =>
      match room with
      | 0 => cases h
      | room + 1 =>
          obtain ⟨values, hvalues, rfl⟩ := Option.map_eq_some_iff.mp h
          exact .object (ordered_sortMembers values) fun m hm =>
            fits_of_ofMembers? hvalues m (mem_sortMembers hm)

theorem fits_of_ofTrees? {room : Nat} {items : List Tree} {values : List Value}
    (h : ofTrees? room items = some values) : ∀ v ∈ values, v.Fits room := by
  match items with
  | [] =>
      obtain rfl := Option.some.inj h
      simp
  | item :: rest =>
      obtain ⟨v, hv, hbind⟩ := Option.bind_eq_some_iff.mp h
      obtain ⟨later, hlater, hvalues⟩ := Option.bind_eq_some_iff.mp hbind
      obtain rfl := Option.some.inj hvalues
      rw [List.forall_mem_cons]
      exact ⟨fits_of_ofTree? hv, fits_of_ofTrees? hlater⟩

theorem fits_of_ofMembers? {room : Nat} {members : List (RawText × Tree)}
    {values : List (String × Value)} (h : ofMembers? room members = some values) :
    ∀ m ∈ values, m.2.Fits room := by
  match members with
  | [] =>
      obtain rfl := Option.some.inj h
      simp
  | (key, item) :: rest =>
      obtain ⟨name, -, hbind⟩ := Option.bind_eq_some_iff.mp h
      obtain ⟨v, hv, hbind⟩ := Option.bind_eq_some_iff.mp hbind
      obtain ⟨later, hlater, hvalues⟩ := Option.bind_eq_some_iff.mp hbind
      obtain rfl := Option.some.inj hvalues
      rw [List.forall_mem_cons]
      exact ⟨fits_of_ofTree? hv, fits_of_ofMembers? hlater⟩

end

end RuleDesk.Json.Value
