import RuleDesk.Capture.Routing
import RuleDesk.Proofs.Handle.Registry
import Mathlib.Data.List.Induction

/-!
# What a routing table holds

The handles that a table gives for a rule, computed without the table. A handle
with a rule list takes the matches of the rules in it. A handle without one takes
the matches of every registered rule, and also those of an unregistered id to which
a handle before it is subscribed: that id has entered the table by then. Without
such subscriptions routing is decided by the subscriptions alone.
-/
namespace RuleDesk

/-- Whether a rule of the book has the id. -/
def Rulebook.registers (b : Rulebook) (id : RuleId) : Bool :=
  (b.byId? id).isSome

/-- Whether a handle is subscribed to the matches of an id: it lists the id, or it lists
none and the id is that of a registered rule. -/
def Handle.takes (book : Rulebook) (h : Handle) (id : RuleId) : Bool :=
  if h.receivesAll then book.registers id else h.rules.contains id

namespace RoutingTable

theorem lookup_map (f : RuleId → List HandleId → List HandleId)
    (routes : List (RuleId × List HandleId)) (id : RuleId) :
    (routes.map fun route => (route.1, f route.1 route.2)).lookup id =
      (routes.lookup id).map (f id) := by
  induction routes with
  | nil => rfl
  | cons route routes ih =>
      obtain ⟨first, handles⟩ := route
      rw [List.map_cons, List.lookup_cons, List.lookup_cons, ih]
      cases hsame : id == first with
      | true =>
          obtain rfl := beq_iff_eq.mp hsame
          rfl
      | false => rfl

theorem lookup_addRule (t : RoutingTable) (id other : RuleId) :
    (t.addRule id).routes.lookup other =
      if other = id then some (t.handlesOf id) else t.routes.lookup other := by
  unfold addRule handlesOf
  split
  · next hknown =>
      obtain ⟨handles, hhandles⟩ := Option.isSome_iff_exists.mp hknown
      split
      · next hsame => rw [hsame, hhandles, Option.getD_some]
      · rfl
  · next hnew =>
      have hnone : t.routes.lookup id = none := Option.not_isSome_iff_eq_none.mp hnew
      rw [List.lookup_append, List.lookup_cons]
      by_cases hsame : other = id
      · simp [hsame, hnone]
      · simp [hsame, beq_eq_false_iff_ne.mpr hsame]

theorem lookup_addRoute (t : RoutingTable) (handle : HandleId) (id other : RuleId) :
    (t.addRoute handle id).routes.lookup other =
      if other = id then some (t.handlesOf id ++ [handle]) else t.routes.lookup other := by
  have hmap : (t.addRoute handle id).routes = (t.addRule id).routes.map fun route =>
      (route.1, if route.1 = id then route.2 ++ [handle] else route.2) := by
    refine List.map_congr_left fun route _ => ?_
    split <;> rfl
  rw [hmap, lookup_map fun first handles => if first = id then handles ++ [handle] else handles,
    lookup_addRule]
  split <;> simp_all

theorem lookup_addRules (ids : List RuleId) (t : RoutingTable) (id : RuleId) :
    (ids.foldl addRule t).routes.lookup id =
      if id ∈ ids then some (t.handlesOf id) else t.routes.lookup id := by
  induction ids generalizing t with
  | nil => simp
  | cons first ids ih =>
      rw [List.foldl_cons, ih, handlesOf, lookup_addRule]
      by_cases hfirst : id = first
      · simp [hfirst]
      · simp [hfirst, handlesOf]

theorem lookup_addRoutes {ids : List RuleId} (hids : ids.Nodup) (handle : HandleId)
    (t : RoutingTable) (id : RuleId) :
    (ids.foldl (fun t id => t.addRoute handle id) t).routes.lookup id =
      if id ∈ ids then some (t.handlesOf id ++ [handle]) else t.routes.lookup id := by
  induction ids generalizing t with
  | nil => simp
  | cons first ids ih =>
      rw [List.nodup_cons] at hids
      rw [List.foldl_cons, ih hids.2, handlesOf, lookup_addRoute]
      by_cases hfirst : id = first
      · subst hfirst
        simp [hids.1]
      · simp [hfirst, handlesOf]

theorem lookup_addHandle {h : Handle} (hrules : h.rules.Nodup) (t : RoutingTable) (id : RuleId) :
    (t.addHandle h).routes.lookup id =
      if h.receivesAll then (t.routes.lookup id).map (· ++ [h.id])
      else if id ∈ h.rules then some (t.handlesOf id ++ [h.id]) else t.routes.lookup id := by
  unfold addHandle
  split
  · exact lookup_map (fun _ handles => handles ++ [h.id]) t.routes id
  · exact lookup_addRoutes hrules h.id t id

/-- The handles that the matches of a rule go to, from when the table knows the rule or
not. -/
def feeding (id : RuleId) : Bool → List Handle → List HandleId
  | _, [] => []
  | known, h :: rest =>
    if h.receivesAll then (if known then [h.id] else []) ++ feeding id known rest
    else if id ∈ h.rules then h.id :: feeding id true rest
    else feeding id known rest

theorem handlesOf_addHandles {list : List Handle} (hlist : ∀ h ∈ list, h.rules.Nodup)
    (t : RoutingTable) (id : RuleId) :
    (list.foldl addHandle t).handlesOf id =
      t.handlesOf id ++ feeding id (t.routes.lookup id).isSome list := by
  induction list generalizing t with
  | nil => simp [feeding]
  | cons h list ih =>
      have hlookup := lookup_addHandle (hlist h (by simp)) t id
      rw [List.foldl_cons, ih fun g hg => hlist g (by simp [hg])]
      by_cases hall : h.receivesAll = true
      · simp only [handlesOf, hlookup, feeding, hall, if_true]
        cases t.routes.lookup id <;> simp
      · simp only [handlesOf, hlookup, feeding, hall]
        by_cases hsubscribed : id ∈ h.rules <;> simp [hsubscribed]

/-- A table knows the ids that it begins with and those that handles list. -/
theorem isSome_lookup_addHandles {list : List Handle} (hlist : ∀ h ∈ list, h.rules.Nodup)
    (t : RoutingTable) (id : RuleId) :
    ((list.foldl addHandle t).routes.lookup id).isSome = true ↔
      (t.routes.lookup id).isSome = true ∨ ∃ h ∈ list, id ∈ h.rules := by
  induction list generalizing t with
  | nil => simp
  | cons h list ih =>
      have hlookup := lookup_addHandle (hlist h (by simp)) t id
      rw [List.foldl_cons, ih fun g hg => hlist g (by simp [hg]), hlookup]
      by_cases hall : h.receivesAll = true
      · have hnone : h.rules = [] := List.isEmpty_iff.mp hall
        simp [hall, hnone]
      · by_cases hsubscribed : id ∈ h.rules <;> simp [hall, hsubscribed]

theorem registers_iff {book : Rulebook} {id : RuleId} :
    book.registers id = true ↔ id ∈ book.rules.filterMap Rule.id := by
  simp [Rulebook.registers, Rulebook.byId?, List.find?_isSome]

theorem handlesOf_build (book : Rulebook) {handles : Handles} (h : handles.Sound) (id : RuleId) :
    (build book handles).handlesOf id = feeding id (book.registers id) handles.list := by
  unfold build
  rw [handlesOf_addHandles h.rules, handlesOf, lookup_addRules]
  by_cases hknown : book.registers id = true
  · simp [registers_iff.mp hknown, hknown, handlesOf]
  · have hout : id ∉ book.rules.filterMap Rule.id := fun hmem => hknown (registers_iff.mpr hmem)
    simp [hout, hknown]

section FirstAppearances

variable {α β : Type} [BEq α] [LawfulBEq α] [BEq β] [LawfulBEq β]

theorem eraseDups_concat (l : List α) (a : α) :
    (l ++ [a]).eraseDups = if l.contains a then l.eraseDups else l.eraseDups ++ [a] := by
  rw [List.eraseDups_append]
  split <;> simp_all [List.removeAll, List.eraseDups_cons]

theorem nodup_eraseDups (l : List α) : l.eraseDups.Nodup := by
  induction l using List.reverseRecOn with
  | nil => exact .nil
  | append_singleton l a ih =>
      rw [eraseDups_concat]
      split
      · exact ih
      · next hnew =>
          rw [← List.concat_eq_append]
          exact ih.concat (by simpa using hnew)

theorem eraseDups_of_nodup {l : List α} (h : l.Nodup) : l.eraseDups = l := by
  induction l using List.reverseRecOn with
  | nil => rfl
  | append_singleton l a ih =>
      rw [List.nodup_append] at h
      have hnew : l.contains a = false := by
        rw [← Bool.not_eq_true, List.contains_iff_mem]
        exact fun ha => h.2.2 a ha a (by simp) rfl
      rw [eraseDups_concat, hnew, ih h.1]
      simp

theorem eraseDups_filter (p : α → Bool) (l : List α) :
    (l.filter p).eraseDups = l.eraseDups.filter p := by
  induction l using List.reverseRecOn with
  | nil => rfl
  | append_singleton l a ih =>
      rw [List.filter_append, eraseDups_concat]
      by_cases ha : p a = true
      · rw [List.filter_cons_of_pos ha, List.filter_nil, eraseDups_concat, ih]
        by_cases hmem : a ∈ l <;> simp [hmem, ha]
      · rw [List.filter_cons_of_neg ha, List.filter_nil, List.append_nil, ih]
        by_cases hmem : a ∈ l <;> simp [hmem, ha]

theorem eraseDups_map {f : α → β} {l : List α} (hf : ∀ a ∈ l, ∀ b ∈ l, f a = f b → a = b) :
    (l.map f).eraseDups = l.eraseDups.map f := by
  induction l using List.reverseRecOn with
  | nil => rfl
  | append_singleton l a ih =>
      have hiff : (l.map f).contains (f a) = l.contains a := by
        rw [Bool.eq_iff_iff, List.contains_iff_mem, List.contains_iff_mem, List.mem_map]
        constructor
        · rintro ⟨b, hb, hsame⟩
          exact hf b (by simp [hb]) a (by simp) hsame ▸ hb
        · exact fun ha => ⟨a, ha, rfl⟩
      rw [List.map_append, List.map_cons, List.map_nil, eraseDups_concat, eraseDups_concat, hiff,
        ih fun b hb c hc => hf b (by simp [hb]) c (by simp [hc])]
      split <;> simp

end FirstAppearances

theorem addTargets_eraseDups (earlier later : List HandleId) :
    addTargets earlier.eraseDups later = (earlier ++ later).eraseDups := by
  induction later generalizing earlier with
  | nil => simp [addTargets]
  | cons h later ih =>
      have hone : (if earlier.eraseDups.contains h then earlier.eraseDups
          else earlier.eraseDups ++ [h]) = (earlier ++ [h]).eraseDups := by
        rw [eraseDups_concat]
        simp [List.mem_eraseDups]
      rw [addTargets, hone, ih]
      simp

/-- The handles of the matched ids one after the other, each where it comes first. -/
theorem targets_eq (t : RoutingTable) (matched : List RuleId) :
    t.targets matched = (matched.flatMap t.handlesOf).eraseDups := by
  have hfold (earlier : List HandleId) :
      matched.foldl (fun targets id => addTargets targets (t.handlesOf id)) earlier.eraseDups =
        (earlier ++ matched.flatMap t.handlesOf).eraseDups := by
    induction matched generalizing earlier with
    | nil => simp
    | cons id matched ih =>
        rw [List.foldl_cons, addTargets_eraseDups, ih, List.flatMap_cons, List.append_assoc]
  exact hfold []

theorem not_mem_rules_of_receivesAll {h : Handle} (hall : h.receivesAll = true) (id : RuleId) :
    id ∉ h.rules := by
  rw [List.isEmpty_iff.mp hall]
  exact List.not_mem_nil

theorem feeding_append (id : RuleId) (known : Bool) (before after : List Handle) :
    feeding id known (before ++ after) = feeding id known before ++
      feeding id (known || before.any (id ∈ ·.rules)) after := by
  induction before generalizing known with
  | nil => simp [feeding]
  | cons h before ih =>
      rw [List.cons_append, feeding, feeding, List.any_cons]
      by_cases hall : h.receivesAll = true
      · simp [hall, not_mem_rules_of_receivesAll hall, ih]
      · by_cases hsubscribed : id ∈ h.rules <;> simp [hall, hsubscribed, ih]

theorem exists_of_mem_feeding {id : RuleId} {known : Bool} {list : List Handle} {x : HandleId}
    (hx : x ∈ feeding id known list) : ∃ h ∈ list, h.id = x := by
  induction list generalizing known with
  | nil => cases hx
  | cons h list ih =>
      unfold feeding at hx
      grind

/-- With distinct ids it is the place of a handle that decides. -/
theorem mem_feeding_iff {id : RuleId} {known : Bool} {before after : List Handle} {h : Handle}
    (hids : ((before ++ h :: after).map Handle.id).Nodup) :
    h.id ∈ feeding id known (before ++ h :: after) ↔
      id ∈ h.rules ∨ h.receivesAll = true ∧ (known = true ∨ ∃ g ∈ before, id ∈ g.rules) := by
  have hbefore (known : Bool) : h.id ∉ feeding id known before := by
    intro hmem
    obtain ⟨g, hg, hsame⟩ := exists_of_mem_feeding hmem
    rw [List.map_append, List.nodup_append] at hids
    exact hids.2.2 g.id (List.mem_map_of_mem hg) h.id (by simp) hsame
  have hafter (known : Bool) : h.id ∉ feeding id known after := by
    intro hmem
    obtain ⟨g, hg, hsame⟩ := exists_of_mem_feeding hmem
    rw [List.map_append, List.map_cons, List.nodup_append, List.nodup_cons] at hids
    exact hids.2.1.1 (hsame ▸ List.mem_map_of_mem hg)
  rw [feeding_append, List.mem_append, feeding]
  by_cases hall : h.receivesAll = true
  · simp [hbefore, hafter, hall, not_mem_rules_of_receivesAll hall]
  · by_cases hsubscribed : id ∈ h.rules <;> simp [hbefore, hafter, hall, hsubscribed]

/-- The table knows the rule from the start, or no handle is subscribed to it. -/
theorem feeding_eq_filter {book : Rulebook} {id : RuleId} {list : List Handle}
    (hlist : book.registers id = true ∨ ∀ h ∈ list, id ∉ h.rules) :
    feeding id (book.registers id) list = (list.filter (·.takes book id)).map Handle.id := by
  induction list with
  | nil => rfl
  | cons h list ih =>
      have hrest := ih (hlist.imp_right fun hnone g hg => hnone g (by simp [hg]))
      rw [feeding, List.filter_cons, Handle.takes]
      by_cases hall : h.receivesAll = true
      · cases hknown : book.registers id <;> simp [hknown ▸ hrest, hall]
      · by_cases hsubscribed : id ∈ h.rules
        · have hknown := hlist.resolve_right fun hnone => hnone h (by simp) hsubscribed
          rw [hknown] at hrest ⊢
          simp [hall, hsubscribed, hrest]
        · simp [hall, hsubscribed, hrest]

section Targets

variable {book : Rulebook} {handles : Handles} {matched : List RuleId}

theorem mem_targets_iff (h : handles.Sound) {x : HandleId} :
    x ∈ (build book handles).targets matched ↔
      ∃ id ∈ matched, x ∈ feeding id (book.registers id) handles.list := by
  simp only [targets_eq, List.mem_eraseDups, List.mem_flatMap, handlesOf_build book h]

theorem takes_iff {h : Handle} {id : RuleId} :
    h.takes book id = true ↔ id ∈ h.rules ∨ h.receivesAll = true ∧ book.registers id = true := by
  unfold Handle.takes
  split
  · next hall => simp [hall, not_mem_rules_of_receivesAll hall]
  · next hall => simp [hall]

theorem mem_targets_iff_of_place (hsound : handles.Sound) {before after : List Handle}
    {h : Handle} (hplace : handles.list = before ++ h :: after) :
    h.id ∈ (build book handles).targets matched ↔
      (∃ id ∈ matched, h.takes book id = true) ∨
        h.receivesAll = true ∧ ∃ id ∈ matched, ∃ g ∈ before, id ∈ g.rules := by
  have hids := hsound.nodup_ids
  rw [hplace] at hids
  simp only [mem_targets_iff hsound, hplace, mem_feeding_iff hids, takes_iff]
  grind

/-- No handle can be fed for its place alone: some matched id is registered, or every
handle lists rules, or no handle lists a matched id. -/
def Settled (book : Rulebook) (list : List Handle) (matched : List RuleId) : Prop :=
  (∃ id ∈ matched, book.registers id = true) ∨ (∀ h ∈ list, h.receivesAll = false) ∨
    ∀ h ∈ list, ∀ id ∈ matched, id ∉ h.rules

theorem mem_targets_iff_of_settled (hsound : handles.Sound)
    (hsettled : Settled book handles.list matched) {h : Handle} (hh : h ∈ handles.list) :
    h.id ∈ (build book handles).targets matched ↔ ∃ id ∈ matched, h.takes book id = true := by
  obtain ⟨before, after, hplace⟩ := List.append_of_mem hh
  rw [mem_targets_iff_of_place hsound hplace, or_iff_left_iff_imp]
  rintro ⟨hall, id, hid, g, hg, hsubscribed⟩
  have hmem : g ∈ handles.list := by simp [hplace, hg]
  rcases hsettled with ⟨known, hknown, hregistered⟩ | hlisted | hnone
  · exact ⟨known, hknown, takes_iff.mpr (.inr ⟨hall, hregistered⟩)⟩
  · rw [hlisted h hh] at hall
    cases hall
  · exact absurd hsubscribed (hnone g hmem id hid)

theorem Settled.perm {list others : List Handle} (h : Settled book list matched)
    (hsame : (others.map Handle.rules).Perm (list.map Handle.rules)) :
    Settled book others matched := by
  have hrules {g : Handle} (hg : g ∈ others) : ∃ k ∈ list, k.rules = g.rules :=
    List.mem_map.mp (hsame.subset (List.mem_map_of_mem hg))
  refine h.imp_right (Or.imp (fun hlisted g hg => ?_) fun hnone g hg id hid => ?_)
  · obtain ⟨k, hk, hkg⟩ := hrules hg
    have hlistedk := hlisted k hk
    rwa [Handle.receivesAll, hkg] at hlistedk
  · obtain ⟨k, hk, hkg⟩ := hrules hg
    exact hkg ▸ hnone k hk id hid

/-- A handle of the same name and rules is fed in the other registry. -/
theorem exists_target_of_same {others : Handles} (hsound : handles.Sound)
    (hothers : others.Sound) (hsettled : Settled book handles.list matched)
    (hsame : (handles.list.map fun h => (h.name, h.rules)).Perm
      (others.list.map fun h => (h.name, h.rules))) {h : Handle} (hh : h ∈ handles.list)
    (hfed : h.id ∈ (build book handles).targets matched) :
    ∃ g ∈ others.list, g.name = h.name ∧ g.id ∈ (build book others).targets matched := by
  have hrules : (others.list.map Handle.rules).Perm (handles.list.map Handle.rules) := by
    have hsecond := (hsame.map Prod.snd).symm
    simpa only [List.map_map, Function.comp_def] using hsecond
  obtain ⟨g, hg, heq⟩ := List.mem_map.mp (hsame.subset (List.mem_map_of_mem hh))
  obtain ⟨hname, hlist⟩ := Prod.mk.inj heq
  refine ⟨g, hg, hname, (mem_targets_iff_of_settled hothers (hsettled.perm hrules) hg).mpr ?_⟩
  obtain ⟨id, hid, htakes⟩ := (mem_targets_iff_of_settled hsound hsettled hh).mp hfed
  refine ⟨id, hid, ?_⟩
  rwa [Handle.takes, Handle.receivesAll, hlist]

/-- Whom the matches of a record go to. No handle is named twice, and a handle is named
if it is subscribed to a matched id, or if it takes all rules and a handle created
before it lists a matched id. Where that last case cannot arise, the subscriptions
alone decide, and the order in which the handles were created does not matter. -/
theorem targets_exact (hreached : handles.Reached) (book : Rulebook) (matched : List RuleId) :
    ((build book handles).targets matched).Nodup ∧
    (∀ x ∈ (build book handles).targets matched, ∃ h ∈ handles.list, h.id = x) ∧
    (∀ before h after, handles.list = before ++ h :: after →
      (h.id ∈ (build book handles).targets matched ↔
        (∃ id ∈ matched, h.takes book id = true) ∨
          h.receivesAll = true ∧ ∃ id ∈ matched, ∃ g ∈ before, id ∈ g.rules)) ∧
    (Settled book handles.list matched →
      (∀ h ∈ handles.list, h.id ∈ (build book handles).targets matched ↔
        ∃ id ∈ matched, h.takes book id = true) ∧
      ∀ others : Handles, others.Reached →
        (others.list.map fun h => (h.name, h.rules)).Perm
          (handles.list.map fun h => (h.name, h.rules)) →
        ∀ name, (∃ h ∈ others.list, h.name = name ∧
            h.id ∈ (build book others).targets matched) ↔
          ∃ h ∈ handles.list, h.name = name ∧ h.id ∈ (build book handles).targets matched) := by
  have hsound := hreached.sound
  refine ⟨?_, ?_, fun before h after hplace => mem_targets_iff_of_place hsound hplace,
    fun hsettled => ⟨fun h hh => mem_targets_iff_of_settled hsound hsettled hh, ?_⟩⟩
  · rw [targets_eq]
    exact nodup_eraseDups _
  · intro x hx
    obtain ⟨id, -, hfed⟩ := (mem_targets_iff hsound).mp hx
    exact exists_of_mem_feeding hfed
  · intro others hothers hsame name
    have hrules : (others.list.map Handle.rules).Perm (handles.list.map Handle.rules) := by
      simpa only [List.map_map, Function.comp_def] using hsame.map Prod.snd
    constructor
    · rintro ⟨g, hg, rfl, hfed⟩
      exact exists_target_of_same hothers.sound hsound (hsettled.perm hrules) hsame hg hfed
    · rintro ⟨h, hh, rfl, hfed⟩
      exact exists_target_of_same hsound hothers.sound hsettled hsame.symm hh hfed

/-- One handle lists a rule that is not registered, and another takes all rules. -/
def listedFirst : Handles :=
  ⟨[⟨0, "lists", "a", ["99"]⟩, ⟨1, "all", "b", []⟩], 2⟩

/-- The same handles, created the other way round. -/
def listedLast : Handles :=
  ⟨[⟨0, "all", "b", []⟩, ⟨1, "lists", "a", ["99"]⟩], 2⟩

theorem listedFirst_reached : listedFirst.Reached :=
  .step (.step .empty (@Handles.Step.added _ _ "lists" "a" ["99"] _ rfl))
    (@Handles.Step.added _ _ "all" "b" [] _ rfl)

theorem listedLast_reached : listedLast.Reached :=
  .step (.step .empty (@Handles.Step.added _ _ "all" "b" [] _ rfl))
    (@Handles.Step.added _ _ "lists" "a" ["99"] _ rfl)

/-- A record that matches a registered rule and another id. -/
theorem targets_exact_one_registered :
    let book : Rulebook := { rules := [⟨some "1", "cats", "cat", "..."⟩] }
    listedFirst.Reached ∧ Settled book listedFirst.list ["99", "1"] ∧
      ((build book listedFirst).targets ["99", "1"]).Nodup ∧
      ∀ h ∈ listedFirst.list, h.id ∈ (build book listedFirst).targets ["99", "1"] ↔
        ∃ id ∈ ["99", "1"], h.takes book id = true := by
  intro book
  have hsettled : Settled book listedFirst.list ["99", "1"] := .inl ⟨"1", by decide, by decide⟩
  have hexact := targets_exact listedFirst_reached book ["99", "1"]
  exact ⟨listedFirst_reached, hsettled, hexact.1, (hexact.2.2.2 hsettled).1⟩

/-- An id that no rule has is sent to the handle for all rules, which is not subscribed
to it, and that only if the handle that lists the id was created first. -/
theorem targets_depend_on_order :
    listedFirst.Reached ∧ listedLast.Reached ∧
    (listedFirst.list.map fun h => (h.name, h.rules)).Perm
      (listedLast.list.map fun h => (h.name, h.rules)) ∧
    (∃ h ∈ listedFirst.list, h.name = "all" ∧
      h.id ∈ (build {} listedFirst).targets ["99"] ∧ ¬ ∃ id ∈ ["99"], h.takes {} id = true) ∧
    ¬ ∃ h ∈ listedLast.list, h.name = "all" ∧ h.id ∈ (build {} listedLast).targets ["99"] :=
  ⟨listedFirst_reached, listedLast_reached, by decide, by decide, by decide⟩

end Targets

end RoutingTable
end RuleDesk
