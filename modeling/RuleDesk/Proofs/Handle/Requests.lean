import RuleDesk.Proofs.Handle.Registry
import RuleDesk.Proofs.Lists

/-!
# What is asked of a registry of handles

A registry goes through any requests: handles are created and removed, rules are subscribed,
unsubscribed and forgotten, and files are changed. A request either is refused, which changes
nothing, or does to each handle what can be told from that handle alone. Since a number is
spent on every handle that is created, and on nothing else, a number that a handle once had
never leads to another one.
-/
namespace RuleDesk

/-- A call that may change a registry. -/
inductive HandleRequest where
  | add (name file : String) (rules : List RuleId)
  | remove (name : String)
  | subscribe (name : String) (rules : List RuleId)
  | unsubscribe (name : String) (rules : List RuleId)
  | setFile (name file : String)
  | forgetRule (id : RuleId)
  | forgetAllRules
deriving Repr, DecidableEq

/-- What a handle is known by. -/
def Handle.knownBy (h : Handle) : HandleId × String :=
  (h.id, h.name)

/-- What a request leaves of a handle that is there, if it does not remove it. -/
def HandleRequest.leaves : HandleRequest → Handle → Option Handle
  | .add .., h => some h
  | .remove name, h => if h.name = name then none else some h
  | .subscribe name rules, h =>
    some (if h.name = name then { h with rules := h.rules ++ newcomers h.rules rules } else h)
  | .unsubscribe name rules, h =>
    some (if h.name = name then { h with rules := h.rules.filter (· ∉ rules) } else h)
  | .setFile name file, h => some (if h.name = name then { h with file } else h)
  | .forgetRule id, h => some { h with rules := h.rules.filter (· ≠ id) }
  | .forgetAllRules, h => some { h with rules := [] }

/-- A handle that stays is known by the same id and name. -/
theorem HandleRequest.knownBy_of_leaves {request : HandleRequest} {h h' : Handle}
    (hleaves : request.leaves h = some h') : h'.knownBy = h.knownBy := by
  cases request <;> simp only [leaves] at hleaves <;> grind [Handle.knownBy]

/-- What is subscribed comes behind the rules that are listed already. -/
theorem subscribeTo_eq (subscribed rules : List RuleId) :
    subscribeTo subscribed rules = subscribed ++ newcomers subscribed rules := by
  induction rules generalizing subscribed with
  | nil => simp [subscribeTo, newcomers]
  | cons rule rules ih =>
      rw [subscribeTo]
      by_cases hold : rule ∈ subscribed
      · rw [if_pos (by simpa using hold), ih, newcomers_of_mem hold]
      · rw [if_neg (by simpa using hold), ih, newcomers_of_not_mem hold, List.append_assoc,
          List.singleton_append]

namespace Handles

/-- What a request makes of the registry, and whether it is granted. -/
def serve (hs : Handles) : HandleRequest → Handles × Bool
  | .add name file rules => ((hs.add name file rules).1, (hs.add name file rules).2.isSome)
  | .remove name => ((hs.remove name).1, (hs.remove name).2.isSome)
  | .subscribe name rules => hs.subscribe name rules
  | .unsubscribe name rules => hs.unsubscribe name rules
  | .setFile name file => hs.setFile name file
  | .forgetRule id => (hs.forgetRule id, true)
  | .forgetAllRules => (hs.forgetAllRules, true)

/-- The registry after a request, whether or not it is granted. -/
def apply (hs : Handles) (request : HandleRequest) : Handles :=
  (hs.serve request).1

/-- The registry after requests, one after the other. -/
def run (hs : Handles) (requests : List HandleRequest) : Handles :=
  requests.foldl apply hs

/-- Whether a request is refused: a name is not given to two handles, and a request about one
handle has to name a handle that is there. -/
def refuses (hs : Handles) : HandleRequest → Prop
  | .add name .. => name ∈ hs.list.map Handle.name
  | .remove name => name ∉ hs.list.map Handle.name
  | .subscribe name _ => name ∉ hs.list.map Handle.name
  | .unsubscribe name _ => name ∉ hs.list.map Handle.name
  | .setFile name _ => name ∉ hs.list.map Handle.name
  | .forgetRule _ => False
  | .forgetAllRules => False

/-- The handle that a request creates: one with the next id, if the name is not taken. -/
def created (hs : Handles) : HandleRequest → List Handle
  | .add name file rules =>
    if name ∈ hs.list.map Handle.name then []
    else [⟨hs.nextId, name, file, newcomers [] rules⟩]
  | _ => []

/-- All handles that are created in the course of the requests, as they were then. -/
def history (hs : Handles) : List HandleRequest → List Handle
  | [] => []
  | request :: rest => hs.created request ++ (hs.apply request).history rest

variable {hs hs' : Handles} {name : String}

theorem change_eq_false_iff {change : Handle → Handle} :
    (hs.change name change).2 = false ↔ name ∉ hs.list.map Handle.name := by
  rw [← isSome_byName?_iff, Handles.change]
  split <;> simp_all

theorem serve_eq_false_iff (hs : Handles) (request : HandleRequest) :
    (hs.serve request).2 = false ↔ hs.refuses request := by
  cases request with
  | add name file rules =>
      rw [serve, refuses, ← isSome_byName?_iff, Handles.add]
      split <;> simp_all
  | remove name =>
      rw [serve, refuses, ← isSome_byName?_iff, Handles.remove]
      split <;> simp_all
  | subscribe => exact change_eq_false_iff
  | unsubscribe => exact change_eq_false_iff
  | setFile => exact change_eq_false_iff
  | forgetRule => exact iff_of_false nofun id
  | forgetAllRules => exact iff_of_false nofun id

/-- A request that is refused leaves the whole registry as it was. -/
theorem state_of_refused {request : HandleRequest} (h : hs.serve request = (hs', false)) :
    hs' = hs := by
  cases request with
  | add name file rules =>
      obtain ⟨rfl, hnone⟩ := Prod.mk.inj h
      exact state_of_add_refused (Prod.ext rfl (by simpa using hnone))
  | remove name =>
      obtain ⟨rfl, hnone⟩ := Prod.mk.inj h
      exact state_of_remove_refused (Prod.ext rfl (by simpa using hnone))
  | subscribe => exact state_of_change_refused h
  | unsubscribe => exact state_of_change_refused h
  | setFile => exact state_of_change_refused h
  | forgetRule => cases (Prod.mk.inj h).2
  | forgetAllRules => cases (Prod.mk.inj h).2

theorem step_of_granted {request : HandleRequest} (h : hs.serve request = (hs', true)) :
    Step hs hs' := by
  cases request with
  | add name file rules =>
      obtain ⟨rfl, hsome⟩ := Prod.mk.inj h
      obtain ⟨handle, hadded⟩ := Option.isSome_iff_exists.mp hsome
      exact .added (Prod.ext rfl hadded)
  | remove name =>
      obtain ⟨rfl, hsome⟩ := Prod.mk.inj h
      obtain ⟨handle, hremoved⟩ := Option.isSome_iff_exists.mp hsome
      exact .removed (Prod.ext rfl hremoved)
  | subscribe => exact .subscribed h
  | unsubscribe => exact .unsubscribed h
  | setFile => exact .fileSet h
  | forgetRule id => exact (Prod.mk.inj h).1 ▸ .ruleForgotten hs id
  | forgetAllRules => exact (Prod.mk.inj h).1 ▸ .allForgotten hs

theorem Reached.apply (h : hs.Reached) (request : HandleRequest) : (hs.apply request).Reached := by
  rw [Handles.apply]
  rcases hserved : hs.serve request with ⟨hs', _ | _⟩
  · rw [state_of_refused hserved]
    exact h
  · exact h.step (step_of_granted hserved)

theorem Reached.run (h : hs.Reached) (requests : List HandleRequest) :
    (hs.run requests).Reached := by
  induction requests generalizing hs with
  | nil => exact h
  | cons request rest ih => exact ih (h.apply request)

theorem changeFirst_of_not_mem {list : List Handle} {change : Handle → Handle}
    (h : name ∉ list.map Handle.name) : changeFirst name change list = list := by
  induction list with
  | nil => rfl
  | cons first rest ih =>
      obtain ⟨hfirst, hrest⟩ := List.ne_and_not_mem_of_not_mem_cons h
      rw [changeFirst, if_neg (by simpa using Ne.symm hfirst), ih hrest]

/-- Of distinct names the first one is the only one. -/
theorem changeFirst_eq_map {list : List Handle} (h : (list.map Handle.name).Nodup)
    (change : Handle → Handle) :
    changeFirst name change list = list.map fun g => if g.name = name then change g else g := by
  induction list with
  | nil => rfl
  | cons first rest ih =>
      obtain ⟨hfirst, hrest⟩ := List.nodup_cons.mp h
      rw [changeFirst, List.map_cons, ← ih hrest]
      by_cases hname : first.name = name
      · rw [if_pos (beq_iff_eq.mpr hname), if_pos hname, changeFirst_of_not_mem (hname ▸ hfirst)]
      · rw [if_neg (by simpa using hname), if_neg hname]

theorem Sound.change_fst (h : hs.Sound) {change : Handle → Handle}
    {leaves : Handle → Option Handle}
    (hleaves : ∀ g, leaves g = some (if g.name = name then change g else g)) :
    (hs.change name change).1 = { hs with list := hs.list.filterMap leaves } := by
  rw [List.filterMap_eq_map_iff_forall_eq_some.mpr fun g _ => hleaves g,
    ← changeFirst_eq_map h.names, Handles.change]
  split
  · rfl
  · next hnone =>
      have hfree : name ∉ hs.list.map Handle.name := by simp [← isSome_byName?_iff, hnone]
      rw [changeFirst_of_not_mem hfree]

theorem Sound.remove_fst (h : hs.Sound) (name : String) :
    (hs.remove name).1 =
      { hs with list := hs.list.filterMap fun g => if g.name = name then none else some g } := by
  have hkept : hs.list.eraseP (·.name == name) =
      hs.list.filterMap fun g => if g.name = name then none else some g := by
    rw [eraseP_eq_filter_not (pairwise_beq_of_nodup_map h.names name), ← List.filterMap_eq_filter]
    refine List.filterMap_congr fun g _ => ?_
    by_cases hname : g.name = name <;> simp [Option.guard, hname]
  rw [← hkept, Handles.remove]
  cases hfound : hs.byName? name with
  | none =>
      have hnone : ∀ g ∈ hs.list, ¬(g.name == name) = true := List.find?_eq_none.mp hfound
      rw [List.eraseP_of_forall_not hnone]
  | some g => rfl

theorem apply_eq_of_created_nil {request : HandleRequest} (hnone : hs.created request = [])
    (h : hs.apply request = { hs with list := hs.list.filterMap request.leaves }) :
    hs.apply request = ⟨hs.list.filterMap request.leaves ++ hs.created request,
      hs.nextId + (hs.created request).length⟩ := by
  rw [h, hnone, List.append_nil]
  rfl

/-- A request does to each handle what it does to that handle, and what it creates comes last. -/
theorem Sound.apply_eq (h : hs.Sound) (request : HandleRequest) :
    hs.apply request = ⟨hs.list.filterMap request.leaves ++ hs.created request,
      hs.nextId + (hs.created request).length⟩ := by
  cases request with
  | add name file rules =>
      have hkept : hs.list.filterMap (HandleRequest.add name file rules).leaves = hs.list :=
        List.filterMap_some
      rw [hkept, Handles.apply, serve, Handles.add, created]
      by_cases htaken : name ∈ hs.list.map Handle.name
      · rw [if_pos htaken, if_pos (isSome_byName?_iff.mpr htaken), List.append_nil]
        rfl
      · rw [if_neg htaken, if_neg (isSome_byName?_iff.not.mpr htaken), subscribeTo_eq]
        rfl
  | remove name => exact apply_eq_of_created_nil rfl (h.remove_fst name)
  | subscribe name rules =>
      exact apply_eq_of_created_nil rfl (h.change_fst fun g => by
        rw [HandleRequest.leaves, subscribeTo_eq])
  | unsubscribe name rules =>
      exact apply_eq_of_created_nil rfl (h.change_fst fun g => by
        simp only [HandleRequest.leaves, List.contains_eq_mem, decide_not])
  | setFile name file => exact apply_eq_of_created_nil rfl (h.change_fst fun g => rfl)
  | forgetRule id =>
      have hleaves : ∀ g ∈ hs.list, (HandleRequest.forgetRule id).leaves g =
          some { g with rules := g.rules.filter (· != id) } := fun g _ => by
        simp only [HandleRequest.leaves, decide_not]
        rfl
      refine apply_eq_of_created_nil rfl ?_
      rw [List.filterMap_eq_map_iff_forall_eq_some.mpr hleaves]
      rfl
  | forgetAllRules =>
      have hleaves : ∀ g ∈ hs.list, HandleRequest.forgetAllRules.leaves g =
          some { g with rules := [] } := fun _ _ => rfl
      refine apply_eq_of_created_nil rfl ?_
      rw [List.filterMap_eq_map_iff_forall_eq_some.mpr hleaves]
      rfl

/-- From one registry to the other these handles have been created, with the ids from the next
one on. The later registry lists some of them behind some of the earlier ones. -/
structure Creates (hs hs' : Handles) (given : List Handle) : Prop where
  nextId : hs'.nextId = hs.nextId + given.length
  ids : given.map Handle.id = List.range' hs.nextId given.length
  listed : (hs'.list.map Handle.knownBy).Sublist ((hs.list ++ given).map Handle.knownBy)

theorem Creates.append {hs'' : Handles} {given later : List Handle} (h : hs.Creates hs' given)
    (hlater : hs'.Creates hs'' later) : hs.Creates hs'' (given ++ later) where
  nextId := by rw [hlater.nextId, h.nextId, List.length_append, Nat.add_assoc]
  ids := by
    rw [List.map_append, h.ids, hlater.ids, h.nextId, List.length_append, List.range'_append_1]
  listed := by
    have hlisted := h.listed.append_right (later.map Handle.knownBy)
    rw [← List.map_append, ← List.map_append, List.append_assoc] at hlisted
    exact hlater.listed.trans hlisted

theorem map_id_created (hs : Handles) (request : HandleRequest) :
    (hs.created request).map Handle.id = List.range' hs.nextId (hs.created request).length := by
  unfold created
  split
  · split <;> rfl
  · rfl

theorem map_knownBy_sublist (request : HandleRequest) (list : List Handle) :
    ((list.filterMap request.leaves).map Handle.knownBy).Sublist (list.map Handle.knownBy) := by
  induction list with
  | nil => exact .slnil
  | cons h rest ih =>
      rw [List.map_cons]
      cases hleaves : request.leaves h with
      | none =>
          rw [List.filterMap_cons_none hleaves]
          exact ih.cons _
      | some h' =>
          rw [List.filterMap_cons_some hleaves, List.map_cons, request.knownBy_of_leaves hleaves]
          exact ih.cons_cons _

theorem Sound.creates_apply (h : hs.Sound) (request : HandleRequest) :
    hs.Creates (hs.apply request) (hs.created request) := by
  rw [h.apply_eq]
  refine ⟨rfl, hs.map_id_created request, ?_⟩
  rw [List.map_append, List.map_append]
  exact (map_knownBy_sublist request hs.list).append_right _

theorem Reached.creates_run (h : hs.Reached) (requests : List HandleRequest) :
    hs.Creates (hs.run requests) (hs.history requests) := by
  induction requests generalizing hs with
  | nil => exact ⟨rfl, rfl, by rw [history, List.append_nil]; exact .refl _⟩
  | cons request rest ih => exact (h.sound.creates_apply request).append (ih (h.apply request))

/-- Whatever is asked of a registry that began empty, its handles have distinct names and
increasing ids, and none of them lists a rule twice. One id after the other has been given, each
to one handle, and every handle that is there has the id and the name that it was created with.
A request that asks for a name that is taken, or for a handle that is not there, is refused and
changes nothing. Any other one does to each handle what it does to that handle by itself, and puts
a new handle behind all others. -/
theorem requests_keep_handles_apart (requests : List HandleRequest) (request : HandleRequest) :
    let hs := ({} : Handles).run requests
    let given := ({} : Handles).history requests
    (hs.list.map Handle.name).Nodup ∧ (hs.list.map Handle.id).Pairwise (· < ·) ∧
    (∀ h ∈ hs.list, h.rules.Nodup) ∧
    given.map Handle.id = List.range hs.nextId ∧
    (hs.list.map Handle.knownBy).Sublist (given.map Handle.knownBy) ∧
    ((hs.serve request).2 = false ↔ hs.refuses request) ∧
    ((hs.serve request).2 = false → hs.apply request = hs) ∧
    hs.apply request = ⟨hs.list.filterMap request.leaves ++ hs.created request,
      hs.nextId + (hs.created request).length⟩ := by
  intro hs given
  have hreached : hs.Reached := Reached.empty.run requests
  have hsound : hs.Sound := hreached.sound
  have hcreates : ({} : Handles).Creates hs given := Reached.empty.creates_run requests
  have hids : given.map Handle.id = List.range hs.nextId := by
    rw [hcreates.ids, hcreates.nextId, List.range_eq_range', Nat.zero_add]
  exact ⟨hsound.names, hsound.increasing, hsound.rules, hids, hcreates.listed,
    hs.serve_eq_false_iff request, fun hrefused => state_of_refused (Prod.ext rfl hrefused),
    hsound.apply_eq request⟩

/-- A name that is free again, a name that is taken, and a handle that is not there any more. -/
theorem requests_keep_handles_apart_name_free_again :
    let requests : List HandleRequest :=
      [.add "a" "a.jsonl" ["1", "1", "2"], .add "b" "b.jsonl" ["2", "3"], .add "b" "c.jsonl" [],
        .remove "a", .setFile "a" "d.jsonl", .add "a" "c.jsonl" ["4", "4"],
        .subscribe "b" ["3", "5", "1", "5"], .forgetRule "3"]
    let hs := ({} : Handles).run requests
    let b : Handle := ⟨1, "b", "b.jsonl", ["2", "5", "1"]⟩
    hs = ⟨[b, ⟨2, "a", "c.jsonl", ["4"]⟩], 3⟩ ∧ b.rules.Nodup ∧
    (({} : Handles).history requests).map Handle.knownBy = [(0, "a"), (1, "b"), (2, "a")] ∧
    hs.apply (.unsubscribe "c" ["5"]) = hs := by
  intro requests hs b
  have hrun : hs = ⟨[b, ⟨2, "a", "c.jsonl", ["4"]⟩], 3⟩ := by decide +kernel
  obtain ⟨-, -, hrules, -, -, hrefused, hunchanged, -⟩ :=
    requests_keep_handles_apart requests (.unsubscribe "c" ["5"])
  have hb : b ∈ hs.list := hrun ▸ List.mem_cons_self
  have hmissing : "c" ∉ hs.list.map Handle.name := by decide +kernel
  exact ⟨hrun, hrules b hb, by decide +kernel, hunchanged (hrefused.mpr hmissing)⟩

end Handles
end RuleDesk
