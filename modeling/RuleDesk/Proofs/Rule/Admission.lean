import RuleDesk.Proofs.Rule.Issued

/-!
# What a store takes in

A store takes a text in unless it is blank, held already or beyond the cap. So no run of calls
brings more rules than the cap or a text for the second time, beyond what the store began with.
A call that is refused might as well not have been made: without these calls a run gives out the
same ids and ends in the same store.
-/
namespace RuleDesk.MemoryStore

variable {s t : MemoryStore} {text tag : String} {id : RuleId}

/-- Why a text is refused. A reason counts only where those before it do not hold. -/
inductive Refuses (s : MemoryStore) (text : String) : StoreError → Prop where
  | blank : Text.isBlankText text = true → Refuses s text (.invalidRule "empty rule")
  | known : Text.isBlankText text = false → text ∈ s.rules.map ListedRule.text →
      Refuses s text (.duplicateRule text)
  | full {most : Nat} : Text.isBlankText text = false → text ∉ s.rules.map ListedRule.text →
      s.cap = some most → most ≤ s.rules.length → Refuses s text (.capExceeded most)

/-- The calls of a run that are not refused where they are made, up to one that breaks down. -/
def accepted (s : MemoryStore) : List StoreRequest → List StoreRequest
  | [] => []
  | request :: rest =>
    match s.call request with
    | .error _ => [request]
    | .ok (.error _ t) => t.accepted rest
    | .ok (.ok _ t) => request :: t.accepted rest

theorem any_text_iff : s.rules.any (·.text == text) = true ↔
    text ∈ s.rules.map ListedRule.text := by
  simp [List.any_eq_true, List.mem_map]

theorem add_refused_iff {e : StoreError} :
    (∃ t, s.add text tag = .ok (.error e t)) ↔ s.Refuses text e := by
  constructor
  · rintro ⟨t, h⟩
    unfold add at h
    split at h
    · next hblank =>
        cases h
        exact .blank hblank
    · next hfilled =>
        rw [Bool.not_eq_true] at hfilled
        split at h
        · next hknown =>
            cases h
            exact .known hfilled (any_text_iff.mp hknown)
        · next hnew =>
            split at h
            · next most hfull =>
                cases h
                obtain ⟨hcap, hmost⟩ := Option.filter_eq_some_iff.mp hfull
                exact .full hfilled (mt any_text_iff.mpr hnew) hcap (by simpa using hmost)
            · cases hnext : following s.nextId <;> rw [hnext] at h <;> cases h
  · intro h
    refine ⟨s, ?_⟩
    unfold add
    cases h with
    | blank hblank => rw [if_pos hblank]
    | known hfilled hknown =>
        rw [if_neg (by simp [hfilled]), if_pos (any_text_iff.mpr hknown)]
    | full hfilled hnew hcap hmost =>
        rw [if_neg (by simp [hfilled]), if_neg (mt any_text_iff.mp hnew), hcap,
          Option.filter_some_pos (by simpa using hmost)]

theorem accepts_of_add (h : s.add text tag = .ok (.ok id t)) : s.Accepts text := by
  have hnever {e : StoreError} : ¬s.Refuses text e := fun hrefused => by
    obtain ⟨u, hu⟩ := add_refused_iff.mpr hrefused
    rw [hu] at h
    cases h
  have hfilled : Text.isBlankText text = false := by
    rw [← Bool.not_eq_true]
    exact fun hblank => hnever (.blank hblank)
  have hnew : text ∉ s.rules.map ListedRule.text := fun hknown => hnever (.known hfilled hknown)
  refine ⟨hfilled, fun rule hrule htext => hnew ?_, fun most hcap => ?_⟩
  · exact htext ▸ List.mem_map_of_mem hrule
  · exact Nat.lt_of_not_le fun hmost => hnever (.full hfilled hnew hcap hmost)

/-- The first rule with the id goes, and it alone. -/
theorem delete_eq_ok_iff : s.delete id = .ok () t ↔
    ∃ before rule after, s.rules = before ++ rule :: after ∧ rule.id = id ∧
      (∀ other ∈ before, other.id ≠ id) ∧ t = { s with rules := before ++ after } := by
  unfold delete
  constructor
  · intro h
    split at h
    · next hany =>
        obtain ⟨rule, hrule, hid⟩ := List.any_eq_true.mp hany
        obtain ⟨first, before, after, hbefore, hfirst, hsplit, herase⟩ :=
          @List.exists_of_eraseP _ (·.id == id) _ rule hrule hid
        cases h
        rw [herase]
        exact ⟨before, first, after, hsplit, by simpa using hfirst, by simpa using hbefore, rfl⟩
    · cases h
  · rintro ⟨before, rule, after, hsplit, hid, hbefore, rfl⟩
    have hnone : ∀ other ∈ before, ¬(other.id == id) = true := by simpa using hbefore
    rw [hsplit, if_pos (by simp [hid]), List.eraseP_append_right _ hnone,
      List.eraseP_cons_of_pos (by simpa using hid)]

theorem delete_refused_iff {e : StoreError} : (∃ t, s.delete id = .error e t) ↔
    id ∉ s.rules.map ListedRule.id ∧ e = .unknownRule id := by
  have hany : s.rules.any (·.id == id) = true ↔ id ∈ s.rules.map ListedRule.id := by
    simp [List.any_eq_true, List.mem_map]
  unfold delete
  rw [← hany]
  split
  · next hknown => simp [hknown]
  · next hunknown => simp [hunknown, eq_comm]

/-- A call that is not refused takes rules away or puts one behind them. -/
theorem call_eq_ok {request : StoreRequest} {id? : Option RuleId}
    (h : s.call request = .ok (.ok id? t)) :
    t.cap = s.cap ∧ (t.rules.Sublist s.rules ∨
      ∃ rule, s.Accepts rule.text ∧ t.rules = s.rules ++ [rule]) := by
  cases request with
  | add text tag =>
      simp only [call] at h
      split at h
      · cases h
      · cases h
      · next id _ hadd =>
          cases h
          obtain ⟨-, -, hadded⟩ := add_eq_ok hadd
          rw [hadded]
          exact ⟨rfl, .inr ⟨⟨id, text, tag⟩, accepts_of_add hadd, rfl⟩⟩
  | delete id =>
      simp only [call] at h
      split at h
      · cases h
      · next hdelete =>
          cases h
          obtain ⟨before, rule, after, hsplit, -, -, rfl⟩ := delete_eq_ok_iff.mp hdelete
          rw [hsplit]
          exact ⟨rfl, .inl ((List.sublist_cons_self rule after).append_left before)⟩
  | deleteAll =>
      cases h
      exact ⟨rfl, .inl (List.nil_sublist _)⟩

/-- No more than the cap, no text twice and no blank text, beyond what was listed at first. -/
structure Admitted (listing : List ListedRule) (cap : Option Nat) (s : MemoryStore) : Prop where
  cap_eq : s.cap = cap
  length_le : ∀ most, cap = some most → s.rules.length ≤ max most listing.length
  count_le : ∀ text, (s.rules.map ListedRule.text).count text ≤
    max 1 ((listing.map ListedRule.text).count text)
  blanks : (s.rules.filter (Text.isBlankText ·.text)).Sublist
    (listing.filter (Text.isBlankText ·.text))

variable {listing : List ListedRule} {cap : Option Nat}

theorem admitted_ofListing {store : MemoryStore} (h : ofListing listing = .ok store)
    (cap : Option Nat) : Admitted listing cap { store with cap } := by
  have hrules : store.rules = listing := by rw [(ofListing_eq_ok_iff.mp h).2]
  refine ⟨rfl, fun most _ => ?_, fun text => ?_, ?_⟩
  · rw [hrules]
    exact Nat.le_max_right most _
  · rw [hrules]
    exact Nat.le_max_right 1 _
  · rw [hrules]

/-- Fewer rules stay within the same bounds. -/
theorem Admitted.sublist (hs : s.Admitted listing cap) (hcap : t.cap = s.cap)
    (h : t.rules.Sublist s.rules) : t.Admitted listing cap where
  cap_eq := hcap.trans hs.cap_eq
  length_le most hmost := h.length_le.trans (hs.length_le most hmost)
  count_le text := ((h.map _).count_le text).trans (hs.count_le text)
  blanks := (h.filter _).trans hs.blanks

/-- A text that the store accepts has room, is new and is not blank. -/
theorem Admitted.append (hs : s.Admitted listing cap) (hcap : t.cap = s.cap) {rule : ListedRule}
    (haccepts : s.Accepts rule.text) (h : t.rules = s.rules ++ [rule]) :
    t.Admitted listing cap where
  cap_eq := hcap.trans hs.cap_eq
  length_le most hmost := by
    have hroom := haccepts.hasRoom most (hs.cap_eq.trans hmost)
    rw [h, List.length_append, List.length_singleton]
    exact Nat.le_trans hroom (Nat.le_max_left most _)
  count_le text := by
    have hnew : rule.text ∉ s.rules.map ListedRule.text := fun hknown => by
      obtain ⟨other, hother, hsame⟩ := List.mem_map.mp hknown
      exact haccepts.isNew other hother hsame
    rw [h, List.map_append, List.map_singleton, List.count_append]
    by_cases htext : rule.text = text
    · subst htext
      rw [List.count_eq_zero_of_not_mem hnew, List.count_singleton_self]
      exact Nat.le_max_left 1 _
    · rw [List.count_singleton, if_neg (by simpa using htext), Nat.add_zero]
      exact hs.count_le text
  blanks := by
    rw [h, List.filter_append, List.filter_singleton, haccepts.notBlank]
    simpa using hs.blanks

theorem Admitted.call (hs : s.Admitted listing cap) {request : StoreRequest}
    {id? : Option RuleId} (h : s.call request = .ok (.ok id? t)) : t.Admitted listing cap := by
  obtain ⟨hcap, hfewer | ⟨rule, haccepts, hadded⟩⟩ := call_eq_ok h
  · exact hs.sublist hcap hfewer
  · exact hs.append hcap haccepts hadded

theorem Admitted.serve (hs : s.Admitted listing cap) {calls : List StoreRequest}
    {issued : List RuleId} (h : s.serve calls = .ok (issued, t)) : t.Admitted listing cap := by
  induction calls generalizing s issued with
  | nil =>
      cases h
      exact hs
  | cons request rest ih =>
      unfold MemoryStore.serve at h
      split at h
      · cases h
      · next hrefused =>
          obtain rfl := state_of_call_refused hrefused
          exact ih hs h
      · next hcall =>
          obtain ⟨⟨later, v⟩, hlater, hsame⟩ := map_eq_ok_iff.mp h
          cases hsame
          exact ih (hs.call hcall) hlater

theorem accepted_sublist (s : MemoryStore) (calls : List StoreRequest) :
    (s.accepted calls).Sublist calls := by
  induction calls generalizing s with
  | nil => exact .slnil
  | cons request rest ih =>
      unfold accepted
      split
      · exact (List.nil_sublist rest).cons_cons request
      · exact (ih _).cons request
      · exact (ih _).cons_cons request

/-- None of the accepted calls is refused when they are made alone. -/
theorem accepted_accepted (s : MemoryStore) (calls : List StoreRequest) :
    s.accepted (s.accepted calls) = s.accepted calls := by
  induction calls generalizing s with
  | nil => rfl
  | cons request rest ih =>
      cases hcall : s.call request with
      | error fault => simp only [accepted, hcall]
      | ok result =>
          cases result with
          | error e t =>
              obtain rfl := state_of_call_refused hcall
              simp only [accepted, hcall]
              exact ih t
          | ok id? t =>
              simp only [accepted, hcall]
              rw [ih]

theorem serve_accepted (s : MemoryStore) (calls : List StoreRequest) :
    s.serve (s.accepted calls) = s.serve calls := by
  induction calls generalizing s with
  | nil => rfl
  | cons request rest ih =>
      cases hcall : s.call request with
      | error fault => simp only [accepted, serve, hcall]
      | ok result =>
          cases result with
          | error e t =>
              obtain rfl := state_of_call_refused hcall
              simp only [accepted, serve, hcall]
              exact ih t
          | ok id? t =>
              simp only [accepted, serve, hcall]
              rw [ih]

/-- A store that began with a listing, and any calls on it. With numbers for all adds nothing
breaks down. The store has no more rules than the cap or the listing, no text twice that the
listing does not have twice, and no blank text that is not of the listing. A text is refused for
being blank, or else known, or else beyond the cap, and for no other reason; only the first rule
with an id is deleted, and only for want of one is that refused. A refused call leaves the whole
store as it was: with it or without it, whatever comes later gives out the same ids and leaves
the same store, and so does the whole run without all of them. -/
theorem rules_admitted (listing : List ListedRule) (cap : Option Nat)
    (calls : List StoreRequest) :
    ((greatestNumber? listing).getD 0 + StoreRequest.adds calls < UInt64.size - 1 →
      ∃ store, ofListing listing = .ok store ∧
        ∃ issued s, ({ store with cap } : MemoryStore).serve calls = .ok (issued, s)) ∧
    ∀ store, ofListing listing = .ok store →
      let start : MemoryStore := { store with cap }
      ∀ issued s, start.serve calls = .ok (issued, s) →
        s.cap = cap ∧
        (∀ most, cap = some most → s.rules.length ≤ max most listing.length) ∧
        (∀ text, (s.rules.map ListedRule.text).count text ≤
          max 1 ((listing.map ListedRule.text).count text)) ∧
        (s.rules.filter (Text.isBlankText ·.text)).Sublist
          (listing.filter (Text.isBlankText ·.text)) ∧
        (∀ text tag e, (∃ t, s.add text tag = .ok (.error e t)) ↔ s.Refuses text e) ∧
        (∀ id t, s.delete id = .ok () t ↔
          ∃ before rule after, s.rules = before ++ rule :: after ∧ rule.id = id ∧
            (∀ other ∈ before, other.id ≠ id) ∧ t = { s with rules := before ++ after }) ∧
        (∀ id e, (∃ t, s.delete id = .error e t) ↔
          id ∉ s.rules.map ListedRule.id ∧ e = .unknownRule id) ∧
        (∀ request e t, s.call request = .ok (.error e t) → t = s ∧ ∀ later,
          s.serve (request :: later) = s.serve later) ∧
        (start.accepted calls).Sublist calls ∧
        start.accepted (start.accepted calls) = start.accepted calls ∧
        start.serve (start.accepted calls) = .ok (issued, s) := by
  constructor
  · intro hroom
    obtain ⟨store, hstore⟩ := exists_ofListing listing (by omega)
    have hfirst := (ofListing_eq_ok_iff.mp hstore).1
    exact ⟨store, hstore, exists_serve (s := { store with cap }) (by rw [hfirst]; omega)⟩
  · intro store hstore start issued s hserve
    have hs : s.Admitted listing cap := (admitted_ofListing hstore cap).serve hserve
    refine ⟨hs.cap_eq, hs.length_le, hs.count_le, hs.blanks, fun _ _ _ => add_refused_iff,
      fun _ _ => delete_eq_ok_iff, fun _ _ => delete_refused_iff, fun request e t hrefused => ?_,
      start.accepted_sublist calls, start.accepted_accepted calls, ?_⟩
    · obtain rfl := state_of_call_refused hrefused
      exact ⟨rfl, fun later => by simp only [serve, hrefused]⟩
    · rw [start.serve_accepted calls, hserve]

end RuleDesk.MemoryStore
