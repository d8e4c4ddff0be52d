import RuleDesk.Proofs.Console.Subscriptions
import RuleDesk.Proofs.Rule.Names

/-!
# Adding a rule

A rulebook that has a rule of some id already changes that rule instead of taking another
one. That every rule which is added comes in as a new one is therefore a matter of whole runs:
the counter of the store stands above all numbers that are ids in the store or in the rulebook,
whatever has been deleted or taken over in between. So neither of them has the next id.
-/
namespace RuleDesk.Session

variable {s t : Session MemoryStore}

/-- The counter stands above every number that is an id in the store or in the rulebook. -/
structure Ahead (s : Session MemoryStore) : Prop where
  store : s.store.Numbered
  book : ∀ id, s.rules.registers id = true → ∀ n, Numeral.word? id = some n →
    n < s.store.nextId.toNat

theorem ahead_new (config : Config) {listing : List ListedRule} {store : MemoryStore}
    (hstore : MemoryStore.ofListing listing = .ok store) (cap : Option Nat) (workDir : String) :
    (Session.new config { store with cap } workDir).Ahead := by
  have hnumbered : store.Numbered := MemoryStore.numbered_ofListing hstore
  exact ⟨hnumbered, fun _ hid => nomatch hid⟩

/-- The next id is not in the book. -/
theorem Ahead.unregistered (hs : s.Ahead) :
    s.rules.byId? (toString s.store.nextId.toNat) = none := by
  rw [← Option.not_isSome_iff_eq_none]
  intro hknown
  have hlt := hs.book _ hknown _ (Numeral.word?_toString s.store.nextId.toNat_lt)
  exact Nat.lt_irrefl _ hlt

theorem Ahead.addRule (hs : s.Ahead) {name? tag? : Option String} {text : String} {rule : Rule}
    (h : (addRule name? text tag?).run s = .ok rule t) : t.Ahead := by
  have hnext : t.store.nextId.toNat = s.store.nextId.toNat + 1 := (addRule_counts h).2
  obtain ⟨id, expression, tag, store, hadd, rfl⟩ := addRule_eq_ok h
  refine ⟨hs.store.add hadd, fun other hother n hn => ?_⟩
  rw [hnext]
  rcases (Rulebook.registers_insert_iff ..).mp hother with rfl | hold
  · rw [(MemoryStore.add_eq_ok hadd).1, Numeral.word?_toString s.store.nextId.toNat_lt] at hn
    obtain rfl := Option.some.inj hn
    exact Nat.lt_succ_self _
  · exact Nat.lt_succ_of_lt (hs.book other hold n hn)

/-- Rules that go leave the counter where it is. -/
theorem Ahead.fewer (hs : s.Ahead) (hnext : t.store.nextId = s.store.nextId)
    (hstore : t.store.rules ⊆ s.store.rules) (hbook : t.rules.rules ⊆ s.rules.rules) :
    t.Ahead where
  store := by
    intro entry hentry n hn
    rw [hnext]
    exact hs.store entry (hstore hentry) n hn
  book := by
    intro id hid n hn
    rw [hnext]
    exact hs.book id (Rulebook.registers_of_subset hbook hid) n hn

theorem Ahead.deleteRule (hs : s.Ahead) {name : String} {rule : Rule}
    (h : (deleteRule name).run s = .ok rule t) : t.Ahead := by
  have hnext := deleteRule_nextId h
  obtain ⟨rules, hremoved, hcases⟩ := deleteRule_eq_ok h
  obtain ⟨_, -, heq⟩ := Option.map_eq_some_iff.mp hremoved
  cases heq
  obtain ⟨-, rfl⟩ | ⟨id, store, -, hstore, rfl⟩ := hcases
  · exact hs.fewer hnext (List.Subset.refl _) List.eraseP_subset
  · rw [unstoreRule_eq] at hstore
    cases hstore
    exact hs.fewer hnext List.eraseP_subset List.eraseP_subset

theorem Ahead.sync (hs : s.Ahead) {report : SyncReport} (h : sync.run s = .ok report t) :
    t.Ahead := by
  cases h
  refine ⟨hs.store, fun id hid n hn => ?_⟩
  rcases (Rulebook.registers_mergeEntries_iff ..).mp hid with hlisted | hold
  · obtain ⟨entry, hentry, rfl⟩ := List.mem_map.mp hlisted
    exact hs.store entry hentry n hn
  · exact hs.book id hold n hn

theorem Change.ahead (h : s.Change t) (hs : s.Ahead) : t.Ahead := by
  cases h with
  | failed hfailed =>
      cases hfailed with
      | refused hcall =>
          rw [hcall.eq_self]
          exact hs
      | _ => exact ⟨hs.store, hs.book⟩
  | added hadd => exact hs.addRule hadd
  | deleted hdelete => exact hs.deleteRule hdelete
  | cleared hclear =>
      cases hclear
      exact hs.fewer rfl (List.nil_subset _) (List.nil_subset _)
  | synced hsync => exact hs.sync hsync
  | _ => exact ⟨hs.store, hs.book⟩

theorem run_eq_ok_of_shown {α : Type} {x : Operation MemoryStore α} {a : α}
    (h : x.run' s = some a) : ∃ t, x.run s = .ok a t := by
  unfold EStateM.run' at h
  split at h
  · next found t hfound =>
      obtain rfl := Option.some.inj h
      exact ⟨t, hfound⟩
  · cases h

/-- Whatever lines a session has seen, a rule that is added is a new one. The rulebook has it
last, under the compiled text, the tag given or the configured one, the id that the store gives
next, and the name asked for or a generated one, with the fewest suffixes that make it free.
The store has its entry last. All other rules and the handles stay as they are. There is a store
to begin with if the listing leaves a number free. -/
theorem addRule_appends (config : Config) (listing : List ListedRule) (cap : Option Nat)
    (workDir : String) (out : Output)
    (hlisted : (MemoryStore.greatestNumber? listing).getD 0 < UInt64.size - 1) :
    ∃ store, MemoryStore.ofListing listing = .ok store ∧
    ∀ {start : Session MemoryStore} {lines : List String} {adds : Nat} {s t : Session MemoryStore}
      {name? tag? : Option String} {text : String} {rule : Rule},
      start = .new config { store with cap } workDir ∨
        start = ((Session.new config { store with cap } workDir).startupSync out).1 →
      Leads start lines adds s → (addRule name? text tag?).run s = .ok rule t →
      ∃ expression id requested k, compile text = .ok expression ∧
        id = toString s.store.nextId.toNat ∧
        RuleStore.add s.store expression (tag?.getD s.config.defaultTag) =
          .ok (.ok id t.store) ∧
        id ∉ s.store.rules.map ListedRule.id ∧ s.rules.registers id = false ∧
        requested = (name?.filter (!·.isEmpty)).getD (s.rules.stem ++ toString s.rules.counter) ∧
        suffixed requested k ∉ s.rules.names ∧ (∀ j < k, suffixed requested j ∈ s.rules.names) ∧
        rule = ⟨some id, suffixed requested k, expression, tag?.getD s.config.defaultTag⟩ ∧
        t.rules.rules = s.rules.rules ++ [rule] ∧
        t.store.rules = s.store.rules ++ [⟨id, expression, tag?.getD s.config.defaultTag⟩] ∧
        t.handles = s.handles ∧ t.config = s.config ∧ t.running = s.running := by
  obtain ⟨store, hstore⟩ := MemoryStore.exists_ofListing listing (by omega)
  refine ⟨store, hstore, fun {start lines adds s t name? tag? text rule} hstart hrun h => ?_⟩
  have hnew := ahead_new config hstore cap workDir
  have hstarted : start.Ahead := by
    rcases hstart with rfl | rfl
    · exact hnew
    · rw [startupSync_state rfl]
      exact hnew.sync rfl
  have hahead : s.Ahead := hrun.kept Change.ahead hstarted
  obtain ⟨-, expression, id, store, hcompile, hadd, hrule, rfl⟩ := addRule_eq_ok_iff.mp h
  obtain ⟨hid, -, hentries⟩ := MemoryStore.add_eq_ok hadd
  have hunknown : s.rules.byId? id = none := hid ▸ hahead.unregistered
  obtain ⟨requested, k, hrequested, hfree, hearlier, hinserted, hlast⟩ :=
    Rulebook.exists_inserted hunknown name? expression (tag?.getD s.config.defaultTag)
  refine ⟨expression, id, requested, k, hcompile, hid, hadd, ?_, ?_, hrequested, hfree, hearlier,
    hrule.trans hinserted, ?_, ?_, rfl, rfl, rfl⟩
  · rw [hid]
    exact hahead.store.fresh
  · rw [Rulebook.registers, hunknown]
    rfl
  · rw [hrule]
    exact hlast
  · rw [hentries]

/-- The seed has an id twice and a number in another form. A pulled rule is deleted, its id is
pulled again, and then a rule is asked for under a name that has been given out twice. -/
theorem addRule_appends_behind_pulled_again :
    let listing : List ListedRule :=
      [⟨"5", "cat", "pets"⟩, ⟨"5", "dog", "pets"⟩, ⟨"007", "owl", "birds"⟩]
    ∃ store, MemoryStore.ofListing listing = .ok store ∧
    let s := (refusedRun (Session.new {} { store with cap := some 9 } "") ["rules sync",
      "rules delete Rule0", "rules add Rule2 jay", "handle add out /a Rule1", "rules sync"]).2
    s.rules.rules.map Rule.id = [some "007", some "8", some "5"] ∧
      ∃ t, (addRule (some "Rule2") "(OR hen cock)" none).run s =
          .ok ⟨some "9", "Rule2(1)(1)", "hen OR cock", "..."⟩ t ∧
        t.rules.rules =
          s.rules.rules ++ [⟨some "9", "Rule2(1)(1)", "hen OR cock", "..."⟩] ∧
        t.store.rules = s.store.rules ++ [⟨"9", "hen OR cock", "..."⟩] ∧
        t.handles = s.handles := by
  intro listing
  obtain ⟨store, hstore, happends⟩ := addRule_appends {} listing (some 9) "" {} (by decide +kernel)
  have hvalue : MemoryStore.ofListing listing = .ok { rules := listing, nextId := 8 } := by rfl
  obtain rfl := Except.ok.inj (hstore.symm.trans hvalue)
  refine ⟨_, hvalue, ?_⟩
  intro s
  have hshown : (addRule (some "Rule2") "(OR hen cock)" none).run' s =
      some ⟨some "9", "Rule2(1)(1)", "hen OR cock", "..."⟩ := by decide +kernel
  obtain ⟨lines, adds, hrun⟩ : ∃ lines adds,
      Leads (Session.new {} { rules := listing, nextId := 8, cap := some 9 } "") lines adds s :=
    ⟨_, _, leads_refusedRun _ _⟩
  refine ⟨by decide +kernel, ?_⟩
  -- from here on only the run that leads to the session matters
  clear_value s
  obtain ⟨t, hadd⟩ := run_eq_ok_of_shown hshown
  obtain ⟨expression, id, requested, k, -, -, -, -, -, -, -, -, hrule, hrules, hentries,
    hhandles, -⟩ := happends (.inl rfl) hrun hadd
  obtain ⟨hid, -, hexpression, htag⟩ := Rule.mk.inj hrule
  refine ⟨t, hadd, hrules, ?_, hhandles⟩
  rw [hentries, ← Option.some.inj hid, ← hexpression, ← htag]

end RuleDesk.Session
