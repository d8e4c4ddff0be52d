import RuleDesk.Proofs.Filter.Independence

/-!
# Expressions that share a text

Two faithful expressions with the same flattened text mean the same. The text of
any other expression without repeated words is also the text of a faithful one
that means something else: its factors, each as an expression of its own.
-/
namespace RuleDesk.Expression

/-- Denies the first of some expressions. -/
def denyFirst : List Expression → List Expression
  | [] => []
  | d :: ds => not [d] :: ds

/-- What a negation of one child denies. -/
def denied : Expression → Expression
  | not [d] => d
  | d => d

/-- One expression that is written as the given ones in a row. -/
def join : List Expression → Expression
  | [d] => d
  | ds => not (ds.map denied)

mutual

/-- The factors of a node at a level, each as an expression of its own. -/
def pieces (level : Nat) : Expression → List Expression
  | term t => [term t]
  | and children =>
    if level = 0 then piecesOfAll 1 children else [and (piecesOfAll (level + 1) children)]
  | or children =>
    if level = 0 then piecesOfAll 1 children else [or (joinedPieces (level + 1) children)]
  | not children => deniedPieces level children

def piecesOfAll (level : Nat) : List Expression → List Expression
  | [] => []
  | child :: rest => pieces level child ++ piecesOfAll level rest

def joinedPieces (level : Nat) : List Expression → List Expression
  | [] => []
  | child :: rest => join (pieces level child) :: joinedPieces level rest

def deniedPieces (level : Nat) : List Expression → List Expression
  | [] => []
  | child :: rest =>
    denyFirst (pieces (levelBelow level child) child) ++ deniedPieces level rest

end

/-- A faithful expression with the same flattened text. -/
def separated : Expression → Expression
  | or children => or (joinedPieces 1 children)
  | e => and (pieces 0 e)

theorem piecesOfAll_eq_flatMap (level : Nat) (cs : List Expression) :
    piecesOfAll level cs = cs.flatMap (pieces level) := by
  induction cs with
  | nil => rfl
  | cons c cs ih => simp [piecesOfAll, ih]

theorem joinedPieces_eq_map (level : Nat) (cs : List Expression) :
    joinedPieces level cs = cs.map fun c => join (pieces level c) := by
  induction cs with
  | nil => rfl
  | cons c cs ih => simp [joinedPieces, ih]

theorem deniedPieces_eq_flatMap (level : Nat) (cs : List Expression) :
    deniedPieces level cs = cs.flatMap fun c => denyFirst (pieces (levelBelow level c) c) := by
  induction cs with
  | nil => rfl
  | cons c cs ih => simp [deniedPieces, ih]

/-- Expressions that can stand in a row below a disjunction: one of them or negations
of one child each. -/
def Joinable (ds : List Expression) : Prop :=
  (∃ d, ds = [d]) ∨ ∀ d ∈ ds, ∃ x, d = not [x]

theorem forall_denyFirst {ds : List Expression} (hds : Joinable ds) :
    ∀ d ∈ denyFirst ds, ∃ x, d = not [x] := by
  cases ds with
  | nil => simp [denyFirst]
  | cons d ds =>
      intro x hx
      rcases List.mem_cons.mp hx with rfl | hx
      · exact ⟨d, rfl⟩
      · rcases hds with ⟨y, hy⟩ | hall
        · simp_all
        · exact hall x (by simp [hx])

theorem joinable_pieces {word : String → Prop} {e : Expression} (he : e.WellFormed word)
    (level : Nat) : Joinable (pieces (level + 1) e) := by
  induction he generalizing level with
  | term _ => exact .inl ⟨_, rfl⟩
  | and _ _ _ => exact .inl ⟨and _, rfl⟩
  | or _ _ _ => exact .inl ⟨or _, rfl⟩
  | @not cs _ _ ih =>
      refine .inr fun d hd => ?_
      rw [pieces, deniedPieces_eq_flatMap, List.mem_flatMap] at hd
      obtain ⟨c, hc, hd⟩ := hd
      rw [levelBelow_succ] at hd
      exact forall_denyFirst (ih c hc level) d hd

theorem factors_not_singleton (level : Nat) (d : Expression) :
    factors (level + 1) (not [d]) = negateFirst (factors (level + 1) d) := by
  simp [factors, negatedFactors]

theorem factors_denyFirst {word : String → Prop} (level : Nat) {ds : List Expression}
    (hds : ∀ d ∈ ds, d.WellFormed word) :
    (denyFirst ds).flatMap (factors (level + 1)) =
      negateFirst (ds.flatMap (factors (level + 1))) := by
  cases ds with
  | nil => rfl
  | cons d ds =>
      have hd := factors_ne_nil (level + 1) (hds d (by simp))
      rw [denyFirst, List.flatMap_cons, List.flatMap_cons, factors_not_singleton,
        negateFirst_append hd]

theorem factors_join (level : Nat) {ds : List Expression} (hds : Joinable ds) :
    factors (level + 1) (join ds) = ds.flatMap (factors (level + 1)) := by
  rcases hds with ⟨d, rfl⟩ | hall
  · simp [join]
  · have hrow : factors (level + 1) (not (ds.map denied)) = ds.flatMap (factors (level + 1)) := by
      simp only [factors, negatedFactors_eq_flatMap, List.flatMap_map, levelBelow_succ]
      refine List.flatMap_congr fun d hd => ?_
      obtain ⟨x, rfl⟩ := hall d hd
      rw [factors_not_singleton, denied]
    rcases ds with _ | ⟨d, _ | ⟨next, ds⟩⟩
    · exact hrow
    · simp [join]
    · exact hrow

theorem pieces_ne_nil {word : String → Prop} {e : Expression} (he : e.WellFormed word)
    (level : Nat) : pieces level e ≠ [] := by
  induction he generalizing level with
  | term _ => simp [pieces]
  | @and cs hne _ ih | @or cs hne _ ih =>
      obtain ⟨c, rest, rfl⟩ := List.exists_cons_of_ne_nil hne
      cases level <;> simp [pieces, piecesOfAll, ih c (by simp)]
  | @not cs hne _ ih =>
      obtain ⟨c, rest, rfl⟩ := List.exists_cons_of_ne_nil hne
      obtain ⟨d, ds, hd⟩ := List.exists_cons_of_ne_nil (ih c (by simp) (levelBelow level c))
      simp [pieces, deniedPieces, hd, denyFirst]

theorem wellFormed_denyFirst {word : String → Prop} {ds : List Expression}
    (hds : ∀ d ∈ ds, d.WellFormed word) : ∀ d ∈ denyFirst ds, d.WellFormed word := by
  cases ds with
  | nil => simp [denyFirst]
  | cons d ds => simpa [denyFirst] using hds

theorem wellFormed_join {word : String → Prop} {ds : List Expression} (hne : ds ≠ [])
    (hds : ∀ d ∈ ds, d.WellFormed word) : (join ds).WellFormed word := by
  have hdenied : ∀ d ∈ ds, (denied d).WellFormed word := by
    intro d hd
    have hwell := hds d hd
    unfold denied
    split
    · simpa using hwell
    · exact hwell
  rcases ds with _ | ⟨d, _ | ⟨next, ds⟩⟩
  · exact absurd rfl hne
  · exact hds d (by simp)
  · exact .not (by simp) (by simpa using hdenied)

theorem wellFormed_pieces {word : String → Prop} {e : Expression} (he : e.WellFormed word)
    (level : Nat) : ∀ d ∈ pieces level e, d.WellFormed word := by
  induction he generalizing level with
  | term ht => simpa [pieces] using ht
  | @and cs hne hcs ih =>
      have hall : ∀ level, ∀ d ∈ cs.flatMap (pieces level), d.WellFormed word := by
        intro level d hd
        obtain ⟨c, hc, hd⟩ := List.mem_flatMap.mp hd
        exact ih c hc level d hd
      rw [pieces, piecesOfAll_eq_flatMap, piecesOfAll_eq_flatMap]
      split
      · exact hall 1
      · obtain ⟨c, rest, rfl⟩ := List.exists_cons_of_ne_nil hne
        have hne' := pieces_ne_nil (hcs c (by simp)) (level + 1)
        simpa [hne'] using hall (level + 1)
  | @or cs hne hcs ih =>
      rw [pieces, piecesOfAll_eq_flatMap, joinedPieces_eq_map]
      split
      · intro d hd
        obtain ⟨c, hc, hd⟩ := List.mem_flatMap.mp hd
        exact ih c hc 1 d hd
      · have hjoined : ∀ c ∈ cs, (join (pieces (level + 1) c)).WellFormed word := fun c hc =>
          wellFormed_join (pieces_ne_nil (hcs c hc) _) (ih c hc _)
        simpa [hne] using hjoined
  | @not cs hne hcs ih =>
      intro d hd
      rw [pieces, deniedPieces_eq_flatMap, List.mem_flatMap] at hd
      obtain ⟨c, hc, hd⟩ := hd
      exact wellFormed_denyFirst (ih c hc _) d hd

/-- The pieces of a node, at any level below the top, are written as its factors. -/
theorem factors_pieces {word : String → Prop} {e : Expression} (he : e.WellFormed word)
    (level deeper : Nat) : (pieces level e).flatMap (factors (deeper + 1)) = factors level e := by
  induction he generalizing level deeper with
  | term _ => rfl
  | @and cs hne hcs ih =>
      have hall : ∀ level deeper, (cs.flatMap (pieces level)).flatMap (factors (deeper + 1)) =
          cs.flatMap (factors level) := fun level deeper => by
        rw [List.flatMap_assoc]
        exact List.flatMap_congr fun c hc => ih c hc level deeper
      simp only [pieces, factors, piecesOfAll_eq_flatMap, factorsOfAll_eq_flatMap]
      cases level with
      | zero => simpa using hall 1 deeper
      | succ level => simp [factors, factorsOfAll_eq_flatMap, hall]
  | @or cs hne hcs ih =>
      simp only [pieces, factors, piecesOfAll_eq_flatMap, factorsOfAll_eq_flatMap,
        joinedPieces_eq_map, arms_eq_map]
      cases level with
      | zero =>
          rw [if_pos rfl, if_pos rfl, List.flatMap_assoc]
          exact List.flatMap_congr fun c hc => ih c hc 1 deeper
      | succ level =>
          -- an arm has to stay one node, so its pieces are joined again
          have harms : ∀ c ∈ cs, factors (deeper + 2) (join (pieces (level + 2) c)) =
              factors (level + 2) c := fun c hc => by
            rw [factors_join _ (joinable_pieces (hcs c hc) (level + 1)), ih c hc]
          rw [if_neg (Nat.succ_ne_zero level), if_neg (Nat.succ_ne_zero level),
            List.flatMap_singleton, factors, if_neg (Nat.succ_ne_zero deeper), arms_eq_map,
            List.map_map]
          exact congrArg (fun q => [Factor.group q]) (List.map_congr_left harms)
  | @not cs hne hcs ih =>
      rw [pieces, factors, deniedPieces_eq_flatMap, negatedFactors_eq_flatMap, List.flatMap_assoc]
      refine List.flatMap_congr fun c hc => ?_
      rw [factors_denyFirst deeper (wellFormed_pieces (hcs c hc) _), ih c hc]

/-- Below the top, faithful behind a minus sign and behind none. -/
def EverFaithful (e : Expression) : Prop :=
  ∀ negated level, e.faithful negated (level + 1) = true

theorem everFaithful_not_singleton {d : Expression} (hd : d.EverFaithful) :
    (not [d]).EverFaithful := by
  intro negated level
  simp [faithful, negationsFaithful, hd (!negated) level]

theorem everFaithful_denyFirst {ds : List Expression} (hds : ∀ d ∈ ds, d.EverFaithful) :
    ∀ d ∈ denyFirst ds, d.EverFaithful := by
  cases ds with
  | nil => simp [denyFirst]
  | cons d ds =>
      intro x hx
      rcases List.mem_cons.mp hx with rfl | hx
      · exact everFaithful_not_singleton (hds d (by simp))
      · exact hds x (by simp [hx])

/-- In a row the pieces stand behind no minus sign of others. -/
theorem faithful_join {ds : List Expression} (hds : ∀ d ∈ ds, d.EverFaithful) (level : Nat) :
    (join ds).faithful false (level + 1) = true := by
  have hdenied : ∀ d ∈ ds, (denied d).faithful true (level + 1) = true := by
    intro d hd
    have hboth := hds d hd
    unfold denied
    split
    · simpa [faithful, negationsFaithful] using hboth false level
    · exact hboth true level
  have hrow : (not (ds.map denied)).faithful false (level + 1) = true := by
    rw [faithful, Bool.and_eq_true, negationsFaithful_iff]
    refine ⟨rfl, fun x hx => ?_⟩
    obtain ⟨d, hd, rfl⟩ := List.mem_map.mp hx
    rw [levelBelow_succ]
    exact hdenied d hd
  rcases ds with _ | ⟨d, _ | ⟨next, ds⟩⟩
  · exact hrow
  · exact hds d (by simp) false level
  · exact hrow

theorem everFaithful_pieces {word : String → Prop} {e : Expression} (he : e.WellFormed word)
    (level : Nat) : ∀ d ∈ pieces level e, d.EverFaithful := by
  induction he generalizing level with
  | term _ =>
      intro d hd negated deeper
      obtain rfl : d = term _ := by simpa [pieces] using hd
      rfl
  | @and cs _ _ ih =>
      have hall : ∀ level, ∀ d ∈ cs.flatMap (pieces level), d.EverFaithful := by
        intro level d hd
        obtain ⟨c, hc, hd⟩ := List.mem_flatMap.mp hd
        exact ih c hc level d hd
      rw [pieces, piecesOfAll_eq_flatMap, piecesOfAll_eq_flatMap]
      split
      · exact hall 1
      · intro d hd negated deeper
        obtain rfl := List.mem_singleton.mp hd
        rw [faithful, allFaithful_iff]
        intro x hx
        simpa using hall (level + 1) x hx false (deeper + 1)
  | @or cs _ _ ih =>
      rw [pieces, piecesOfAll_eq_flatMap, joinedPieces_eq_map]
      split
      · intro d hd
        obtain ⟨c, hc, hd⟩ := List.mem_flatMap.mp hd
        exact ih c hc 1 d hd
      · intro d hd negated deeper
        obtain rfl := List.mem_singleton.mp hd
        rw [faithful, allFaithful_iff]
        intro x hx
        obtain ⟨c, hc, rfl⟩ := List.mem_map.mp hx
        simpa using faithful_join (ih c hc (level + 1)) (deeper + 1)
  | @not cs _ _ ih =>
      intro d hd
      rw [pieces, deniedPieces_eq_flatMap, List.mem_flatMap] at hd
      obtain ⟨c, hc, hd⟩ := hd
      exact everFaithful_denyFirst (ih c hc _) d hd

section Separated

variable {e : Expression}

theorem wellFormed_separated {word : String → Prop} (he : e.WellFormed word) :
    e.separated.WellFormed word := by
  have hpieces := wellFormed_pieces he 0
  have hsome := pieces_ne_nil he 0
  cases he with
  | term | and | not => exact .and hsome hpieces
  | @or cs hne hcs =>
      have hjoined : ∀ c ∈ cs, (join (pieces 1 c)).WellFormed word := fun c hc =>
        wellFormed_join (pieces_ne_nil (hcs c hc) 1) (wellFormed_pieces (hcs c hc) 1)
      simpa [separated, joinedPieces_eq_map, hne] using hjoined

theorem faithful_separated {word : String → Prop} (he : e.WellFormed word) :
    e.separated.faithful false 0 = true := by
  have hpieces : allFaithful false 1 (pieces 0 e) = true :=
    allFaithful_iff.mpr fun d hd => everFaithful_pieces he 0 d hd false 0
  cases he with
  | term | and | not => exact hpieces
  | @or cs hne hcs =>
      rw [separated, faithful, allFaithful_iff, joinedPieces_eq_map]
      intro x hx
      obtain ⟨c, hc, rfl⟩ := List.mem_map.mp hx
      exact faithful_join (everFaithful_pieces (hcs c hc) 1) 0

theorem asQuery_separated {word : String → Prop} (he : e.WellFormed word) :
    e.separated.asQuery = e.asQuery := by
  have hpieces : factors 0 (and (pieces 0 e)) = factors 0 e := by
    rw [factors, if_pos rfl, factorsOfAll_eq_flatMap, factors_pieces he 0 0]
  cases he with
  | term | and | not => exact congrArg (fun c => [c]) hpieces
  | @or cs hne hcs =>
      simp only [separated, asQuery, joinedPieces_eq_map, arms_eq_map, List.map_map]
      refine List.map_congr_left fun c hc => ?_
      rw [Function.comp_apply, factors_join 0 (joinable_pieces (hcs c hc) 0),
        factors_pieces (hcs c hc)]

theorem text_separated (he : e.WellFormed IsPlainWord) : e.separated.text = e.text := by
  have hparse := parses_asQuery (wellFormed_separated he)
  rw [asQuery_separated he] at hparse
  exact hparse.text_unique (parses_asQuery he)

end Separated

/-- Expressions with one text are read as one query. -/
theorem asQuery_eq_of_text_eq {e d : Expression} (he : e.WellFormed IsPlainWord)
    (hd : d.WellFormed IsPlainWord) (h : e.text = d.text) : e.asQuery = d.asQuery := by
  have hparse := parses_asQuery he
  rw [h] at hparse
  exact hparse.unique (parses_asQuery hd)

/-- The text is also the text of a faithful expression that means something else. -/
def IsMerged (e : Expression) : Prop :=
  ∃ d : Expression, d.WellFormed IsPlainWord ∧ d.faithful false 0 = true ∧ d.text = e.text ∧
    ∃ v, d.holds v ≠ e.holds v

theorem isMerged_iff_misread {e : Expression} (he : e.WellFormed IsPlainWord) :
    e.IsMerged ↔ ∃ v, Query.holds v e.asQuery ≠ e.holds v := by
  constructor
  · rintro ⟨d, hd, hdf, htext, v, hv⟩
    refine ⟨v, ?_⟩
    rw [← asQuery_eq_of_text_eq hd he htext, asQuery_holds_of_faithful hd hdf]
    exact hv
  · rintro ⟨v, hv⟩
    -- the separated expression means what the text is read as
    have hwell := wellFormed_separated he
    have hfaithful := faithful_separated he
    refine ⟨e.separated, hwell, hfaithful, text_separated he, v, ?_⟩
    rw [← asQuery_holds_of_faithful hwell hfaithful, asQuery_separated he]
    exact hv

theorem query_holds_of_not_isMerged {e : Expression} (he : e.WellFormed IsPlainWord)
    (hmerged : ¬ e.IsMerged) (v : String → Bool) : Query.holds v e.asQuery = e.holds v := by
  by_contra hv
  exact hmerged ((isMerged_iff_misread he).mpr ⟨v, hv⟩)

/-- If expressions of one text differ in meaning, one of them is merged. -/
theorem holds_eq_of_text_eq {e d : Expression} (he : e.WellFormed IsPlainWord)
    (hd : d.WellFormed IsPlainWord) (htext : e.text = d.text) (hem : ¬ e.IsMerged)
    (hdm : ¬ d.IsMerged) (v : String → Bool) : e.holds v = d.holds v := by
  rw [← query_holds_of_not_isMerged he hem, ← query_holds_of_not_isMerged hd hdm,
    asQuery_eq_of_text_eq he hd htext]

theorem not_isMerged_of_faithful {e : Expression} (he : e.WellFormed IsPlainWord)
    (hf : e.faithful false 0 = true) : ¬ e.IsMerged := by
  rw [isMerged_iff_misread he]
  rintro ⟨v, hv⟩
  exact hv (asQuery_holds_of_faithful he hf v)

theorem isMerged_iff_not_faithful {e : Expression} (he : e.WellFormed IsPlainWord)
    (hwords : e.words.Nodup) : e.IsMerged ↔ e.faithful false 0 = false := by
  constructor
  · intro hmerged
    rw [Bool.eq_false_iff]
    exact fun hf => not_isMerged_of_faithful he hf hmerged
  · intro hf
    by_contra hmerged
    have hfaithful := faithful_of_asQuery he hwords (query_holds_of_not_isMerged he hmerged)
    rw [hf] at hfaithful
    exact Bool.false_ne_true hfaithful

/-- Which expressions share a text without sharing a meaning. Of two such expressions
one is merged, and a faithful one never is. An expression is merged exactly when its
text is read as something else, and without repeated words that is exactly when it
is not faithful. -/
theorem text_shared_exactly (e : Expression) (he : e.WellFormed IsPlainWord) :
    (∀ d : Expression, d.WellFormed IsPlainWord → e.text = d.text →
      ¬ e.IsMerged → ¬ d.IsMerged → ∀ v, e.holds v = d.holds v) ∧
    (e.faithful false 0 = true → ¬ e.IsMerged) ∧
    (e.IsMerged ↔ ∃ v, Query.holds v e.asQuery ≠ e.holds v) ∧
    (e.words.Nodup → (e.IsMerged ↔ e.faithful false 0 = false)) :=
  ⟨fun _ hd => holds_eq_of_text_eq he hd, not_isMerged_of_faithful he,
    isMerged_iff_misread he, isMerged_iff_not_faithful he⟩

/-- The negation of two children right behind a minus sign is merged. -/
theorem text_shared_double_negation :
    (not [not [term "a", term "b"]]).WellFormed IsPlainWord ∧
      (not [not [term "a", term "b"]]).words.Nodup ∧
      (not [not [term "a", term "b"]]).faithful false 0 = false ∧
      (not [not [term "a", term "b"]]).text = "--a -b" ∧
      (not [not [term "a", term "b"]]).IsMerged := by
  have hwell : (not [not [term "a", term "b"]]).WellFormed IsPlainWord := by simp; decide
  have hshared := (text_shared_exactly _ hwell).2.2.2 (by decide)
  exact ⟨hwell, by decide, by decide, by decide, hshared.mpr (by decide)⟩

/-- A text does not determine a meaning: `--a -b` is written for `a` or `b` as well as
for `a` and not `b`. -/
theorem text_does_not_determine_meaning :
    ¬ ∀ e d : Expression, e.WellFormed IsPlainWord → d.WellFormed IsPlainWord →
      e.text = d.text → ∀ v, e.holds v = d.holds v := by
  intro h
  have hsame := h (not [not [term "a", term "b"]]) (and [not [not [term "a"]], not [term "b"]])
    (by simp; decide) (by simp; decide) (by decide) fun _ => true
  simp at hsame

end RuleDesk.Expression
