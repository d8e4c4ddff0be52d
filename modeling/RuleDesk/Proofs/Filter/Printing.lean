import RuleDesk.Proofs.Filter.Writing

/-!
# Printed structures

What the reader makes of a text: no group of it is empty and no atom of it is, and unless
a backslash stands outside the quoted spans each atom is a run that stands for itself. The
printed form of such a structure is a text of the grammar, and it is read as the structure.
-/
namespace RuleDesk.Sexp

/-- Every group has an item and every atom is of the given kind. -/
inductive WellFormed (kind : String → Prop) : Sexp → Prop where
  | atom {t : String} : kind t → WellFormed kind (.atom t)
  | group {items : List Sexp} :
      items ≠ [] → (∀ item ∈ items, WellFormed kind item) → WellFormed kind (.group items)

theorem WellFormed.mono {p q : String → Prop} {e : Sexp} (he : e.WellFormed p)
    (hpq : ∀ t, p t → q t) : e.WellFormed q := by
  induction he with
  | atom ht => exact .atom (hpq _ ht)
  | group hne _ ih => exact .group hne ih

/-- Whether a backslash stands outside the quoted spans of a text, of which the first part
is inside the span opened by the given quote. -/
def bareBackslash : Option Char → List Char → Bool
  | _, [] => false
  | none, c :: rest => c == '\\' || bareBackslash (if isQuote c then some c else none) rest
  | some q, '\\' :: _ :: rest => bareBackslash (some q) rest
  | some q, c :: rest => bareBackslash (if c = q then none else some q) rest

section Bare

variable {q c : Char} {w t s body rest : List Char} {items : List Sexp}

theorem bareBackslash_span_cons (hc : c ≠ '\\') (rest : List Char) :
    bareBackslash (some q) (c :: rest) = bareBackslash (if c = q then none else some q) rest :=
  bareBackslash.eq_4 _ _ _ fun _ _ h _ => hc h

theorem bareBackslash_plain (hslash : c ≠ '\\') (hquote : isQuote c = false) (rest : List Char) :
    bareBackslash none (c :: rest) = bareBackslash none rest := by
  simp [bareBackslash, hslash, hquote]

theorem bareBackslash_spanBody (hbody : SpanBody q body) (rest : List Char) :
    bareBackslash (some q) (body ++ rest) = bareBackslash (some q) rest := by
  induction hbody with
  | nil => rfl
  | plain hq hslash _ ih => rw [List.cons_append, bareBackslash_span_cons hslash, if_neg hq, ih]
  | pair _ ih => exact ih

theorem bareBackslash_span (hq : isQuote q = true) (hbody : SpanBody q body) (rest : List Char) :
    bareBackslash none (q :: body ++ q :: rest) = bareBackslash none rest := by
  have hslash := ne_backslash_of_quote hq
  have hopen : bareBackslash none (q :: body ++ q :: rest) =
      bareBackslash (some q) (body ++ q :: rest) := by
    simp [bareBackslash, hslash, hq]
  rw [hopen, bareBackslash_spanBody hbody, bareBackslash_span_cons hslash, if_pos rfl]

/-- No span is open behind these characters: what follows is looked at on its own. -/
def Closed (s : List Char) : Prop :=
  ∀ rest, bareBackslash none (s ++ rest) = (bareBackslash none s || bareBackslash none rest)

theorem Closed.group (hs : Closed s) (rest : List Char) :
    bareBackslash none ('(' :: s ++ ')' :: rest) =
      (bareBackslash none s || bareBackslash none rest) := by
  rw [List.cons_append, bareBackslash_plain (by decide) (by decide), hs,
    bareBackslash_plain (by decide) (by decide)]

theorem Run.closed (hw : Run w t) : Closed w := by
  induction hw with
  | nil => exact fun _ => rfl
  | ordinary hc _ ih =>
      obtain ⟨hslash, hquote, -⟩ := isOrdinary_iff.mp hc
      intro rest
      rw [List.cons_append, bareBackslash_plain hslash hquote, bareBackslash_plain hslash hquote,
        ih]
  | pair _ _ => simp [Closed, bareBackslash]
  | @span q body w t hq hbody _ ih =>
      intro rest
      have hsplit : q :: body ++ q :: w ++ rest = q :: body ++ q :: (w ++ rest) := by simp
      rw [hsplit, bareBackslash_span hq hbody, bareBackslash_span hq hbody, ih]

/-- A run without escapes stands for itself. -/
theorem Run.eq_of_not_bareBackslash (hw : Run w t) (hbare : bareBackslash none w = false) :
    w = t := by
  induction hw with
  | nil => rfl
  | ordinary hc _ ih =>
      obtain ⟨hslash, hquote, -⟩ := isOrdinary_iff.mp hc
      rw [bareBackslash_plain hslash hquote] at hbare
      rw [ih hbare]
  | pair _ _ => simp [bareBackslash] at hbare
  | span hq hbody _ ih =>
      rw [bareBackslash_span hq hbody] at hbare
      rw [ih hbare]

theorem bareBackslash_blank (hc : isBlank c = true) (rest : List Char) :
    bareBackslash none (c :: rest) = bareBackslash none rest :=
  bareBackslash_plain (ne_backslash_of_blank hc) (not_quote_of_blank hc) rest

theorem Items.closed (hs : Items s items) : Closed s := by
  induction hs with
  | nil => exact fun _ => rfl
  | blank hc _ ih =>
      intro rest
      rw [List.cons_append, bareBackslash_blank hc, bareBackslash_blank hc, ih]
  | atom hw _ _ _ ih =>
      intro rest
      rw [List.append_assoc, hw.closed, hw.closed, ih, Bool.or_assoc]
  | @group inner s children items _ _ _ ihinner ih =>
      intro rest
      have hsplit : '(' :: inner ++ ')' :: s ++ rest = '(' :: inner ++ ')' :: (s ++ rest) := by
        simp
      rw [hsplit, ihinner.group, ihinner.group, ih, Bool.or_assoc]

end Bare

/-- An atom whose own text is read as this atom. -/
def IsRaw (t : String) : Prop :=
  t ≠ "" ∧ Run t.toList t.toList

/-- An atom that was read, which is raw unless backslashes stood outside spans. -/
def IsRead (bare : Bool) (t : String) : Prop :=
  t ≠ "" ∧ (bare = false → IsRaw t)

section Read

variable {bare more : Bool} {t : String}

theorem IsRead.or_left (h : IsRead bare t) : IsRead (bare || more) t :=
  ⟨h.1, fun hnone => h.2 (Bool.or_eq_false_iff.mp hnone).1⟩

theorem IsRead.or_right (h : IsRead more t) : IsRead (bare || more) t :=
  ⟨h.1, fun hnone => h.2 (Bool.or_eq_false_iff.mp hnone).2⟩

end Read

theorem Run.isRead {w t : List Char} (hw : Run w t) (hne : w ≠ []) :
    IsRead (bareBackslash none w) (String.ofList t) := by
  have hfull : String.ofList t ≠ "" := by simpa using hw.target_ne_nil hne
  constructor
  · exact hfull
  · intro hbare
    rw [hw.eq_of_not_bareBackslash hbare] at hw
    constructor
    · exact hfull
    · rwa [String.toList_ofList]

theorem Items.wellFormed {s : List Char} {items : List Sexp} (hs : Items s items) :
    ∀ item ∈ items, item.WellFormed (IsRead (bareBackslash none s)) := by
  induction hs with
  | nil => simp
  | blank hc _ ih =>
      rw [bareBackslash_blank hc]
      exact ih
  | atom hw hne _ _ ih =>
      rw [hw.closed, List.forall_mem_cons]
      constructor
      · exact .atom (hw.isRead hne).or_left
      · exact fun item hitem => (ih item hitem).mono fun _ ht => ht.or_right
  | group hinner hne _ ihinner ih =>
      rw [hinner.closed.group, List.forall_mem_cons]
      constructor
      · exact .group hne fun item hitem => (ihinner item hitem).mono fun _ ht => ht.or_left
      · exact fun item hitem => (ih item hitem).mono fun _ ht => ht.or_right

/-- A text that is read is made of items, which are the structure. -/
theorem exists_items_of_parse {text : String} {e : Sexp} (h : parse text = .ok e) :
    ∃ s items rest, text.toList = s ++ rest ∧ Items s items ∧ items ≠ [] ∧ AtEnd rest ∧
      e = ofItems items := by
  obtain ⟨result, hreads⟩ := exists_reads text.toList
  have hresult : result = .ok e := (read_reads hreads).symm.trans h
  rw [hresult] at hreads
  generalize htext : text.toList = chars at hreads
  cases hreads with
  | items hs hne hrest => exact ⟨_, _, _, rfl, hs, hne, hrest, rfl⟩

theorem wellFormed_of_parse {text : String} {e : Sexp} (h : parse text = .ok e) :
    e.WellFormed (IsRead (bareBackslash none text.toList)) := by
  obtain ⟨s, items, rest, htext, hs, hne, -, rfl⟩ := exists_items_of_parse h
  rw [htext, hs.closed]
  have hitems : ∀ item ∈ items, item.WellFormed (IsRead (bareBackslash none s ||
      bareBackslash none rest)) :=
    fun item hitem => (hs.wellFormed item hitem).mono fun _ ht => ht.or_left
  unfold ofItems
  split
  · next item => exact hitems item (by simp)
  · exact .group hne hitems

theorem texts_eq_map (items : List Sexp) : texts items = items.map text := by
  induction items with
  | nil => rfl
  | cons item items ih => simp [texts, ih]

/-- What is printed stands for the structure. -/
theorem spells_text {e : Sexp} (he : e.WellFormed IsRaw) : Spells e.text.toList e := by
  induction he with
  | @atom t ht =>
      simpa [text] using Spells.run ht.2 (by simpa using ht.1)
  | @group items hne _ ih =>
      have hitems : List.Forall₂ (fun t e => Spells t.toList e) (texts items) items := by
        rw [texts_eq_map, List.forall₂_map_left_iff, List.forall₂_same]
        exact ih
      exact .group hitems hne

/-- A text that is read as a structure, with no backslash outside its quoted spans: the
printed form of the structure is read as the same structure. -/
theorem parse_text_of_parse {text : String} {e : Sexp} (h : parse text = .ok e)
    (hbare : bareBackslash none text.toList = false) : parse e.text = .ok e := by
  apply Spells.parse
  apply spells_text
  apply (wellFormed_of_parse h).mono
  intro t ht
  exact ht.2 hbare

/-- Two groups side by side, and atoms with a blank, a quote and a parenthesis in their spans. -/
theorem parse_text_of_parse_glued_spans :
    parse " a\"b \\\" (c\"  (- 'x)' (y)) " =
        .ok (.group [.atom "a\"b \\\" (c\"", .group [.atom "-", .atom "'x)'", .group [.atom "y"]]]) ∧
      bareBackslash none " a\"b \\\" (c\"  (- 'x)' (y)) ".toList = false ∧
      parse "(a\"b \\\" (c\" (- 'x)' (y)))" =
        .ok (.group [.atom "a\"b \\\" (c\"", .group [.atom "-", .atom "'x)'", .group [.atom "y"]]]) := by
  have hread : parse " a\"b \\\" (c\"  (- 'x)' (y)) " =
      .ok (.group [.atom "a\"b \\\" (c\"", .group [.atom "-", .atom "'x)'", .group [.atom "y"]]]) := by
    cbv
  have hbare : bareBackslash none " a\"b \\\" (c\"  (- 'x)' (y)) ".toList = false := by decide
  have hprinted : text (.group [.atom "a\"b \\\" (c\"",
      .group [.atom "-", .atom "'x)'", .group [.atom "y"]]]) = "(a\"b \\\" (c\" (- 'x)' (y)))" := by
    decide
  have hagain := parse_text_of_parse hread hbare
  rw [hprinted] at hagain
  exact ⟨hread, hbare, hagain⟩

end RuleDesk.Sexp
