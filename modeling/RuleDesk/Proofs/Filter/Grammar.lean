import RuleDesk.Proofs.Filter.Reader

/-!
# The grammar of filter texts

A filter text is a sequence of items with optional blanks around them. An item is
an atom, which is a maximal run of ordinary characters, backslash pairs and closed
quoted spans, or a group of at least one item. `Reads` gives the answer to every
text in these terms: the items of a text of the grammar, and otherwise the fault
that comes first from left to right, with the part of the text that it points at.

Every text has an answer. It is found level by level: behind the items of a level
the text ends, or a parenthesis closes the level, or something is broken there.
-/
namespace RuleDesk.Sexp

/-- What stands between the quotes of a closed span. -/
inductive SpanBody (q : Char) : List Char → Prop where
  | nil : SpanBody q []
  | plain {c : Char} {s : List Char} :
      c ≠ q → c ≠ '\\' → SpanBody q s → SpanBody q (c :: s)
  | pair {c : Char} {s : List Char} : SpanBody q s → SpanBody q ('\\' :: c :: s)

/-- A run and the characters that it contributes to its atom: those of a span stay as
they are, with the quotes, and elsewhere the backslash of a pair goes. -/
inductive Run : List Char → List Char → Prop where
  | nil : Run [] []
  | ordinary {c : Char} {w t : List Char} : isOrdinary c = true → Run w t → Run (c :: w) (c :: t)
  | pair {c : Char} {w t : List Char} : Run w t → Run ('\\' :: c :: w) (c :: t)
  | span {q : Char} {body w t : List Char} : isQuote q = true → SpanBody q body → Run w t →
      Run (q :: body ++ q :: w) (q :: body ++ q :: t)

/-- An atom that stops here is maximal: a blank, a parenthesis or nothing follows. -/
def EndsAtom (s : List Char) : Prop :=
  ∀ c ∈ s.head?, isBlank c = true ∨ c = '(' ∨ c = ')'

inductive Items : List Char → List Sexp → Prop where
  | nil : Items [] []
  | blank {c : Char} {s : List Char} {items : List Sexp} :
      isBlank c = true → Items s items → Items (c :: s) items
  | atom {w t s : List Char} {items : List Sexp} : Run w t → w ≠ [] → EndsAtom s →
      Items s items → Items (w ++ s) (.atom (String.ofList t) :: items)
  | group {inner s : List Char} {children items : List Sexp} : Items inner children →
      children ≠ [] → Items s items → Items ('(' :: inner ++ ')' :: s) (.group children :: items)

/-- The end of a text. A backslash without a character behind it counts for nothing. -/
inductive AtEnd : List Char → Prop where
  | nothing : AtEnd []
  | backslash : AtEnd ['\\']

/-- What follows the quote of a span that is never closed. -/
def OpenSpan (q : Char) (s : List Char) : Prop :=
  ∃ body rest, s = body ++ rest ∧ SpanBody q body ∧ AtEnd rest

/-- A text without faults so far, in which groups may still be open. -/
inductive Opened : List Char → Prop where
  | level {s : List Char} {items : List Sexp} : Items s items → Opened s
  | group {s p : List Char} {items : List Sexp} :
      Items s items → Opened p → Opened (s ++ '(' :: p)

/-- One item stands for itself, several are a group. -/
def ofItems : List Sexp → Sexp
  | [item] => item
  | items => .group items

/-- The answer to a text. In front of what a fault points at there is no other fault. -/
inductive Reads : List Char → Except FilterError Sexp → Prop where
  | items {s e : List Char} {items : List Sexp} :
      Items s items → items ≠ [] → AtEnd e → Reads (s ++ e) (.ok (ofItems items))
  | empty {s e : List Char} :
      (∀ c ∈ s, isBlank c = true) → AtEnd e → Reads (s ++ e) (.error .empty)
  | unmatchedClose {s rest : List Char} {items : List Sexp} : Items s items →
      Reads (s ++ ')' :: rest) (.error (.unmatchedClose (String.ofList (')' :: rest))))
  | emptyGroup {p blanks rest : List Char} : Opened p → (∀ c ∈ blanks, isBlank c = true) →
      Reads (p ++ '(' :: blanks ++ ')' :: rest)
        (.error (.emptyGroup (String.ofList ('(' :: blanks ++ [')']))))
  | unterminatedQuote {p s : List Char} {q : Char} : Opened p → isQuote q = true →
      OpenSpan q s →
      Reads (p ++ q :: s) (.error (.unterminatedQuote (String.ofList (q :: s))))
  /-- The outermost open group is the one to blame. -/
  | unclosedGroup {s p e : List Char} {items : List Sexp} : Items s items → Opened p →
      AtEnd e →
      Reads (s ++ '(' :: p ++ e) (.error (.unclosedGroup (String.ofList ('(' :: p ++ e))))

theorem isOrdinary_of_not {c : Char} (hslash : c ≠ '\\') (hquote : isQuote c ≠ true)
    (hends : ¬ (isBlank c = true ∨ c = '(' ∨ c = ')')) : isOrdinary c = true := by
  simp only [not_or] at hends
  simp [isOrdinary, hslash, hquote, hends]

/-- Behind a quote its span is closed or left open. -/
theorem exists_spanBody (q : Char) (s : List Char) :
    (∃ body rest, s = body ++ q :: rest ∧ SpanBody q body) ∨ OpenSpan q s := by
  match s with
  | [] => exact .inr ⟨[], [], rfl, .nil, .nothing⟩
  | c :: s =>
      by_cases hslash : c = '\\'
      · subst hslash
        match s with
        | [] => exact .inr ⟨[], ['\\'], rfl, .nil, .backslash⟩
        | c :: s =>
            rcases exists_spanBody q s with
              ⟨body, rest, rfl, hbody⟩ | ⟨body, rest, rfl, hbody, hrest⟩
            · exact .inl ⟨'\\' :: c :: body, rest, rfl, .pair hbody⟩
            · exact .inr ⟨'\\' :: c :: body, rest, rfl, .pair hbody, hrest⟩
      · by_cases hclose : c = q
        · exact .inl ⟨[], s, by simp [hclose], .nil⟩
        · rcases exists_spanBody q s with
            ⟨body, rest, rfl, hbody⟩ | ⟨body, rest, rfl, hbody, hrest⟩
          · exact .inl ⟨c :: body, rest, rfl, .plain hclose hslash hbody⟩
          · exact .inr ⟨c :: body, rest, rfl, .plain hclose hslash hbody, hrest⟩

/-- Behind a run its atom ends, or the text ends, or a span is left open. -/
theorem exists_run (s : List Char) :
    ∃ w t rest, s = w ++ rest ∧ Run w t ∧ (EndsAtom rest ∨ rest = ['\\'] ∨
      ∃ q inner, rest = q :: inner ∧ isQuote q = true ∧ OpenSpan q inner) := by
  match s with
  | [] => exact ⟨[], [], [], rfl, .nil, .inl (by simp [EndsAtom])⟩
  | c :: s =>
      by_cases hslash : c = '\\'
      · subst hslash
        match s with
        | [] => exact ⟨[], [], ['\\'], rfl, .nil, .inr (.inl rfl)⟩
        | c :: s =>
            obtain ⟨w, t, rest, rfl, hw, hrest⟩ := exists_run s
            exact ⟨'\\' :: c :: w, c :: t, rest, rfl, .pair hw, hrest⟩
      by_cases hquote : isQuote c = true
      · rcases exists_spanBody c s with ⟨body, rest, hs, hbody⟩ | hopen
        · have hshorter : rest.length < s.length := by simp [hs]; omega
          obtain ⟨w, t, rest, rfl, hw, hrest⟩ := exists_run rest
          exact ⟨c :: body ++ c :: w, c :: body ++ c :: t, rest, by simp [hs],
            .span hquote hbody hw, hrest⟩
        · exact ⟨[], [], c :: s, rfl, .nil, .inr (.inr ⟨c, s, rfl, hquote, hopen⟩)⟩
      by_cases hends : isBlank c = true ∨ c = '(' ∨ c = ')'
      · exact ⟨[], [], c :: s, rfl, .nil, .inl (by simpa [EndsAtom] using hends)⟩
      · obtain ⟨w, t, rest, rfl, hw, hrest⟩ := exists_run s
        exact ⟨c :: w, c :: t, rest, rfl, .ordinary (isOrdinary_of_not hslash hquote hends) hw,
          hrest⟩
termination_by s.length

/-- What stands behind the items of a level: the end of the text, the parenthesis that
closes the level, or something that is never closed well. -/
inductive Stop : List Char → Prop where
  | atEnd {e : List Char} : AtEnd e → Stop e
  | close (rest : List Char) : Stop (')' :: rest)
  | quote {q : Char} {s : List Char} : isQuote q = true → OpenSpan q s → Stop (q :: s)
  | emptyGroup {blanks : List Char} (rest : List Char) :
      (∀ c ∈ blanks, isBlank c = true) → Stop ('(' :: blanks ++ ')' :: rest)
  | openGroup {inner rest : List Char} {items : List Sexp} : Items inner items → Stop rest →
      rest.head? ≠ some ')' → Stop ('(' :: inner ++ rest)

theorem items_nil_iff {s : List Char} : Items s [] ↔ ∀ c ∈ s, isBlank c = true := by
  constructor
  · intro h
    generalize hitems : ([] : List Sexp) = items at h
    induction h with
    | nil => simp
    | blank hc _ ih => simpa [hc] using ih hitems
    | atom => cases hitems
    | group => cases hitems
  · intro h
    induction s with
    | nil => exact .nil
    | cons c s ih => exact .blank (h c (by simp)) (ih fun d hd => h d (by simp [hd]))

theorem EndsAtom.of_append {s rest : List Char} (h : EndsAtom (s ++ rest)) : EndsAtom s := by
  cases s with
  | nil => simp [EndsAtom]
  | cons c s => simpa [EndsAtom] using h

/-- Every text is a level of items up to where it stops. -/
theorem exists_stop (s : List Char) :
    ∃ body items rest, s = body ++ rest ∧ Items body items ∧ Stop rest := by
  obtain ⟨w, t, rest, hs, hw, hrest⟩ := exists_run s
  by_cases hne : w = []
  · rw [hne, List.nil_append] at hs
    rcases hrest with hends | rfl | ⟨q, inner, rfl, hq, hopen⟩
    · cases rest with
      | nil => exact ⟨[], [], [], hs, .nil, .atEnd .nothing⟩
      | cons c rest =>
          have hshorter : rest.length < s.length := by simp [hs]
          obtain ⟨inner, children, stop, hinside, hinner, hstop⟩ := exists_stop rest
          rcases hends c rfl with hblank | rfl | rfl
          · exact ⟨c :: inner, children, stop, by simp [hs, hinside], .blank hblank hinner, hstop⟩
          · -- the level goes on behind a group that is closed well
            by_cases hclosed : stop.head? = some ')'
            · obtain ⟨behind, rfl⟩ : ∃ behind, stop = ')' :: behind := by
                cases stop with
                | nil => cases hclosed
                | cons c behind => cases hclosed; exact ⟨behind, rfl⟩
              by_cases hempty : children = []
              · have hblanks := items_nil_iff.mp (hempty ▸ hinner)
                exact ⟨[], [], _, by simp [hs, hinside], .nil, .emptyGroup behind hblanks⟩
              · have hshorter : behind.length < s.length := by simp [hs, hinside]; omega
                obtain ⟨body, items, stop, hbehind, hbody, hstop⟩ := exists_stop behind
                exact ⟨'(' :: inner ++ ')' :: body, _, stop, by simp [hs, hinside, hbehind],
                  .group hinner hempty hbody, hstop⟩
            · exact ⟨[], [], _, by simp [hs, hinside], .nil, .openGroup hinner hstop hclosed⟩
          · exact ⟨[], [], _, hs, .nil, .close rest⟩
    · exact ⟨[], [], _, hs, .nil, .atEnd .backslash⟩
    · exact ⟨[], [], _, hs, .nil, .quote hq hopen⟩
  · have hatom : Items w [.atom (String.ofList t)] := by
      have h := Items.atom hw hne (by simp [EndsAtom]) .nil
      simpa using h
    rcases hrest with hends | rfl | ⟨q, inner, rfl, hq, hopen⟩
    · have hshorter : rest.length < s.length := by
        have hpos := List.length_pos_iff.mpr hne
        rw [hs, List.length_append]
        omega
      obtain ⟨body, items, stop, rfl, hbody, hstop⟩ := exists_stop rest
      exact ⟨w ++ body, _, stop, by simp [hs], .atom hw hne hends.of_append hbody, hstop⟩
    · exact ⟨w, _, _, hs, hatom, .atEnd .backslash⟩
    · exact ⟨w, _, _, hs, hatom, .quote hq hopen⟩
termination_by s.length

theorem Opened.append_group {p inner : List Char} {items : List Sexp} (hp : Opened p)
    (hinner : Items inner items) : Opened (p ++ '(' :: inner) := by
  induction hp with
  | level hs => exact .group hs (.level hinner)
  | group hs _ ih => simpa using Opened.group hs ih

/-- Inside an open group every stop but the parenthesis that closes it is a fault. -/
theorem Stop.reads_inside {rest : List Char} (h : Stop rest) (hrest : rest.head? ≠ some ')')
    {s p : List Char} {items : List Sexp} (hs : Items s items) (hp : Opened p) :
    ∃ result, Reads (s ++ '(' :: p ++ rest) result := by
  induction h generalizing p with
  | atEnd he => exact ⟨_, .unclosedGroup hs hp he⟩
  | close => simp at hrest
  | quote hq hopen => exact ⟨_, .unterminatedQuote (.group hs hp) hq hopen⟩
  | @emptyGroup blanks rest hblanks =>
      have hfault : Reads (s ++ '(' :: p ++ '(' :: blanks ++ ')' :: rest) _ :=
        .emptyGroup (.group hs hp) hblanks
      exact ⟨_, by simpa using hfault⟩
  | openGroup hinner _ hstop ih =>
      obtain ⟨result, hresult⟩ := ih hstop (hp.append_group hinner)
      exact ⟨result, by simpa using hresult⟩

theorem exists_reads (s : List Char) : ∃ result, Reads s result := by
  obtain ⟨body, items, rest, rfl, hbody, hstop⟩ := exists_stop s
  cases hstop with
  | atEnd he =>
      by_cases hempty : items = []
      · subst hempty
        exact ⟨_, .empty (items_nil_iff.mp hbody) he⟩
      · exact ⟨_, .items hbody hempty he⟩
  | close rest => exact ⟨_, .unmatchedClose hbody⟩
  | quote hq hopen => exact ⟨_, .unterminatedQuote (.level hbody) hq hopen⟩
  | @emptyGroup blanks rest hblanks =>
      have hfault : Reads (body ++ '(' :: blanks ++ ')' :: rest) _ :=
        .emptyGroup (.level hbody) hblanks
      exact ⟨_, by simpa using hfault⟩
  | openGroup hinner hstop hopen =>
      obtain ⟨result, hresult⟩ := hstop.reads_inside hopen hbody (.level hinner)
      exact ⟨result, by simpa using hresult⟩

end RuleDesk.Sexp
