import RuleDesk.Proofs.Filter.Grammar

/-!
# The reader follows the grammar

Reading a filter text gives exactly the answer that the grammar has for it. The
reader is walked along each kind of well-formed text, from any of its states
between items; what it holds at a fault tells which part of the text is quoted.
-/
namespace RuleDesk.Sexp

section Spans

variable {q : Char} {body : List Char}

theorem read_quote (r : Reader) {c : Char} (hc : isQuote c = true) (rest : List Char) :
    read r none (c :: rest) = read (r.take c) (some (c, c :: rest)) rest := by
  rw [read.eq_def]
  simp [ne_backslash_of_quote hc, hc]

theorem read_spanBody (hbody : SpanBody q body) (r : Reader) (start rest : List Char) :
    read r (some (q, start)) (body ++ rest) =
      read { r with atom := body.reverse ++ r.atom } (some (q, start)) rest := by
  induction hbody generalizing r with
  | nil => simp
  | @plain c s hq hslash _ ih =>
      have hstep : read r (some (q, start)) (c :: (s ++ rest)) =
          read (r.take c) (some (q, start)) (s ++ rest) := by
        rw [read.eq_def]
        simp [hq, hslash]
      rw [List.cons_append, hstep, ih]
      simp [Reader.take]
  | @pair c s _ ih =>
      have hstep : read r (some (q, start)) ('\\' :: c :: (s ++ rest)) =
          read ((r.take '\\').take c) (some (q, start)) (s ++ rest) := by
        rw [read.eq_def]
        simp
      rw [List.cons_append, List.cons_append, hstep, ih]
      simp [Reader.take]

theorem read_span (hq : isQuote q = true) (hbody : SpanBody q body) (r : Reader)
    (rest : List Char) :
    read r none (q :: body ++ q :: rest) =
      read { r with atom := q :: body.reverse ++ q :: r.atom } none rest := by
  have hslash := ne_backslash_of_quote hq
  have hclose (s : Reader) (start : List Char) :
      read s (some (q, start)) (q :: rest) = read (s.take q) none rest := by
    rw [read.eq_def]
    simp [hslash]
  rw [List.cons_append, read_quote r hq, read_spanBody hbody, hclose]
  simp [Reader.take]

/-- A span that is left open is the fault of the text, wherever it begins. -/
theorem read_openSpan (hq : isQuote q = true) {s : List Char} (hs : OpenSpan q s) (r : Reader) :
    read r none (q :: s) = .error (.unterminatedQuote (String.ofList (q :: s))) := by
  obtain ⟨body, rest, rfl, hbody, hrest⟩ := hs
  rw [read_quote r hq, read_spanBody hbody]
  cases hrest with
  | nothing => rw [read.eq_def]
  | backslash =>
      rw [read.eq_def]
      simp

end Spans

theorem read_run {w t : List Char} (hw : Run w t) (r : Reader) (rest : List Char) :
    read r none (w ++ rest) = read { r with atom := t.reverse ++ r.atom } none rest := by
  induction hw generalizing r with
  | nil => simp
  | ordinary hc _ ih =>
      rw [List.cons_append, read_ordinary _ _ hc, ih]
      simp [Reader.take]
  | pair _ ih =>
      rw [List.cons_append, List.cons_append, read_escaped, ih]
      simp [Reader.take]
  | @span q body w t hq hbody _ ih =>
      have hsplit : q :: body ++ q :: w ++ rest = q :: body ++ q :: (w ++ rest) := by simp
      rw [hsplit, read_span hq hbody, ih]
      simp

theorem Run.head {w t : List Char} (hw : Run w t) (hne : w ≠ []) : ¬ EndsAtom w := by
  intro hends
  cases hw with
  | nil => exact hne rfl
  | ordinary hc _ =>
      have h := hends _ rfl
      rw [isOrdinary_iff] at hc
      simp [hc] at h
  | pair _ => simpa [isBlank] using hends _ rfl
  | span hq _ _ =>
      have h := hends _ rfl
      simp [not_blank_of_quote hq, ne_parenthesis_of_quote hq] at h

theorem Run.target_ne_nil {w t : List Char} (hw : Run w t) (hne : w ≠ []) : t ≠ [] := by
  cases hw with
  | nil => exact absurd rfl hne
  | ordinary | pair | span => simp

namespace Reader

/-- Adds items to the innermost open group. -/
def pushAll (r : Reader) (items : List Sexp) : Reader :=
  items.foldl push r

@[simp] theorem pushAll_nil (r : Reader) : r.pushAll [] = r := rfl

@[simp] theorem pushAll_cons (r : Reader) (item : Sexp) (items : List Sexp) :
    r.pushAll (item :: items) = (r.push item).pushAll items := rfl

theorem pushAll_inside (r : Reader) (start : List Char) (items children : List Sexp) :
    (r.inside start items).pushAll children = r.inside start (children.reverse ++ items) := by
  induction children generalizing items with
  | nil => rfl
  | cons child children ih => simp [ih]

theorem pushAll_top (items : List Sexp) (top : List Sexp) :
    ({ top } : Reader).pushAll items = { top := items.reverse ++ top } := by
  induction items generalizing top with
  | nil => rfl
  | cons item items ih =>
      rw [pushAll_cons, push, ih]
      simp

@[simp] theorem flush_atom (r : Reader) : r.flush.atom = [] := by
  unfold flush
  split
  · next h => simpa using h
  · exact push_atom _ _

@[simp] theorem flush_flush (r : Reader) : r.flush.flush = r.flush :=
  flush_of_atom_nil r.flush_atom

theorem flush_take_atom {r : Reader} (hr : r.atom = []) {t : List Char} (ht : t ≠ []) :
    ({ r with atom := t.reverse ++ r.atom } : Reader).flush =
      r.push (.atom (String.ofList t)) := by
  have hitem : Sexp.atom (String.ofList t) ≠ .atom "" := by simpa using ht
  have h := flush_after hr hitem
  simpa [after, hr] using h

/-- Where the open groups begin, the innermost one first. -/
def starts (r : Reader) : List (List Char) :=
  r.groups.map OpenGroup.start

@[simp] theorem starts_push (r : Reader) (item : Sexp) : (r.push item).starts = r.starts := by
  unfold push starts
  split <;> simp_all

@[simp] theorem starts_flush (r : Reader) : r.flush.starts = r.starts := by
  unfold flush
  split
  · rfl
  · exact starts_push _ _

@[simp] theorem starts_pushAll (r : Reader) (items : List Sexp) :
    (r.pushAll items).starts = r.starts := by
  induction items generalizing r with
  | nil => rfl
  | cons item items ih => rw [pushAll_cons, ih, starts_push]

theorem starts_openGroup (r : Reader) (start : List Char) :
    (r.openGroup start).starts = start :: r.starts := by
  rw [← starts_flush r]
  rfl

theorem openGroup_eq_inside_flush (r : Reader) (start : List Char) :
    r.openGroup start = r.flush.inside start [] := by
  rw [← openGroup_eq_inside r.flush_atom start]
  simp [openGroup]

@[simp] theorem openGroup_atom (r : Reader) (start : List Char) : (r.openGroup start).atom = [] := by
  rw [openGroup_eq_inside_flush, inside_atom]

theorem flush_openGroup (r : Reader) (start : List Char) :
    (r.openGroup start).flush = r.flush.inside start [] := by
  rw [flush_of_atom_nil (r.openGroup_atom start), openGroup_eq_inside_flush]

end Reader

/-- A walk over items adds them to the innermost group, as far as they are ended. What
is read of an atom in front of them counts too, if it ends there. -/
theorem read_items {s : List Char} {items : List Sexp} (hs : Items s items) (r : Reader)
    (hr : r.atom = [] ∨ EndsAtom s) (rest : List Char) :
    ∃ r', r'.flush = r.flush.pushAll items ∧ read r none (s ++ rest) = read r' none rest := by
  induction hs generalizing r rest with
  | nil => exact ⟨r, rfl, rfl⟩
  | blank hc _ ih =>
      obtain ⟨r', hr', hread⟩ := ih r.flush (.inl r.flush_atom) rest
      exact ⟨r', by simpa using hr', by rw [List.cons_append, read_blank _ _ hc, hread]⟩
  | @atom w t s items hw hne hends _ ih =>
      have hatom : r.atom = [] := hr.resolve_right fun h => hw.head hne h.of_append
      obtain ⟨r', hr', hread⟩ := ih { r with atom := t.reverse ++ r.atom } (.inr hends) rest
      refine ⟨r', ?_, by rw [List.append_assoc, read_run hw, hread]⟩
      rw [hr', Reader.flush_take_atom hatom (hw.target_ne_nil hne),
        Reader.flush_of_atom_nil hatom, Reader.pushAll_cons]
  | @group inner s children items _ hne _ ihinner ih =>
      obtain ⟨r₁, hr₁, hread₁⟩ := ihinner (r.openGroup ('(' :: (inner ++ ')' :: (s ++ rest))))
        (.inl (by simp)) (')' :: (s ++ rest))
      rw [Reader.flush_openGroup, Reader.pushAll_inside, List.append_nil] at hr₁
      have hclose := Reader.closeGroup_of_flush r.flush_atom (by simpa using hne) hr₁
        (')' :: (s ++ rest))
      obtain ⟨r', hr', hread⟩ := ih (r.flush.push (.group children)) (.inl (by simp)) rest
      refine ⟨r', ?_, ?_⟩
      · rw [hr', Reader.pushAll_cons, Reader.flush_of_atom_nil (by simp)]
      · rw [show '(' :: inner ++ ')' :: s ++ rest = '(' :: (inner ++ ')' :: (s ++ rest)) by simp,
          read_open, hread₁, read_close, hclose, List.reverse_reverse, ← hread]
        rfl

/-- Groups that are still open behind a text are added in front of those before it. -/
theorem read_opened {p : List Char} (hp : Opened p) (r : Reader) (hr : r.atom = [])
    (rest : List Char) :
    ∃ r', r.starts <:+ r'.starts ∧ read r none (p ++ rest) = read r' none rest := by
  induction hp generalizing r rest with
  | level hs =>
      obtain ⟨r', hr', hread⟩ := read_items hs r (.inl hr) rest
      have hstarts : r'.starts = r.starts := by
        rw [← r'.starts_flush, hr', Reader.starts_pushAll, Reader.starts_flush]
      exact ⟨r', hstarts ▸ List.suffix_refl _, hread⟩
  | @group s p items hs _ ih =>
      obtain ⟨r₁, hr₁, hread₁⟩ := read_items hs r (.inl hr) ('(' :: (p ++ rest))
      obtain ⟨r', hr', hread⟩ := ih (r₁.openGroup ('(' :: (p ++ rest))) (by simp) rest
      have hstarts : r₁.starts = r.starts := by
        rw [← r₁.starts_flush, hr₁, Reader.starts_pushAll, Reader.starts_flush]
      refine ⟨r', ?_, ?_⟩
      · rw [Reader.starts_openGroup, hstarts] at hr'
        exact (List.suffix_cons _ _).trans hr'
      · rw [List.append_assoc, List.cons_append, hread₁, read_open, hread]

theorem read_atEnd {e : List Char} (he : AtEnd e) (r : Reader) : read r none e = r.finish := by
  cases he with
  | nothing => exact read_nil r
  | backslash =>
      rw [read.eq_def]
      simp

namespace Reader

/-- The outermost open group is the last one. -/
theorem finish_of_starts {r : Reader} {start : List Char} (h : [start] <:+ r.starts) :
    r.finish = .error (.unclosedGroup (String.ofList start)) := by
  obtain ⟨inner, hinner⟩ := h
  have hlast : (r.groups.getLast?).map OpenGroup.start = some start := by
    rw [← List.getLast?_map, show r.groups.map OpenGroup.start = inner ++ [start] from hinner.symm]
    simp
  obtain ⟨g, hg, rfl⟩ := Option.map_eq_some_iff.mp hlast
  rw [finish, hg]

theorem groups_of_flush {r : Reader} {top : List Sexp} (h : r.flush = { top }) :
    r.groups = [] := by
  have hstarts : r.starts = [] := by
    rw [← starts_flush, h]
    rfl
  exact List.map_eq_nil_iff.mp hstarts

/-- With no group open the items at the top are the result. -/
theorem finish_of_flush {r : Reader} {items : List Sexp} (hne : items ≠ [])
    (h : r.flush = { top := items.reverse }) : r.finish = .ok (ofItems items) := by
  rw [finish, groups_of_flush h, h]
  simp only [List.getLast?_nil, List.reverse_reverse]
  unfold ofItems
  split
  · exact absurd rfl hne
  · rfl
  · next hmany _ => split <;> simp_all

theorem finish_of_flush_nil {r : Reader} (h : r.flush = {}) : r.finish = .error .empty := by
  rw [finish, groups_of_flush h, h]
  rfl

theorem closeGroup_of_flush_top {r : Reader} {top : List Sexp} (h : r.flush = { top })
    (close : List Char) :
    r.closeGroup close = .error (.unmatchedClose (String.ofList close)) := by
  rw [closeGroup, h]

/-- The fragment goes from the parenthesis that opens the group to the one that closes
it. -/
theorem closeGroup_of_flush_empty {r s : Reader} {blanks rest : List Char}
    (h : s.flush = r.inside ('(' :: blanks ++ ')' :: rest) []) :
    s.closeGroup (')' :: rest) =
      .error (.emptyGroup (String.ofList ('(' :: blanks ++ [')']))) := by
  have hfragment : ('(' :: blanks ++ ')' :: rest).take
      (('(' :: blanks ++ ')' :: rest).length + 1 - (')' :: rest).length) =
        '(' :: blanks ++ [')'] := by
    have hsplit : '(' :: blanks ++ ')' :: rest = ('(' :: blanks ++ [')']) ++ rest := by simp
    rw [hsplit]
    exact List.take_left' (by simp; omega)
  simp only [closeGroup, h, inside, List.isEmpty_nil, if_true, hfragment]

end Reader

/-- Items at the top of a text. -/
theorem read_topItems {s : List Char} {items : List Sexp} (hs : Items s items)
    (rest : List Char) :
    ∃ r, r.flush = { top := items.reverse } ∧ read {} none (s ++ rest) = read r none rest := by
  obtain ⟨r, hr, hread⟩ := read_items hs {} (.inl rfl) rest
  refine ⟨r, ?_, hread⟩
  rw [hr, Reader.flush_of_atom_nil rfl, Reader.pushAll_top, List.append_nil]

theorem read_reads {s : List Char} {result : Except FilterError Sexp} (h : Reads s result) :
    read {} none s = result := by
  cases h with
  | @items s e items hs hne he =>
      obtain ⟨r, hr, hread⟩ := read_topItems hs e
      rw [hread, read_atEnd he, Reader.finish_of_flush hne hr]
  | @empty s e hs he =>
      obtain ⟨r, hr, hread⟩ := read_topItems (items_nil_iff.mpr hs) e
      rw [hread, read_atEnd he, Reader.finish_of_flush_nil hr]
  | @unmatchedClose s rest items hs =>
      obtain ⟨r, hr, hread⟩ := read_topItems hs (')' :: rest)
      rw [hread, read_close, Reader.closeGroup_of_flush_top hr]
      rfl
  | @emptyGroup p blanks rest hp hblanks =>
      obtain ⟨r₁, -, hread₁⟩ := read_opened hp {} rfl ('(' :: (blanks ++ ')' :: rest))
      obtain ⟨r₂, hr₂, hread₂⟩ := read_items (items_nil_iff.mpr hblanks)
        (r₁.openGroup ('(' :: (blanks ++ ')' :: rest))) (.inl (by simp)) (')' :: rest)
      rw [Reader.flush_openGroup, Reader.pushAll_nil] at hr₂
      have hsplit : p ++ '(' :: blanks ++ ')' :: rest = p ++ '(' :: (blanks ++ ')' :: rest) := by
        simp
      rw [hsplit, hread₁, read_open, hread₂, read_close, Reader.closeGroup_of_flush_empty hr₂]
      rfl
  | @unterminatedQuote p s q hp hq hs =>
      obtain ⟨r, -, hread⟩ := read_opened hp {} rfl (q :: s)
      rw [hread, read_openSpan hq hs]
  | @unclosedGroup s p e items hs hp he =>
      obtain ⟨r₁, hr₁, hread₁⟩ := read_topItems hs ('(' :: (p ++ e))
      obtain ⟨r₂, hr₂, hread₂⟩ := read_opened hp (r₁.openGroup ('(' :: (p ++ e))) (by simp) e
      rw [Reader.starts_openGroup, ← r₁.starts_flush, hr₁] at hr₂
      have hsplit : s ++ '(' :: p ++ e = s ++ '(' :: (p ++ e) := by simp
      rw [hsplit, hread₁, read_open, hread₂, read_atEnd he, Reader.finish_of_starts hr₂]
      rfl

/-- Reading a filter text gives exactly the answer of the grammar: the items of a text
that is made of items, and the first fault, with the part of the text that it points
at, of any other. -/
theorem parse_eq_iff_reads (text : String) (result : Except FilterError Sexp) :
    parse text = result ↔ Reads text.toList result := by
  constructor
  · rintro rfl
    obtain ⟨result, hreads⟩ := exists_reads text.toList
    rw [parse, read_reads hreads]
    exact hreads
  · exact read_reads

end RuleDesk.Sexp
