import RuleDesk.Text.Blank

/-!
# The search grammar

A query is a sequence of conjunctions joined by ` OR `, a conjunction a sequence
of factors joined by one space, and a factor a word, a factor behind a minus
sign or a query in parentheses. So the space binds tighter than ` OR ` and the
minus sign reaches one factor only.

The grammar is given as the relation between parse trees and texts. Main result:
no text has two parse trees.
-/
namespace RuleDesk

/-- A character of a plain word. -/
def isPlainChar (c : Char) : Bool :=
  !isBlank c && c != '(' && c != ')' && !isQuote c && c != '\\'

/-- A word that the grammar cannot take for anything else. -/
def IsPlainWord (w : String) : Prop :=
  w ≠ "" ∧ (∀ c ∈ w.toList, isPlainChar c = true) ∧ w.toList.head? ≠ some '-' ∧ w ≠ "OR"

instance (w : String) : Decidable (IsPlainWord w) :=
  decidable_of_iff (w ≠ "" ∧ w.toList.all isPlainChar = true ∧ w.toList.head? ≠ some '-' ∧ w ≠ "OR")
    (by simp [IsPlainWord])

inductive Factor where
  | word (text : String)
  | minus (factor : Factor)
  | group (conjunctions : List (List Factor))
deriving Repr

abbrev Conjunction := List Factor

abbrev Query := List Conjunction

mutual

inductive Factor.Parses : Factor → String → Prop where
  | word {w : String} : IsPlainWord w → Factor.Parses (.word w) w
  | minus {f : Factor} {t : String} : Factor.Parses f t → Factor.Parses (.minus f) ("-" ++ t)
  | group {q : Query} {t : String} :
      Query.Parses q t → Factor.Parses (.group q) ("(" ++ t ++ ")")

inductive Conjunction.Parses : Conjunction → String → Prop where
  | one {f : Factor} {t : String} : Factor.Parses f t → Conjunction.Parses [f] t
  | more {f : Factor} {c : Conjunction} {t u : String} :
      Factor.Parses f t → Conjunction.Parses c u → Conjunction.Parses (f :: c) (t ++ " " ++ u)

inductive Query.Parses : Query → String → Prop where
  | one {c : Conjunction} {t : String} : Conjunction.Parses c t → Query.Parses [c] t
  | more {c : Conjunction} {q : Query} {t u : String} :
      Conjunction.Parses c t → Query.Parses q u → Query.Parses (c :: q) (t ++ " OR " ++ u)

end

mutual

/-- The truth of a factor when `v` tells which words hold. -/
def Factor.holds (v : String → Bool) : Factor → Bool
  | .word w => v w
  | .minus f => !f.holds v
  | .group q => Query.holds v q

def Conjunction.holds (v : String → Bool) : List Factor → Bool
  | [] => true
  | f :: rest => f.holds v && Conjunction.holds v rest

def Query.holds (v : String → Bool) : List (List Factor) → Bool
  | [] => false
  | c :: rest => Conjunction.holds v c || Query.holds v rest

end

@[simp] theorem Conjunction.holds_eq_all (v : String → Bool) (c : Conjunction) :
    Conjunction.holds v c = c.all (Factor.holds v) := by
  induction c with
  | nil => rfl
  | cons f c ih => simp [Conjunction.holds, ih]

@[simp] theorem Query.holds_eq_any (v : String → Bool) (q : Query) :
    Query.holds v q = q.any (Conjunction.holds v) := by
  induction q with
  | nil => rfl
  | cons c q ih => simp [Query.holds, ih]

/-- A factor ends at the end of the text, at a space or at a closing parenthesis. -/
def EndsFactor (rest : List Char) : Prop :=
  ∀ c ∈ rest.head?, c = ' ' ∨ c = ')'

/-- A conjunction ends at the end of the text, at a closing parenthesis or at an ` OR `. -/
def EndsConjunction (rest : List Char) : Prop :=
  (∀ c ∈ rest.head?, c = ')') ∨ ∃ more, rest = ' ' :: 'O' :: 'R' :: ' ' :: more

/-- A query ends at the end of the text or at a closing parenthesis. -/
def EndsQuery (rest : List Char) : Prop :=
  ∀ c ∈ rest.head?, c = ')'

theorem EndsQuery.endsConjunction {rest : List Char} (h : EndsQuery rest) :
    EndsConjunction rest := .inl h

theorem EndsConjunction.endsFactor {rest : List Char} (h : EndsConjunction rest) :
    EndsFactor rest := by
  rcases h with h | ⟨more, rfl⟩
  · exact fun c hc => .inr (h c hc)
  · simp [EndsFactor]

theorem endsFactor_space (rest : List Char) : EndsFactor (' ' :: rest) := by
  simp [EndsFactor]

theorem endsConjunction_or (rest : List Char) :
    EndsConjunction (' ' :: 'O' :: 'R' :: ' ' :: rest) := .inr ⟨rest, rfl⟩

theorem endsQuery_close (rest : List Char) : EndsQuery (')' :: rest) := by
  simp [EndsQuery]

/-- Two words with a factor's end behind each are equal when the whole texts are. -/
theorem plain_append_cancel {w u r s : List Char} (hw : ∀ c ∈ w, isPlainChar c = true)
    (hu : ∀ c ∈ u, isPlainChar c = true) (hr : EndsFactor r) (hs : EndsFactor s)
    (h : w ++ r = u ++ s) : w = u ∧ r = s := by
  have stop : ∀ {rest : List Char}, EndsFactor rest → rest.takeWhile isPlainChar = [] := by
    intro rest hrest
    cases rest with
    | nil => rfl
    | cons c rest =>
        have hc : isPlainChar c = false := by
          rcases hrest c rfl with rfl | rfl <;> decide
        simp [hc]
  have hword : w = u := by
    have htake := congrArg (List.takeWhile isPlainChar) h
    rwa [List.takeWhile_append_of_pos hw, List.takeWhile_append_of_pos hu, stop hr, stop hs,
      List.append_nil, List.append_nil] at htake
  subst hword
  exact ⟨rfl, List.append_cancel_left h⟩

/-- A plain word begins with a character that begins no other kind of factor. -/
theorem IsPlainWord.head {w : String} (hw : IsPlainWord w) :
    ∃ c rest, w.toList = c :: rest ∧ c ≠ '-' ∧ c ≠ '(' := by
  obtain ⟨hne, hplain, hminus, -⟩ := hw
  cases hlist : w.toList with
  | nil => exact absurd (by simpa using hlist) hne
  | cons c rest =>
      have hc : isPlainChar c = true := hplain c (by simp [hlist])
      refine ⟨c, rest, rfl, ?_, ?_⟩
      · rintro rfl
        simp [hlist] at hminus
      · rintro rfl
        exact absurd hc (by decide)

/-- The first factor of a conjunction is never cut off as an `OR`. -/
theorem Factor.Parses.ne_or {f : Factor} {t : String} (hf : f.Parses t) {rest more : List Char}
    (hrest : EndsFactor rest) : t.toList ++ rest ≠ 'O' :: 'R' :: ' ' :: more := by
  intro h
  cases hf with
  | word hw =>
      have hor := plain_append_cancel (u := ['O', 'R']) hw.2.1
        (List.all_eq_true.mp (by decide)) hrest
        (endsFactor_space more) h
      exact hw.2.2.2 (String.toList_injective hor.1)
  | minus _ => simp [String.toList_append] at h
  | group _ => simp [String.toList_append] at h

theorem Conjunction.Parses.ne_or {c : Conjunction} {t : String} (hc : Conjunction.Parses c t)
    {rest more : List Char} (hrest : EndsConjunction rest) :
    t.toList ++ rest ≠ 'O' :: 'R' :: ' ' :: more := by
  cases hc with
  | one hf => exact hf.ne_or hrest.endsFactor
  | more hf _ =>
      simp only [String.toList_append, List.append_assoc]
      exact hf.ne_or (endsFactor_space _)

mutual

/-- Parse trees of equal texts are equal, whatever follows the texts. -/
theorem Factor.Parses.cancel {f g : Factor} {t u : String} (hf : f.Parses t) (hg : g.Parses u)
    {r s : List Char} (hr : EndsFactor r) (hs : EndsFactor s)
    (h : t.toList ++ r = u.toList ++ s) : f = g ∧ r = s := by
  match hf, hg with
  | .word hw, .word hu =>
      obtain ⟨hword, hrest⟩ := plain_append_cancel hw.2.1 hu.2.1 hr hs h
      exact ⟨congrArg Factor.word (String.toList_injective hword), hrest⟩
  | .word hw, .minus _ | .word hw, .group _ =>
      obtain ⟨c, rest, hlist, hminus, hopen⟩ := hw.head
      simp [hlist, String.toList_append, hminus, hopen] at h
  | .minus _, .word hu | .group _, .word hu =>
      obtain ⟨c, rest, hlist, hminus, hopen⟩ := hu.head
      simp [hlist, String.toList_append, hminus.symm, hopen.symm] at h
  | .minus _, .group _ | .group _, .minus _ => simp [String.toList_append] at h
  | .minus hf, .minus hg =>
      have hinner := Factor.Parses.cancel hf hg hr hs (by simpa [String.toList_append] using h)
      exact ⟨congrArg Factor.minus hinner.1, hinner.2⟩
  | .group hp, .group hq =>
      have hinner := Query.Parses.cancel hp hq (endsQuery_close r) (endsQuery_close s)
        (by simpa [String.toList_append] using h)
      exact ⟨congrArg Factor.group hinner.1, by simpa using hinner.2⟩

theorem Conjunction.Parses.cancel {c d : Conjunction} {t u : String}
    (hc : Conjunction.Parses c t) (hd : Conjunction.Parses d u) {r s : List Char}
    (hr : EndsConjunction r) (hs : EndsConjunction s) (h : t.toList ++ r = u.toList ++ s) :
    c = d ∧ r = s := by
  match hc, hd with
  | .one hf, .one hg =>
      obtain ⟨rfl, hrest⟩ := Factor.Parses.cancel hf hg hr.endsFactor hs.endsFactor h
      exact ⟨rfl, hrest⟩
  | .one hf, .more hg hd =>
      -- the space behind the first factor would have to begin an `OR`
      simp only [String.toList_append, List.append_assoc] at h
      obtain ⟨-, hrest⟩ := Factor.Parses.cancel hf hg hr.endsFactor (endsFactor_space _) h
      rcases hr with hr | ⟨more, rfl⟩
      · simp [hrest] at hr
      · exact absurd (by simpa using hrest.symm) (hd.ne_or hs)
  | .more hf hc, .one hg =>
      simp only [String.toList_append, List.append_assoc] at h
      obtain ⟨-, hrest⟩ := Factor.Parses.cancel hf hg (endsFactor_space _) hs.endsFactor h
      rcases hs with hs | ⟨more, rfl⟩
      · simp [← hrest] at hs
      · exact absurd (by simpa using hrest) (hc.ne_or hr)
  | .more hf hc, .more hg hd =>
      simp only [String.toList_append, List.append_assoc] at h
      obtain ⟨rfl, hrest⟩ :=
        Factor.Parses.cancel hf hg (endsFactor_space _) (endsFactor_space _) h
      obtain ⟨rfl, hend⟩ := Conjunction.Parses.cancel hc hd hr hs (by simpa using hrest)
      exact ⟨rfl, hend⟩

theorem Query.Parses.cancel {p q : Query} {t u : String} (hp : Query.Parses p t)
    (hq : Query.Parses q u) {r s : List Char} (hr : EndsQuery r) (hs : EndsQuery s)
    (h : t.toList ++ r = u.toList ++ s) : p = q ∧ r = s := by
  match hp, hq with
  | .one hc, .one hd =>
      obtain ⟨rfl, hrest⟩ :=
        Conjunction.Parses.cancel hc hd hr.endsConjunction hs.endsConjunction h
      exact ⟨rfl, hrest⟩
  | .one hc, .more hd _ =>
      simp only [String.toList_append, List.append_assoc] at h
      obtain ⟨-, hrest⟩ :=
        Conjunction.Parses.cancel hc hd hr.endsConjunction (endsConjunction_or _) h
      simp [hrest, EndsQuery] at hr
  | .more hc _, .one hd =>
      simp only [String.toList_append, List.append_assoc] at h
      obtain ⟨-, hrest⟩ :=
        Conjunction.Parses.cancel hc hd (endsConjunction_or _) hs.endsConjunction h
      simp [← hrest, EndsQuery] at hs
  | .more hc hp, .more hd hq =>
      simp only [String.toList_append, List.append_assoc] at h
      obtain ⟨rfl, hrest⟩ :=
        Conjunction.Parses.cancel hc hd (endsConjunction_or _) (endsConjunction_or _) h
      obtain ⟨rfl, hend⟩ := Query.Parses.cancel hp hq hr hs (by simpa using hrest)
      exact ⟨rfl, hend⟩

end

theorem Query.Parses.unique {p q : Query} {t : String} (hp : Query.Parses p t)
    (hq : Query.Parses q t) : p = q :=
  (hp.cancel hq (r := []) (s := []) (by simp [EndsQuery]) (by simp [EndsQuery]) rfl).1

mutual

theorem Factor.Parses.text_unique {f : Factor} {t u : String} (ht : f.Parses t)
    (hu : f.Parses u) : t = u := by
  match ht, hu with
  | .word _, .word _ => rfl
  | .minus ht, .minus hu => rw [Factor.Parses.text_unique ht hu]
  | .group ht, .group hu => rw [Query.Parses.text_unique ht hu]

theorem Conjunction.Parses.text_unique {c : Conjunction} {t u : String}
    (ht : Conjunction.Parses c t) (hu : Conjunction.Parses c u) : t = u := by
  match ht, hu with
  | .one ht, .one hu => exact Factor.Parses.text_unique ht hu
  | .more ht htail, .more hu hutail =>
      rw [Factor.Parses.text_unique ht hu, Conjunction.Parses.text_unique htail hutail]

theorem Query.Parses.text_unique {q : Query} {t u : String} (ht : Query.Parses q t)
    (hu : Query.Parses q u) : t = u := by
  match ht, hu with
  | .one ht, .one hu => exact Conjunction.Parses.text_unique ht hu
  | .more ht htail, .more hu hutail =>
      rw [Conjunction.Parses.text_unique ht hu, Query.Parses.text_unique htail hutail]

end

end RuleDesk
