import RuleDesk.Proofs.Filter.Tree

/-!
# How flattened text is put together

The flattened text of an expression comes from its words by four steps: two texts are
joined by a space or by ` OR `, and a text is put between parentheses or behind a minus
sign. Whatever the words have and the steps keep, the whole text has. So its parentheses
are balanced, and cutting it at everything that is no part of a word gives back the words
of the expression.
-/
namespace RuleDesk.Expression

/-- The text is put together from the words, each of the given kind. -/
inductive Composed (word : String → Prop) : List String → String → Prop where
  | word {t : String} : word t → Composed word [t] t
  | space {ws vs : List String} {s t : String} :
      Composed word ws s → Composed word vs t → Composed word (ws ++ vs) (s ++ " " ++ t)
  | or {ws vs : List String} {s t : String} :
      Composed word ws s → Composed word vs t → Composed word (ws ++ vs) (s ++ " OR " ++ t)
  | group {ws : List String} {s : String} :
      Composed word ws s → Composed word ws ("(" ++ s ++ ")")
  | minus {ws : List String} {s : String} :
      Composed word ws s → Composed word ws ("-" ++ s)

section Composed

variable {word : String → Prop}

/-- Texts are joined by a separator one after the other. -/
theorem composed_intercalate {sep : String}
    (hjoin : ∀ {ws vs : List String} {s t : String},
      Composed word ws s → Composed word vs t → Composed word (ws ++ vs) (s ++ sep ++ t))
    {cs : List Expression} (hne : cs ≠ []) {text : Expression → String}
    (hcs : ∀ c ∈ cs, Composed word c.words (text c)) :
    Composed word (cs.flatMap words) (sep.intercalate (cs.map text)) := by
  induction cs with
  | nil => exact absurd rfl hne
  | cons c cs ih =>
      have hc := hcs c (by simp)
      cases cs with
      | nil => simpa using hc
      | cons d cs =>
          have hrest := ih (by simp) fun e he => hcs e (by simp [he])
          simpa using hjoin hc hrest

theorem Composed.wrapped {ws : List String} {s : String} (h : Composed word ws s) (level : Nat) :
    Composed word ws (wrapAt level s) := by
  unfold wrapAt
  split
  · exact h
  · exact .group h

theorem composed_textAt {e : Expression} (he : e.WellFormed word) (level : Nat) :
    Composed word e.words (e.textAt level) := by
  induction he generalizing level with
  | term ht => exact .word ht
  | and hne _ ih =>
      rw [words, wordsOfAll_eq_flatMap, textAt, textsAt_eq_map]
      exact (composed_intercalate .space hne fun c hc => ih c hc (level + 1)).wrapped level
  | or hne _ ih =>
      rw [words, wordsOfAll_eq_flatMap, textAt, textsAt_eq_map]
      exact (composed_intercalate .or hne fun c hc => ih c hc (level + 1)).wrapped level
  | not hne _ ih =>
      rw [words, wordsOfAll_eq_flatMap, textAt, negationsAt_eq_map]
      exact composed_intercalate .space hne fun c hc => .minus (ih c hc (levelBelow level c))

theorem composed_text {e : Expression} (he : e.WellFormed word) :
    Composed word e.words e.text :=
  composed_textAt he 0

end Composed

/-- Every parenthesis that closes has one before it that opens, and none stays open. -/
structure Balanced (s : List Char) : Prop where
  /-- No beginning closes more than it opens. -/
  ahead : ∀ p, p <+: s → p.count ')' ≤ p.count '('
  even : s.count '(' = s.count ')'

section Balanced

variable {s t : List Char}

theorem Balanced.append (hs : Balanced s) (ht : Balanced t) : Balanced (s ++ t) where
  ahead p hp := by
    obtain ⟨rest, hrest⟩ := hp
    rcases List.append_eq_append_iff.mp hrest with ⟨left, rfl, -⟩ | ⟨q, rfl, rfl⟩
    · exact hs.ahead p (List.prefix_append p left)
    · have heven := hs.even
      have hsecond := ht.ahead q (List.prefix_append q rest)
      rw [List.count_append, List.count_append]
      omega
  even := by rw [List.count_append, List.count_append, hs.even, ht.even]

/-- Inside the parentheses one is open all the time. -/
theorem Balanced.wrap (hs : Balanced s) : Balanced ('(' :: s ++ [')']) where
  ahead p hp := by
    have heven := hs.even
    rcases List.prefix_concat_iff.mp hp with rfl | hinner
    · simp [heven]
    · rcases List.prefix_cons_iff.mp hinner with rfl | ⟨q, rfl, hq⟩
      · simp
      · have hahead := hs.ahead q hq
        simp only [List.count_cons]
        simp only [beq_iff_eq, Char.reduceEq, if_false, if_true]
        omega
  even := by simp [hs.even]

theorem balanced_of_plain (hs : ∀ c ∈ s, c ≠ '(' ∧ c ≠ ')') : Balanced s := by
  have hcount : ∀ p, p <+: s → p.count '(' = 0 ∧ p.count ')' = 0 := by
    intro p hp
    exact ⟨List.count_eq_zero.mpr fun hmem => (hs _ (hp.mem hmem)).1 rfl,
      List.count_eq_zero.mpr fun hmem => (hs _ (hp.mem hmem)).2 rfl⟩
  refine ⟨fun p hp => ?_, ?_⟩
  · obtain ⟨hopen, hclose⟩ := hcount p hp
    omega
  · obtain ⟨hopen, hclose⟩ := hcount s List.prefix_rfl
    omega

end Balanced

/-- A character that is no part of a word. -/
def isCut (c : Char) : Bool :=
  isBlank c || c == '(' || c == ')' || c == '-'

/-- A word that no other part of a flattened text can be taken for. -/
def IsSolidWord (w : String) : Prop :=
  w ≠ "" ∧ w ≠ "OR" ∧ ∀ c ∈ w.toList, isCut c = false

instance (w : String) : Decidable (IsSolidWord w) :=
  decidable_of_iff (w ≠ "" ∧ w ≠ "OR" ∧ w.toList.all (!isCut ·) = true) (by simp [IsSolidWord])

/-- The pieces between the characters that are no part of a word, but for the empty ones and
the separator of a disjunction. -/
def wordsBetween (s : List Char) : List String :=
  ((s.splitOnP isCut).map String.ofList).filter fun w => w ≠ "" && w ≠ "OR"

section Words

variable {s t : List Char}

theorem wordsBetween_append {c : Char} (hc : isCut c = true) (s t : List Char) :
    wordsBetween (s ++ c :: t) = wordsBetween s ++ wordsBetween t := by
  simp [wordsBetween, List.splitOnP_append_cons s t hc]

@[simp] theorem wordsBetween_nil : wordsBetween [] = [] := by
  simp [wordsBetween]

theorem wordsBetween_solid {w : String} (hw : IsSolidWord w) : wordsBetween w.toList = [w] := by
  obtain ⟨hne, hor, hsolid⟩ := hw
  simp [wordsBetween, List.splitOnP_eq_singleton hsolid, hne, hor]

theorem wordsBetween_or : wordsBetween "OR".toList = [] := by
  decide

end Words

theorem Composed.balanced {word : String → Prop}
    (hword : ∀ t, word t → ∀ c ∈ t.toList, c ≠ '(' ∧ c ≠ ')') {ws : List String} {s : String}
    (h : Composed word ws s) : Balanced s.toList := by
  induction h with
  | word ht => exact balanced_of_plain (hword _ ht)
  | space _ _ ihs iht =>
      have hspace : Balanced " ".toList := balanced_of_plain (by simp)
      simpa using (ihs.append hspace).append iht
  | or _ _ ihs iht =>
      have hor : Balanced " OR ".toList := balanced_of_plain (by simp)
      simpa using (ihs.append hor).append iht
  | group _ ih => simpa using ih.wrap
  | minus _ ih =>
      have hminus : Balanced "-".toList := balanced_of_plain (by simp)
      simpa using hminus.append ih

theorem Composed.wordsBetween_eq {ws : List String} {s : String} (h : Composed IsSolidWord ws s) :
    wordsBetween s.toList = ws := by
  induction h with
  | word ht => exact wordsBetween_solid ht
  | @space ws vs s t _ _ ihs iht =>
      have hjoined := wordsBetween_append (c := ' ') (by decide) s.toList t.toList
      simpa [ihs, iht] using hjoined
  | @or ws vs s t _ _ ihs iht =>
      have hfirst := wordsBetween_append (c := ' ') (by decide) s.toList
        ("OR".toList ++ ' ' :: t.toList)
      have hsecond := wordsBetween_append (c := ' ') (by decide) "OR".toList t.toList
      rw [hsecond, wordsBetween_or, ihs, iht] at hfirst
      simpa using hfirst
  | @group ws s _ ih =>
      have hopen := wordsBetween_append (c := '(') (by decide) [] (s.toList ++ [')'])
      have hclose := wordsBetween_append (c := ')') (by decide) s.toList []
      rw [hclose, ih] at hopen
      simpa using hopen
  | @minus ws s _ ih =>
      have hminus := wordsBetween_append (c := '-') (by decide) [] s.toList
      simpa [ih] using hminus

/-- The flattened text of an expression over solid words has balanced parentheses, and
cutting it where no word goes on leaves the words of the expression from left to right. -/
theorem text_balanced_with_words (e : Expression) (he : e.WellFormed IsSolidWord) :
    (∀ p, p <+: e.text.toList → p.count ')' ≤ p.count '(') ∧
      e.text.toList.count '(' = e.text.toList.count ')' ∧
      wordsBetween e.text.toList = e.words := by
  have hcomposed := composed_text he
  have hplain : ∀ w, IsSolidWord w → ∀ c ∈ w.toList, c ≠ '(' ∧ c ≠ ')' := by
    intro w hw c hc
    have hsolid := hw.2.2 c hc
    constructor
    · rintro rfl
      cases hsolid
    · rintro rfl
      cases hsolid
  have hbalanced := hcomposed.balanced hplain
  exact ⟨hbalanced.ahead, hbalanced.even, hcomposed.wordsBetween_eq⟩

/-- Stacked negations, of a disjunction and of a single conjunction. -/
theorem text_balanced_with_words_stacked :
    (and [term "news", not [not [or [term "a", and [term "AND", term "b"]], term "\"c"],
        and [term "d"]]]).WellFormed IsSolidWord ∧
      Balanced "news --(a OR (AND b)) -\"c -(d)".toList ∧
      wordsBetween "news --(a OR (AND b)) -\"c -(d)".toList =
        ["news", "a", "AND", "b", "\"c", "d"] := by
  have hwell : (and [term "news", not [not [or [term "a", and [term "AND", term "b"]],
      term "\"c"], and [term "d"]]]).WellFormed IsSolidWord := by
    have hsolid : ∀ w ∈ ["news", "a", "AND", "b", "\"c", "d"], IsSolidWord w := by decide
    simpa [and_assoc] using hsolid
  obtain ⟨hahead, heven, hwords⟩ := text_balanced_with_words _ hwell
  exact ⟨hwell, ⟨hahead, heven⟩, hwords⟩

end RuleDesk.Expression
