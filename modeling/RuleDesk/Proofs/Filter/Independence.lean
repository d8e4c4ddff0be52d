import Mathlib.Data.List.Nodup
import RuleDesk.Proofs.Filter.Meaning

/-!
# Expressions without repeated words

If no word occurs twice, the truth of a node can be steered at will, and so can
the truth of what is written of it, independently of its siblings. Hence such an
expression is written as what it means only if it is faithful.
-/
namespace RuleDesk.Expression

/-- A truth that depends on the given words only and takes both values. -/
structure Varies (ws : List String) (f : (String → Bool) → Bool) : Prop where
  congr : ∀ v u : String → Bool, (∀ w ∈ ws, v w = u w) → f v = f u
  attains : ∀ b, ∃ v, f v = b

/-- One assignment on the given words and another one elsewhere. -/
def splice (ws : List String) (v u : String → Bool) : String → Bool :=
  fun w => if w ∈ ws then v w else u w

namespace Varies

variable {ws us : List String} {f f' g g' : (String → Bool) → Bool}

theorem splice_left (hf : Varies ws f) (v u : String → Bool) : f (splice ws v u) = f v :=
  hf.congr _ _ fun _ hw => if_pos hw

theorem splice_right (hg : Varies us g) (hdis : List.Disjoint ws us) (v u : String → Bool) :
    g (splice ws v u) = g u :=
  hg.congr _ _ fun _ hw => if_neg fun hws => hdis hws hw

theorem not (hf : Varies ws f) : Varies ws fun v => !f v where
  congr v u h := by rw [hf.congr v u h]
  attains b := by
    obtain ⟨v, hv⟩ := hf.attains (!b)
    exact ⟨v, by simp [hv]⟩

theorem xor (hf : Varies ws f) (b : Bool) : Varies ws fun v => b ^^ f v := by
  cases b with
  | false => simpa using hf
  | true => simpa using hf.not

theorem and (hf : Varies ws f) (hg : Varies us g) (hdis : List.Disjoint ws us) :
    Varies (ws ++ us) fun v => f v && g v where
  congr v u h := by
    rw [hf.congr v u fun w hw => h w (by simp [hw]), hg.congr v u fun w hw => h w (by simp [hw])]
  attains b := by
    obtain ⟨v, hv⟩ := hf.attains b
    obtain ⟨u, hu⟩ := hg.attains true
    exact ⟨splice ws v u, by rw [hf.splice_left, hg.splice_right hdis, hv, hu, Bool.and_true]⟩

/-- Independent conjunctions are equal only if their left sides are: where these
differ, the right side can be made true on the side that holds. -/
theorem and_cancel_left (hf : Varies ws f) (hf' : Varies ws f') (hg : Varies us g)
    (hg' : Varies us g') (hdis : List.Disjoint ws us)
    (h : ∀ v, (f v && g v) = (f' v && g' v)) (v : String → Bool) : f v = f' v := by
  cases hv : f v with
  | true =>
      obtain ⟨u, hu⟩ := hg.attains true
      have hboth := h (splice ws v u)
      rw [hf.splice_left, hf'.splice_left, hg.splice_right hdis, hv, hu] at hboth
      simp only [Bool.and_self, Bool.true_eq, Bool.and_eq_true] at hboth
      exact hboth.1.symm
  | false =>
      cases hv' : f' v with
      | false => rfl
      | true =>
          obtain ⟨u, hu⟩ := hg'.attains true
          have hboth := h (splice ws v u)
          rw [hf.splice_left, hf'.splice_left, hg'.splice_right hdis, hv, hv', hu] at hboth
          simp at hboth

theorem and_cancel_right (hf : Varies ws f) (hf' : Varies ws f') (hg : Varies us g)
    (hg' : Varies us g') (hdis : List.Disjoint ws us)
    (h : ∀ v, (f v && g v) = (f' v && g' v)) (v : String → Bool) : g v = g' v :=
  hg.and_cancel_left hg' hf hf' (fun _ hw hu => hdis hu hw)
    (fun u => by simpa [Bool.and_comm] using h u) v

end Varies

section Children

variable {cs : List Expression} {f g : Expression → (String → Bool) → Bool}

theorem varies_all (hne : cs ≠ []) (hwords : (cs.flatMap words).Nodup)
    (hf : ∀ c ∈ cs, Varies c.words (f c)) :
    Varies (cs.flatMap words) fun v => cs.all fun c => f c v := by
  induction cs with
  | nil => exact absurd rfl hne
  | cons c cs ih =>
      have hc := hf c (by simp)
      cases cs with
      | nil => simpa using hc
      | cons d cs =>
          rw [List.flatMap_cons] at hwords
          have hrest := ih (by simp) hwords.of_append_right fun e he => hf e (by simp [he])
          have hboth := hc.and hrest hwords.disjoint
          rw [List.flatMap_cons]
          exact hboth

theorem varies_any (hne : cs ≠ []) (hwords : (cs.flatMap words).Nodup)
    (hf : ∀ c ∈ cs, Varies c.words (f c)) :
    Varies (cs.flatMap words) fun v => cs.any fun c => f c v := by
  have hall := (varies_all hne hwords fun c hc => (hf c hc).not).not
  simpa [List.not_all_eq_any_not] using hall

/-- Conjunctions of independent children are equal only child by child. -/
theorem all_cancel (hwords : (cs.flatMap words).Nodup) (hf : ∀ c ∈ cs, Varies c.words (f c))
    (hg : ∀ c ∈ cs, Varies c.words (g c))
    (h : ∀ v, (cs.all fun c => f c v) = cs.all fun c => g c v) :
    ∀ c ∈ cs, ∀ v, f c v = g c v := by
  induction cs with
  | nil => simp
  | cons c cs ih =>
      cases cs with
      | nil => simpa using h
      | cons d cs =>
          rw [List.flatMap_cons] at hwords
          have hf' := varies_all (by simp) hwords.of_append_right fun e he => hf e (by simp [he])
          have hg' := varies_all (by simp) hwords.of_append_right fun e he => hg e (by simp [he])
          have hc := hf c (by simp)
          have hc' := hg c (by simp)
          intro e he
          rcases List.mem_cons.mp he with rfl | he
          · exact hc.and_cancel_left hc' hf' hg' hwords.disjoint h
          · exact ih hwords.of_append_right (fun e he => hf e (by simp [he]))
              (fun e he => hg e (by simp [he]))
              (hc.and_cancel_right hc' hf' hg' hwords.disjoint h) e he

theorem any_cancel (hwords : (cs.flatMap words).Nodup) (hf : ∀ c ∈ cs, Varies c.words (f c))
    (hg : ∀ c ∈ cs, Varies c.words (g c))
    (h : ∀ v, (cs.any fun c => f c v) = cs.any fun c => g c v) :
    ∀ c ∈ cs, ∀ v, f c v = g c v := by
  have hall := all_cancel hwords (fun c hc => (hf c hc).not) (fun c hc => (hg c hc).not)
    fun v => by rw [← List.not_any_eq_all_not, ← List.not_any_eq_all_not, h v]
  intro c hc v
  simpa using hall c hc v

end Children

/-- A child of a node without repeated words has none either. -/
theorem nodup_words_of_mem {cs : List Expression} (hwords : (cs.flatMap words).Nodup)
    {c : Expression} (hc : c ∈ cs) : c.words.Nodup := by
  obtain ⟨before, after, rfl⟩ := List.append_of_mem hc
  rw [List.flatMap_append, List.flatMap_cons] at hwords
  exact hwords.of_append_right.of_append_left

section Steering

variable {word : String → Prop} {e : Expression}

theorem holds_varies (he : e.WellFormed word) (hwords : e.words.Nodup) :
    Varies e.words fun v => e.holds v := by
  induction he with
  | @term t _ =>
      exact ⟨fun v u h => h t (by simp [words]), fun b => ⟨fun _ => b, rfl⟩⟩
  | @and cs hne _ ih =>
      rw [words, wordsOfAll_eq_flatMap] at hwords ⊢
      have hcs := varies_all hne hwords fun c hc => ih c hc (nodup_words_of_mem hwords hc)
      simpa using hcs
  | @or cs hne _ ih =>
      rw [words, wordsOfAll_eq_flatMap] at hwords ⊢
      have hcs := varies_any hne hwords fun c hc => ih c hc (nodup_words_of_mem hwords hc)
      simpa using hcs
  | @not cs hne _ ih =>
      rw [words, wordsOfAll_eq_flatMap] at hwords ⊢
      have hcs := varies_all hne hwords fun c hc => (ih c hc (nodup_words_of_mem hwords hc)).not
      simpa using hcs

/-- What is written of a node can be steered too, also where it is not what the node
means. -/
theorem said_varies (he : e.WellFormed word) (hwords : e.words.Nodup) (negated : Bool)
    {level : Nat} (hlevel : IsConjunct level e) :
    Varies e.words fun v => e.said v negated level := by
  induction he generalizing negated level with
  | @term t _ =>
      refine ⟨fun v u h => ?_, fun b => ⟨fun _ => negated ^^ b, by simp⟩⟩
      rw [said_term, said_term, h t (by simp [words])]
  | @and cs hne _ ih =>
      rw [words, wordsOfAll_eq_flatMap] at hwords ⊢
      have hcs : ∀ negated level, ∀ c ∈ cs, Varies c.words fun v => c.said v negated (level + 1) :=
        fun negated level c hc =>
          ih c hc (nodup_words_of_mem hwords hc) negated (isConjunct_succ level c)
      cases level with
      | zero =>
          obtain ⟨c, rfl⟩ := hlevel.and_singleton hne
          simpa [said_and_zero] using hcs negated 0 c (by simp)
      | succ level =>
          have hgroup := (varies_all hne hwords (hcs false (level + 1))).xor negated
          simpa only [said_and_succ] using hgroup
  | @or cs hne _ ih =>
      rw [words, wordsOfAll_eq_flatMap] at hwords ⊢
      have hcs : ∀ negated level, ∀ c ∈ cs, Varies c.words fun v => c.said v negated (level + 1) :=
        fun negated level c hc =>
          ih c hc (nodup_words_of_mem hwords hc) negated (isConjunct_succ level c)
      cases level with
      | zero =>
          obtain ⟨c, rfl⟩ := hlevel.or_singleton hne
          simpa [said_or_zero] using hcs negated 0 c (by simp)
      | succ level =>
          have hgroup := (varies_any hne hwords (hcs false (level + 1))).xor negated
          simpa only [said_or_succ] using hgroup
  | @not cs hne hcs ih =>
      rw [words, wordsOfAll_eq_flatMap] at hwords ⊢
      have hsaid : ∀ negated, ∀ c ∈ cs,
          Varies c.words fun v => c.said v negated (levelBelow level c) := fun negated c hc =>
        ih c hc (nodup_words_of_mem hwords hc) negated (isConjunct_levelBelow level c)
      cases negated with
      | false => simpa only [said_not] using varies_all hne hwords (hsaid true)
      | true =>
          obtain ⟨c, rest, rfl⟩ := List.exists_cons_of_ne_nil hne
          simp only [said_not_negated _ level (hcs c (by simp))]
          have hc := hsaid false c (by simp)
          cases rest with
          | nil => simpa using hc
          | cons d rest =>
              rw [List.flatMap_cons] at hwords ⊢
              have hrest := varies_all (by simp) hwords.of_append_right
                fun e he => hsaid true e (by simp [he])
              exact hc.and hrest hwords.disjoint

/-- Behind a minus sign a wide negation never means what is written: its first child can
be true while what is written of the others fails. -/
theorem said_wide_negation_ne {c d : Expression} {rest : List Expression}
    (hcs : ∀ e ∈ c :: d :: rest, e.WellFormed word)
    (hwords : ((c :: d :: rest).flatMap words).Nodup) (level : Nat) :
    ∃ v, (not (c :: d :: rest)).said v true level ≠ !(not (c :: d :: rest)).holds v := by
  rw [List.flatMap_cons] at hwords
  have htail : Varies ((d :: rest).flatMap words) fun v =>
      (d :: rest).all fun e => e.said v true (levelBelow level e) :=
    varies_all (by simp) hwords.of_append_right fun e he =>
      said_varies (hcs e (by simp only [List.mem_cons] at he ⊢; exact .inr he))
        (nodup_words_of_mem hwords.of_append_right he) true (isConjunct_levelBelow level e)
  have hhead := holds_varies (hcs c (by simp)) hwords.of_append_left
  obtain ⟨v, hv⟩ := hhead.attains true
  obtain ⟨u, hu⟩ := htail.attains false
  refine ⟨splice c.words v u, ?_⟩
  have hsaid := htail.splice_right hwords.disjoint v u
  have hholds := hhead.splice_left v u
  rw [said_not_negated _ level (hcs c (by simp)), hsaid, hu, holds_not, List.all_cons, hholds, hv]
  simp

/-- Children that together are read as what they mean are so one by one. -/
theorem said_eq_holds_of_all {cs : List Expression} (hcs : ∀ c ∈ cs, c.WellFormed word)
    (hwords : (cs.flatMap words).Nodup) (level : Nat)
    (h : ∀ v, (cs.all fun c => c.said v false (level + 1)) = cs.all (holds v)) :
    ∀ c ∈ cs, ∀ v, c.said v false (level + 1) = c.holds v := by
  have hsaid : ∀ c ∈ cs, Varies c.words fun v => c.said v false (level + 1) := fun c hc =>
    said_varies (hcs c hc) (nodup_words_of_mem hwords hc) false (isConjunct_succ level c)
  have hholds : ∀ c ∈ cs, Varies c.words fun v => c.holds v := fun c hc =>
    holds_varies (hcs c hc) (nodup_words_of_mem hwords hc)
  exact all_cancel hwords hsaid hholds h

theorem said_eq_holds_of_any {cs : List Expression} (hcs : ∀ c ∈ cs, c.WellFormed word)
    (hwords : (cs.flatMap words).Nodup) (level : Nat)
    (h : ∀ v, (cs.any fun c => c.said v false (level + 1)) = cs.any (holds v)) :
    ∀ c ∈ cs, ∀ v, c.said v false (level + 1) = c.holds v := by
  have hsaid : ∀ c ∈ cs, Varies c.words fun v => c.said v false (level + 1) := fun c hc =>
    said_varies (hcs c hc) (nodup_words_of_mem hwords hc) false (isConjunct_succ level c)
  have hholds : ∀ c ∈ cs, Varies c.words fun v => c.holds v := fun c hc =>
    holds_varies (hcs c hc) (nodup_words_of_mem hwords hc)
  exact any_cancel hwords hsaid hholds h

/-- Without repeated words only a faithful node is written as what it means. -/
theorem faithful_of_said (he : e.WellFormed word) (hwords : e.words.Nodup) {negated : Bool}
    {level : Nat} (hlevel : IsConjunct level e)
    (h : ∀ v, e.said v negated level = (negated ^^ e.holds v)) :
    e.faithful negated level = true := by
  induction he generalizing negated level with
  | term _ => rfl
  | @and cs hne hcs ih =>
      rw [words, wordsOfAll_eq_flatMap] at hwords
      rw [faithful, allFaithful_iff]
      intro c hc
      cases level with
      | zero =>
          obtain ⟨d, rfl⟩ := hlevel.and_singleton hne
          obtain rfl : c = d := by simpa using hc
          refine ih c hc (nodup_words_of_mem hwords hc) (isConjunct_succ 0 c) fun v => ?_
          simpa [said_and_zero] using h v
      | succ level =>
          refine ih c hc (nodup_words_of_mem hwords hc) (isConjunct_succ _ c) fun v => ?_
          have hread := said_eq_holds_of_all hcs hwords (level + 1)
            (fun v => by simpa [said_and_succ] using h v) c hc v
          simpa using hread
  | @or cs hne hcs ih =>
      rw [words, wordsOfAll_eq_flatMap] at hwords
      rw [faithful, allFaithful_iff]
      intro c hc
      cases level with
      | zero =>
          obtain ⟨d, rfl⟩ := hlevel.or_singleton hne
          obtain rfl : c = d := by simpa using hc
          refine ih c hc (nodup_words_of_mem hwords hc) (isConjunct_succ 0 c) fun v => ?_
          simpa [said_or_zero] using h v
      | succ level =>
          refine ih c hc (nodup_words_of_mem hwords hc) (isConjunct_succ _ c) fun v => ?_
          have hread := said_eq_holds_of_any hcs hwords (level + 1)
            (fun v => by simpa [said_or_succ] using h v) c hc v
          simpa using hread
  | @not cs hne hcs ih =>
      rw [words, wordsOfAll_eq_flatMap] at hwords
      rw [faithful, Bool.and_eq_true, negationsFaithful_iff]
      cases negated with
      | false =>
          refine ⟨rfl, fun c hc => ?_⟩
          refine ih c hc (nodup_words_of_mem hwords hc) (isConjunct_levelBelow level c) fun v => ?_
          -- behind the minus signs the children are read against what they mean
          have hread := all_cancel hwords
            (fun d hd => said_varies (hcs d hd) (nodup_words_of_mem hwords hd) true
              (isConjunct_levelBelow level d))
            (fun d hd => (holds_varies (hcs d hd) (nodup_words_of_mem hwords hd)).not)
            (fun v => by simpa [said_not] using h v) c hc v
          simpa using hread
      | true =>
          rcases cs with _ | ⟨c, _ | ⟨d, rest⟩⟩
          · exact absurd rfl hne
          · refine ⟨rfl, fun d hd => ?_⟩
            obtain rfl : d = c := by simpa using hd
            refine ih d hd (nodup_words_of_mem hwords hd) (isConjunct_levelBelow level d)
              fun v => ?_
            have hread := h v
            rw [said_not_negated _ level (hcs d hd)] at hread
            simpa using hread
          · -- here the sign reaches the first child only, and the others can tell
            obtain ⟨v, hv⟩ := said_wide_negation_ne hcs hwords level
            exact absurd (by simpa using h v) hv

theorem faithful_of_asQuery {e : Expression} (he : e.WellFormed IsPlainWord)
    (hwords : e.words.Nodup) (h : ∀ v, Query.holds v e.asQuery = e.holds v) :
    e.faithful false 0 = true := by
  have children : ∀ {cs : List Expression}, (∀ c ∈ cs, c.WellFormed IsPlainWord) →
      (cs.flatMap words).Nodup → (∀ c ∈ cs, ∀ v, c.said v false 1 = c.holds v) →
      allFaithful false 1 cs = true := by
    intro cs hcs hwords hsaid
    rw [allFaithful_iff]
    intro c hc
    refine faithful_of_said (hcs c hc) (nodup_words_of_mem hwords hc) (isConjunct_succ 0 c) ?_
    intro v
    rw [hsaid c hc v, Bool.false_xor]
  cases he with
  | term _ => rfl
  | @and cs hne hcs =>
      rw [words, wordsOfAll_eq_flatMap] at hwords
      refine children hcs hwords (said_eq_holds_of_all hcs hwords 0 fun v => ?_)
      rw [← all_factorsOfAll, ← holds_and, ← h v]
      simp [asQuery, factors]
  | @or cs hne hcs =>
      rw [words, wordsOfAll_eq_flatMap] at hwords
      refine children hcs hwords (said_eq_holds_of_any hcs hwords 0 fun v => ?_)
      rw [← any_arms, ← holds_or, ← h v]
      simp [asQuery]
  | @not cs hne hcs =>
      refine faithful_of_said (.not hne hcs) hwords (fun _ => rfl) fun v => ?_
      rw [Bool.false_xor, ← h v]
      simp [asQuery, said, written]

end Steering

end RuleDesk.Expression
