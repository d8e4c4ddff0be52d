import RuleDesk.Proofs.Console.Loops

/-!
# Lines one after the other

What a line leaves behind does not depend on what was written before it, so each line can be
carried out with an output of its own. Both loops carry out lines until one of them ends the
run, and these lines are the first ones up to that one.
-/
namespace RuleDesk

namespace Outcome

variable {σ : Type}

/-- The same with a text that was written before. -/
def behind (text : String) (o : Outcome σ) : Outcome σ :=
  { o with out := { o.out with text := text ++ o.out.text } }

/-- Why the line failed, if it did. -/
def failure? (o : Outcome σ) : Option DispatchError :=
  match o.result with
  | .ok () => none
  | .error cause => some cause

theorem ofText_behind (s : σ) (out : Output) (command text : String) :
    ofText s out command text =
      (ofText s { broken := out.broken } command text).behind out.text := by
  unfold ofText Output.write
  by_cases hbroken : (out.broken && !text.isEmpty) = true
  · simp [hbroken, behind]
  · rw [Bool.not_eq_true] at hbroken
    simp [hbroken, behind]

end Outcome

section
variable {σ : Type}

theorem Command.invoke_behind (c : Command σ) (owner : Group σ) (path : String)
    (words : List String) (s : σ) (out : Output) :
    c.invoke owner path words s out =
      (c.invoke owner path words s { broken := out.broken }).bind
        fun o => .done (o.behind out.text) := by
  have hkept (t : σ) (result : Except DispatchError Unit) : (⟨t, out, result⟩ : Outcome σ) =
      Outcome.behind out.text ⟨t, { broken := out.broken }, result⟩ := by
    simp [Outcome.behind]
  unfold Command.invoke
  cases c.signature.bind words with
  | error reason => exact congrArg FileTask.done (hkept _ _)
  | ok args =>
      cases c.action with
      | help => exact congrArg FileTask.done (Outcome.ofText_behind ..)
      | run handler =>
          simp only [FileTask.bind_eq, FileTask.bind_assoc]
          refine FileTask.bind_congr fun r _ => ?_
          cases r.2 with
          | ok text => exact congrArg FileTask.done (Outcome.ofText_behind ..)
          | error cause => exact congrArg FileTask.done (hkept _ _)

theorem Group.dispatchWords_behind (g : Group σ) (above : String) (s : σ) (out : Output)
    (words : List String) :
    g.dispatchWords above s out words =
      (g.dispatchWords above s { broken := out.broken } words).bind
        fun o => .done (o.behind out.text) := by
  induction words generalizing g above with
  | nil => exact congrArg FileTask.done (Outcome.ofText_behind ..)
  | cons word words ih =>
      unfold dispatchWords
      cases g.child? word with
      | none => simp [Outcome.behind]
      | some node =>
          cases node with
          | group name description children => exact ih _ _
          | command c => exact c.invoke_behind ..

end

namespace Session

variable {σ : Type} [RuleStore σ]

/-- A line adds to the output what it writes to an empty one. -/
theorem execute_behind (s : Session σ) (out : Output) (line : String) :
    s.execute out line = (s.execute { broken := out.broken } line).bind
      fun o => .done (o.behind out.text) :=
  Group.dispatchWords_behind ..

/-- Carries out lines one after the other, whatever becomes of them. -/
def executeEach (broken : Bool) (s : Session σ) :
    List String → FileTask (List (Outcome (Session σ)))
  | [] => .done []
  | line :: rest =>
    (s.execute { broken } line).bind fun o =>
      (o.state.executeEach broken rest).bind fun later => .done (o :: later)

/-- Carries out lines until one of them ends the run. -/
def executeUntil (ends : Outcome (Session σ) → Bool) (broken : Bool) (s : Session σ) :
    List String → FileTask (List (Outcome (Session σ)))
  | [] => .done []
  | line :: rest =>
    (s.execute { broken } line).bind fun o =>
      if ends o then .done [o]
      else (o.state.executeUntil ends broken rest).bind fun later => .done (o :: later)

omit [RuleStore σ] in
/-- The session behind lines with these outcomes. -/
def latest (s : Session σ) : List (Outcome (Session σ)) → Session σ
  | [] => s
  | o :: later => o.state.latest later

omit [RuleStore σ] in
/-- What lines with these outcomes have written. -/
def written (outcomes : List (Outcome (Session σ))) : String :=
  String.join (outcomes.map (·.out.text))

/-- Of the lines the first ones have been carried out, up to the last one or to one that ends
the run, and each has an outcome. -/
structure Stopped (ends : Outcome (Session σ) → Bool) (lines ran : List String)
    (outcomes : List (Outcome (Session σ))) : Prop where
  first : ran <+: lines
  length_eq : outcomes.length = ran.length
  goesOn : ∀ o ∈ outcomes.dropLast, ends o = false
  ended : ran = lines ∨ ∃ o, outcomes.getLast? = some o ∧ ends o = true

omit [RuleStore σ] in
theorem Stopped.cons {ends : Outcome (Session σ) → Bool} {lines ran : List String}
    {o : Outcome (Session σ)} {later : List (Outcome (Session σ))}
    (h : Stopped ends lines ran later) (ho : ends o = false) (line : String) :
    Stopped ends (line :: lines) (line :: ran) (o :: later) where
  first := List.cons_prefix_cons.mpr ⟨rfl, h.first⟩
  length_eq := congrArg Nat.succ h.length_eq
  goesOn := by
    cases later with
    | nil => simp
    | cons next later => exact List.forall_mem_cons.mpr ⟨ho, h.goesOn⟩
  ended := by
    rcases h.ended with rfl | ⟨last, hlast, hends⟩
    · exact .inl rfl
    · exact .inr ⟨last, by rw [List.getLast?_cons, hlast]; rfl, hends⟩

/-- In any setting, lines that are carried out until one ends the run are the first ones, one
after the other. The lines behind them make no difference. -/
theorem executeUntil_runIn (ends : Outcome (Session σ) → Bool) (broken : Bool) (s : Session σ)
    (lines : List String) {τ : Type} (setting : FileTask.Setting τ) (w : τ) :
    ∃ ran, Stopped ends lines ran ((s.executeUntil ends broken lines).runIn setting w).1 ∧
      (s.executeEach broken ran).runIn setting w =
        (s.executeUntil ends broken lines).runIn setting w ∧
      (s.executeUntil ends broken ran).runIn setting w =
        (s.executeUntil ends broken lines).runIn setting w := by
  induction lines generalizing s w with
  | nil => exact ⟨[], ⟨List.nil_prefix, rfl, by simp [executeUntil], .inl rfl⟩, rfl, rfl⟩
  | cons line lines ih =>
      simp only [executeUntil]
      rw [FileTask.runIn_bind]
      cases hends : ends ((s.execute { broken } line).runIn setting w).1 with
      | true =>
          rw [if_pos rfl]
          refine ⟨[line], ⟨?_, rfl, by simp, .inr ⟨_, rfl, hends⟩⟩, ?_, ?_⟩
          · exact List.cons_prefix_cons.mpr ⟨rfl, List.nil_prefix⟩
          · simp [executeEach, FileTask.runIn_bind]
          · simp [executeUntil, FileTask.runIn_bind]
      | false =>
          rw [if_neg Bool.false_ne_true, FileTask.runIn_bind]
          obtain ⟨ran, hstopped, hran, hsame⟩ :=
            ih ((s.execute { broken } line).runIn setting w).1.state
              ((s.execute { broken } line).runIn setting w).2
          refine ⟨line :: ran, hstopped.cons hends line, ?_, ?_⟩
          · rw [executeEach, FileTask.runIn_bind, FileTask.runIn_bind, hran]
          · rw [executeUntil, FileTask.runIn_bind, if_neg (by simp [hends]), FileTask.runIn_bind,
              hsame]

end Session
end RuleDesk
