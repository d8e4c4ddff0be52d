import RuleDesk.Proofs.Console.Transcript

/-!
# Scripts

A script carries out its lines that are neither blank nor a comment, trimmed and in order, up
to the one that ends it: one that fails, unless the script goes on after failures, or one that
stops the session. Its result and its reports count lines from the first one of the list, with
those that are passed over.
-/
namespace RuleDesk

namespace Script

/-- The lines that a script does not pass over, trimmed, each with its number. -/
def effective (number : Nat) (lines : List String) : List (String × Nat) :=
  ((lines.map Text.trim).zipIdx number).filter fun (line, _) => !isSkipped line

theorem effective_of_skipped {line : String} (h : isSkipped (Text.trim line) = true)
    (number : Nat) (rest : List String) :
    effective number (line :: rest) = effective (number + 1) rest := by
  simp [effective, List.zipIdx_cons, h]

theorem effective_of_not_skipped {line : String} (h : isSkipped (Text.trim line) = false)
    (number : Nat) (rest : List String) :
    effective number (line :: rest) = (Text.trim line, number) :: effective (number + 1) rest := by
  simp [effective, List.zipIdx_cons, h]

/-- Lines behind others have numbers that go on from those. -/
theorem effective_add (passed number : Nat) (lines : List String) :
    effective (passed + number) lines =
      (effective number lines).map fun (line, n) => (line, passed + n) := by
  induction lines generalizing number with
  | nil => rfl
  | cons line rest ih =>
      cases hline : isSkipped (Text.trim line) with
      | true => rw [effective_of_skipped hline, effective_of_skipped hline, Nat.add_assoc, ih]
      | false =>
          rw [effective_of_not_skipped hline, effective_of_not_skipped hline, Nat.add_assoc, ih,
            List.map_cons]

end Script

/-- The failure of the line that is so many lines further down. -/
def ScriptError.moved (passed : Nat) (e : ScriptError) : ScriptError :=
  { e with line := passed + e.line }

/-- With one more line that has this outcome. -/
def ScriptSummary.counted {σ : Type} (summary : ScriptSummary) (o : Outcome (Session σ)) :
    ScriptSummary :=
  ⟨summary.executed + 1, summary.failed + o.failure?.toList.length⟩

namespace Script

variable {σ : Type}

/-- Whether a script ends with a line. -/
def ends (keepGoing : Bool) (o : Outcome (Session σ)) : Bool :=
  !o.state.running || (!keepGoing && o.failure?.isSome)

/-- The failure of a numbered line with its outcome. -/
def failure? (carriedOut : (String × Nat) × Outcome (Session σ)) : Option ScriptError :=
  carriedOut.2.failure?.map (⟨carriedOut.1.2, ·⟩)

/-- The failures of the first of the numbered lines, which have these outcomes. -/
def failures (numbered : List (String × Nat)) (outcomes : List (Outcome (Session σ))) :
    List ScriptError :=
  (numbered.zip outcomes).filterMap failure?

/-- What the error stream shows of failures. -/
def reports (colored : Bool) (failures : List ScriptError) : String :=
  String.join (failures.map fun e => reportLine colored e.message)

@[simp] theorem failures_nil (numbered : List (String × Nat)) :
    failures numbered ([] : List (Outcome (Session σ))) = [] := by
  simp [failures]

theorem failures_cons (line : String) (number : Nat) (numbered : List (String × Nat))
    (o : Outcome (Session σ)) (later : List (Outcome (Session σ))) :
    failures ((line, number) :: numbered) (o :: later) =
      (o.failure?.map (⟨number, ·⟩)).toList ++ failures numbered later := by
  rw [failures, List.zip_cons_cons, List.filterMap_cons, failure?]
  cases o.failure? <;> rfl

theorem failures_moved (passed : Nat) (numbered : List (String × Nat))
    (outcomes : List (Outcome (Session σ))) :
    failures (numbered.map fun (line, n) => (line, passed + n)) outcomes =
      (failures numbered outcomes).map (·.moved passed) := by
  rw [failures, List.zip_map_left, List.filterMap_map, failures, List.map_filterMap]
  refine List.filterMap_congr fun carriedOut _ => ?_
  rw [failure?, Option.map_map]
  rfl

/-- What a script leaves that has gone on with these outcomes. -/
def report (keepGoing colored : Bool) (summary : ScriptSummary) (s : Session σ) (out : Output)
    (errors : String) (numbered : List (String × Nat)) (outcomes : List (Outcome (Session σ))) :
    Run σ (Except ScriptError ScriptSummary) where
  session := s.latest outcomes
  out := { out with text := out.text ++ Session.written outcomes }
  errors := if keepGoing then errors ++ reports colored (failures numbered outcomes) else errors
  result := match if keepGoing then none else (failures numbered outcomes).head? with
    | some e => .error e
    | none => .ok ⟨summary.executed + outcomes.length,
        summary.failed + (failures numbered outcomes).length⟩

section
variable {keepGoing colored : Bool} {summary : ScriptSummary} {s : Session σ} {out : Output}
  {errors line : String} {number : Nat} {numbered : List (String × Nat)} {o : Outcome (Session σ)}
  {later : List (Outcome (Session σ))}

theorem report_nil :
    report keepGoing colored summary s out errors numbered [] = ⟨s, out, errors, .ok summary⟩ := by
  cases keepGoing <;> simp [report, reports, Session.latest, Session.written]

/-- Outcomes that are not there are not reported on. -/
theorem report_first :
    report keepGoing colored summary s out errors ((line, number) :: numbered) [o] =
      report keepGoing colored summary s out errors [(line, number)] [o] := by
  simp [report, failures_cons]

/-- A line that does not end the script is counted and its failure reported. -/
theorem report_cons (h : ends keepGoing o = false) :
    report keepGoing colored summary s out errors ((line, number) :: numbered) (o :: later) =
      let r := report keepGoing colored summary s out errors [(line, number)] [o]
      report keepGoing colored (summary.counted o) o.state r.out r.errors numbered later := by
  cases keepGoing with
  | true =>
      cases hfailure : o.failure? <;>
        simp [report, failures_cons, hfailure, ScriptSummary.counted, Session.latest,
          Session.written, String.append_assoc, reports, Nat.add_assoc, Nat.add_comm]
  | false =>
      have hok : o.failure? = none := by simpa using (Bool.or_eq_false_iff.mp h).2
      simp [report, failures_cons, hok, ScriptSummary.counted, Session.latest, Session.written,
        String.append_assoc, Nat.add_assoc, Nat.add_comm]

/-- A line that ends the script has failed or leaves a session that does not run, so nothing is
gone on with. -/
theorem report_ended {γ : Type} (h : ends keepGoing o = true) (goOn : ScriptSummary → γ)
    (stay : γ) :
    let r := report keepGoing colored summary s out errors [(line, number)] [o]
    (match r.result with
      | .ok summary => if r.session.running then goOn summary else stay
      | .error _ => stay) = stay := by
  dsimp only
  rcases Bool.or_eq_true_iff.mp h with hstops | hfails
  · have hstopped : o.state.running = false := by simpa using hstops
    split
    · exact if_neg (by simp [report, Session.latest, hstopped])
    · rfl
  · obtain ⟨hstrict, hfailed⟩ := Bool.and_eq_true_iff.mp hfails
    obtain ⟨cause, hcause⟩ := Option.isSome_iff_exists.mp hfailed
    obtain rfl : keepGoing = false := by simpa using hstrict
    simp [report, failures_cons, hcause]

/-- A script that begins with a summary and reports, so many lines further down. -/
theorem report_moved (passed : Nat) (numbered : List (String × Nat))
    (outcomes : List (Outcome (Session σ))) :
    report keepGoing colored summary s out errors
        (numbered.map fun (line, n) => (line, passed + n)) outcomes =
      { session := (report keepGoing colored {} s out "" numbered outcomes).session
        out := (report keepGoing colored {} s out "" numbered outcomes).out
        errors := errors ++ (if keepGoing
          then reports colored ((failures numbered outcomes).map (·.moved passed)) else "")
        result := match (report keepGoing colored {} s out "" numbered outcomes).result with
          | .ok more => .ok ⟨summary.executed + more.executed, summary.failed + more.failed⟩
          | .error e => .error (e.moved passed) } := by
  cases keepGoing with
  | true => simp [report, failures_moved]
  | false =>
      cases hfailures : failures numbered outcomes <;> simp [report, failures_moved, hfailures]

/-- How a script goes in a setting. Its effective lines are carried out one after the other, up
to the one that ends it, and leave their session and output behind. If it does not go on after
failures, its result is the first failure or the number of these lines. Otherwise their failures
are counted and reported. -/
structure Goes (keepGoing colored : Bool) {τ : Type} (setting : FileTask.Setting τ)
    [RuleStore σ] (s : Session σ) (out : Output) (w : τ) (lines ran : List String)
    (outcomes : List (Outcome (Session σ))) (r : Run σ (Except ScriptError ScriptSummary))
    (w' : τ) : Prop where
  stopped : Session.Stopped (ends keepGoing) ((effective 1 lines).map Prod.fst) ran outcomes
  carriedOut : (s.executeEach out.broken ran).runIn setting w = (outcomes, w')
  session : r.session = s.latest outcomes
  out : r.out = { out with text := out.text ++ Session.written outcomes }
  strict : keepGoing = false → r.errors = "" ∧
    r.result = match (failures (effective 1 lines) outcomes).head? with
      | some e => .error e
      | none => .ok ⟨ran.length, 0⟩
  tolerant : keepGoing = true →
    r.errors = reports colored (failures (effective 1 lines) outcomes) ∧
    r.result = .ok ⟨ran.length, (failures (effective 1 lines) outcomes).length⟩

end

end Script

namespace Session

open Script

variable {σ : Type} [RuleStore σ] {s : Session σ} {out : Output} {errors : String}
  {keepGoing colored : Bool}

theorem runLines_of_skipped {line : String} (hline : isSkipped (Text.trim line) = true)
    (number : Nat) (summary : ScriptSummary) (s : Session σ) (out : Output) (errors : String)
    (rest : List String) :
    s.runLines keepGoing colored number summary out errors (line :: rest) =
      s.runLines keepGoing colored (number + 1) summary out errors rest := by
  rw [runLines]
  exact if_pos hline

/-- One line that is not passed over: what is reported on it ends the script or is gone on
with. -/
theorem runLines_of_not_skipped {line : String} (hline : isSkipped (Text.trim line) = false)
    (number : Nat) (summary : ScriptSummary) (s : Session σ) (out : Output) (errors : String)
    (rest : List String) :
    s.runLines keepGoing colored number summary out errors (line :: rest) =
      (s.execute { broken := out.broken } (Text.trim line)).bind fun o =>
        let r := report keepGoing colored summary s out errors [(Text.trim line, number)] [o]
        if ends keepGoing o then .done r
        else o.state.runLines keepGoing colored (number + 1) (summary.counted o) r.out r.errors
          rest := by
  rw [runLines]
  dsimp only
  rw [if_neg (by simp [hline]), execute_behind]
  simp only [FileTask.bind_eq, FileTask.bind_assoc, FileTask.done_bind]
  refine FileTask.bind_congr fun o ho => ?_
  have hbroken : o.out.broken = out.broken := (execute_after ho).2
  cases hresult : o.result with
  | ok _ =>
      have hfailure : o.failure? = none := by rw [Outcome.failure?, hresult]
      cases hrunning : o.state.running <;>
        simp [Outcome.behind, hresult, hrunning, hbroken, hfailure, ends, report, failures_cons,
          latest, written, reports, ScriptSummary.counted]
  | error cause =>
      have hfailure : o.failure? = some cause := by rw [Outcome.failure?, hresult]
      cases keepGoing <;> cases hrunning : o.state.running <;>
        simp [Outcome.behind, hresult, hrunning, hbroken, hfailure, ends, report, failures_cons,
          latest, written, reports, ScriptSummary.counted]

/-- The loop over the lines is the lines carried out in a row and a report on them. -/
theorem runLines_eq (number : Nat) (summary : ScriptSummary) (s : Session σ) (out : Output)
    (errors : String) (lines : List String) :
    s.runLines keepGoing colored number summary out errors lines =
      (s.executeUntil (ends keepGoing) out.broken
        ((effective number lines).map Prod.fst)).bind fun outcomes =>
          .done (report keepGoing colored summary s out errors (effective number lines)
            outcomes) := by
  induction lines generalizing number summary s out errors with
  | nil =>
      simp [runLines, effective, executeUntil, report_nil]
  | cons line rest ih =>
      cases hline : isSkipped (Text.trim line) with
      | true => rw [runLines_of_skipped hline, ih, effective_of_skipped hline]
      | false =>
          rw [runLines_of_not_skipped hline, effective_of_not_skipped hline, List.map_cons,
            executeUntil, FileTask.bind_assoc]
          refine FileTask.bind_congr fun o _ => ?_
          cases hends : ends keepGoing o with
          | true =>
              dsimp only
              rw [if_pos rfl, if_pos rfl, FileTask.done_bind]
              exact congrArg FileTask.done report_first.symm
          | false =>
              dsimp only
              rw [if_neg Bool.false_ne_true, if_neg Bool.false_ne_true, ih, FileTask.bind_assoc]
              refine FileTask.bind_congr fun later _ => ?_
              exact congrArg FileTask.done (report_cons hends).symm

/-- Lines behind others go on where those have ended, if they have ended well. -/
theorem runLines_append (hrunning : s.running = true) (number : Nat) (summary : ScriptSummary)
    (out : Output) (errors : String) (lines later : List String) :
    s.runLines keepGoing colored number summary out errors (lines ++ later) =
      (s.runLines keepGoing colored number summary out errors lines).bind fun r =>
        match r.result with
        | .ok summary =>
          if r.session.running then
            r.session.runLines keepGoing colored (lines.length + number) summary r.out r.errors
              later
          else .done r
        | .error _ => .done r := by
  induction lines generalizing s number summary out errors with
  | nil => simp [runLines, hrunning]
  | cons line rest ih =>
      have hnumber : (line :: rest).length + number = rest.length + (number + 1) := by
        simp; omega
      cases hline : isSkipped (Text.trim line) with
      | true =>
          rw [List.cons_append, hnumber, runLines_of_skipped hline, runLines_of_skipped hline]
          exact ih hrunning _ _ _ _
      | false =>
          rw [List.cons_append, hnumber, runLines_of_not_skipped hline,
            runLines_of_not_skipped hline, FileTask.bind_assoc]
          refine FileTask.bind_congr fun o _ => ?_
          cases hends : ends keepGoing o with
          | false =>
              have hgoes : o.state.running = true := by
                simpa using (Bool.or_eq_false_iff.mp hends).1
              exact ih hgoes _ _ _ _
          | true =>
              dsimp only
              rw [if_pos rfl, if_pos rfl, FileTask.done_bind]
              exact (report_ended hends _ _).symm

variable {τ : Type} (setting : FileTask.Setting τ)

theorem runScript_goes {w w' : τ} {lines : List String}
    {r : Run σ (Except ScriptError ScriptSummary)}
    (h : (s.runScript keepGoing colored out lines).runIn setting w = (r, w')) :
    ∃ ran, Goes keepGoing colored setting s out w lines ran
      ((s.executeUntil (ends keepGoing) out.broken
        ((effective 1 lines).map Prod.fst)).runIn setting w).1 r w' := by
  obtain ⟨ran, hstopped, hran, -⟩ := executeUntil_runIn (ends keepGoing) out.broken s
    ((effective 1 lines).map Prod.fst) setting w
  rw [runScript, runLines_eq, FileTask.runIn_bind, FileTask.runIn_done] at h
  generalize (s.executeUntil (ends keepGoing) out.broken
    ((effective 1 lines).map Prod.fst)).runIn setting w = carriedOut at *
  obtain ⟨outcomes, w₁⟩ := carriedOut
  obtain ⟨rfl, rfl⟩ := Prod.mk.inj h
  refine ⟨ran, hstopped, hran, rfl, rfl, ?_, ?_⟩
  · rintro rfl
    rw [← hstopped.length_eq]
    cases hfailures : failures (effective 1 lines) outcomes <;> simp [report, hfailures]
  · rintro rfl
    rw [← hstopped.length_eq]
    simp [report]

/-- Lines behind a script that has ended well go as a script of their own would. -/
theorem runScript_append {w w' : τ} {lines : List String}
    {r : Run σ (Except ScriptError ScriptSummary)} {summary : ScriptSummary}
    (h : (s.runScript keepGoing colored out lines).runIn setting w = (r, w'))
    (hrunning : s.running = true) (hok : r.result = .ok summary)
    (hstill : r.session.running = true) (later : List String) :
    (s.runScript keepGoing colored out (lines ++ later)).runIn setting w =
      ((r.session.executeUntil (ends keepGoing) r.out.broken
        ((effective 1 later).map Prod.fst)).bind fun outcomes =>
          .done (report keepGoing colored summary r.session r.out r.errors
            ((effective 1 later).map fun (line, n) => (line, lines.length + n))
            outcomes)).runIn setting w' := by
  have htexts : (effective (lines.length + 1) later).map Prod.fst =
      (effective 1 later).map Prod.fst := by
    rw [effective_add, List.map_map]
    rfl
  rw [runScript] at h
  rw [runScript, runLines_append hrunning, FileTask.runIn_bind, h]
  dsimp only
  rw [hok]
  dsimp only
  rw [if_pos hstill, runLines_eq, htexts, effective_add]

end Session
end RuleDesk
