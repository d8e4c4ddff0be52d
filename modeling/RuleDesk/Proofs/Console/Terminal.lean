import RuleDesk.Proofs.Console.Transcript
import RuleDesk.Proofs.Files.Run

/-!
# The loop on a terminal

The interactive loop asks a terminal for lines as it goes, while a conversation has its whole
input at hand. On a terminal that is kept in memory and takes every text the two come to the
same: the same session, the same texts on both streams, the same state behind the tasks. Besides,
the terminal knows which lines the loop has not asked for.
-/
namespace RuleDesk

/-- A terminal in memory: what it shows, the lines that have not been read, and the state that
tasks work on. -/
structure Screen (τ : Type) where
  shown : String := ""
  errors : String := ""
  unread : List Bytes
  world : τ

namespace Screen

variable {τ : Type}

/-- Repeats a step up to its first result. There is no result here where a round that is not the
last one has read no line, so the loop ends. -/
def iterate {α β : Type} (step : α → StateT (Screen τ) Option (α ⊕ β)) (a : α)
    (screen : Screen τ) : Option (β × Screen τ) :=
  match (step a).run screen with
  | none => none
  | some (.inr b, next) => some (b, next)
  | some (.inl a, next) =>
    if next.unread.length < screen.unread.length then iterate step a next else none
termination_by screen.unread.length

/-- It takes every text, and its tasks run in the setting. -/
def terminal (setting : FileTask.Setting τ) : Terminal (StateT (Screen τ) Option) where
  put text := modifyGet fun screen => (.ok (), { screen with shown := screen.shown ++ text })
  complain text := modify fun screen => { screen with errors := screen.errors ++ text }
  readLine := modifyGet fun screen =>
    (.ok screen.unread.head?, { screen with unread := screen.unread.tail })
  perform task := modifyGet fun screen =>
    let (a, world) := task.runIn setting screen.world
    (a, { screen with world })
  iterate := iterate

variable {setting : FileTask.Setting τ} {screen : Screen τ}

theorem run_put (text : String) : ((terminal setting).put text).run screen =
    some (.ok (), { screen with shown := screen.shown ++ text }) := rfl

theorem run_complain (text : String) : ((terminal setting).complain text).run screen =
    some ((), { screen with errors := screen.errors ++ text }) := rfl

theorem run_readLine : (terminal setting).readLine.run screen =
    some (.ok screen.unread.head?, { screen with unread := screen.unread.tail }) := rfl

theorem run_perform {α : Type} (task : FileTask α) :
    ((terminal setting).perform task).run screen =
      some ((task.runIn setting screen.world).1,
        { screen with world := (task.runIn setting screen.world).2 }) := rfl

end Screen

namespace Session

variable {σ τ : Type} [RuleStore σ] {s : Session σ} (setting : FileTask.Setting τ)
  {colored : Bool} {shown errors : String} {line : Bytes} {lines : List Bytes} {world world' : τ}
  {r : Run σ (Except IoFailure Unit)}

variable {setting} in
/-- Behind a round that is not the last one and has read a line comes the loop again. -/
theorem interact_of_round {t : Session σ} {screen next : Screen τ}
    (hround : (converseOnce (Screen.terminal setting) colored s).run screen = some (.inl t, next))
    (hread : next.unread.length < screen.unread.length) :
    (s.interact (Screen.terminal setting) colored).run screen =
      (t.interact (Screen.terminal setting) colored).run next := by
  change Screen.iterate _ s screen = Screen.iterate _ t next
  rw [Screen.iterate, hround]
  exact if_pos hread

variable {setting} in
theorem interact_of_last_round {ending : Session σ × Except IoFailure Unit}
    {screen next : Screen τ} (hround :
      (converseOnce (Screen.terminal setting) colored s).run screen = some (.inr ending, next)) :
    (s.interact (Screen.terminal setting) colored).run screen = some (ending, next) := by
  change Screen.iterate _ s screen = _
  rw [Screen.iterate, hround]

theorem interact_of_stopped (h : s.running = false) (screen : Screen τ) :
    (s.interact (Screen.terminal setting) colored).run screen = some ((s, .ok ()), screen) := by
  refine interact_of_last_round ?_
  rw [converseOnce, h]
  rfl

/-- At the end of the input the line of the prompt is ended. -/
theorem interact_nil (hrunning : s.running = true) :
    (s.interact (Screen.terminal setting) colored).run ⟨shown, errors, [], world⟩ =
      some ((s, .ok ()), ⟨shown ++ (s.config.prompt ++ "\n"), errors, [], world⟩) := by
  refine interact_of_last_round ?_
  rw [converseOnce, hrunning, ← String.append_assoc]
  rfl

/-- One line: the prompt, what the line shows and reports, and the loop again behind it unless
the line is no text. -/
theorem interact_cons (hrunning : s.running = true)
    (hanswer : (s.answer colored {} "" line).runIn setting world = (r, world')) :
    let next : Screen τ :=
      ⟨shown ++ (s.config.prompt ++ r.out.text), errors ++ r.errors, lines, world'⟩
    (s.interact (Screen.terminal setting) colored).run ⟨shown, errors, line :: lines, world⟩ =
      match r.result with
      | .ok () => (r.session.interact (Screen.terminal setting) colored).run next
      | .error cause => some ((r.session, .error cause), next) := by
  intro next
  have honce : (converseOnce (Screen.terminal setting) colored s).run
      ⟨shown, errors, line :: lines, world⟩ = some (match r.result with
        | .ok () => .inl r.session
        | .error cause => .inr (r.session, .error cause), next) := by
    rw [converseOnce, hrunning]
    simp only [Bool.not_true, Bool.false_eq_true, if_false, StateT.run_bind, Screen.run_put,
      Screen.run_readLine, Screen.run_perform, Screen.run_complain, hanswer, List.head?_cons,
      List.tail_cons, Option.bind_eq_bind, Option.bind_some, String.append_assoc]
    cases r.result <;> rfl
  cases hresult : r.result with
  | ok =>
      rw [hresult] at honce
      exact interact_of_round honce (Nat.lt_succ_self _)
  | error cause =>
      rw [hresult] at honce
      exact interact_of_last_round honce

/-- What a line shows and reports does not depend on what stands on the streams already. -/
theorem answer_behind (shown errors : String) (line : Bytes) :
    s.answer colored { text := shown } errors line =
      (s.answer colored {} "" line).bind fun r => .done
        { r with out := { text := shown ++ r.out.text }, errors := errors ++ r.errors } := by
  unfold answer
  cases line.text? with
  | none => simp
  | some text =>
      simp only [FileTask.bind_eq, FileTask.pure_eq, FileTask.bind_assoc, FileTask.done_bind]
      rw [execute_behind, FileTask.bind_assoc]
      refine FileTask.bind_congr fun o ho => ?_
      have hbroken : o.out.broken = false := (execute_after ho).2
      rw [FileTask.done_bind]
      cases hresult : o.result <;> simp [Outcome.behind, hbroken, hresult]

theorem converse_of_stopped (h : s.running = false) (out : Output) :
    s.converse colored out errors lines = .done ⟨s, out, errors, .ok ()⟩ := by
  cases lines <;> simp [converse, h]

theorem converse_cons (hrunning : s.running = true) :
    s.converse colored { text := shown } errors (line :: lines) =
      (s.answer colored {} "" line).bind fun r =>
        match r.result with
        | .ok () => r.session.converse colored
            { text := shown ++ (s.config.prompt ++ r.out.text) } (errors ++ r.errors) lines
        | .error _ => .done { r with
            out := { text := shown ++ (s.config.prompt ++ r.out.text) }
            errors := errors ++ r.errors } := by
  have hprompt : ({ text := shown } : Output).write s.config.prompt =
      .ok { text := shown ++ s.config.prompt } := by
    simp [Output.write]
  rw [converse]
  simp only [hrunning, hprompt, Bool.not_true, Bool.false_eq_true, if_false, FileTask.bind_eq,
    FileTask.pure_eq]
  rw [answer_behind, FileTask.bind_assoc]
  refine FileTask.bind_congr fun r _ => ?_
  rw [FileTask.done_bind, String.append_assoc]
  cases hresult : r.result <;> rfl

/-- At the end of the input the line of the last prompt is ended. -/
theorem converse_nil (hrunning : s.running = true) :
    s.converse colored { text := shown } errors [] =
      .done ⟨s, { text := shown ++ (s.config.prompt ++ "\n") }, errors, .ok ()⟩ := by
  simp [converse, hrunning, Output.write, bind, Except.bind, String.append_assoc]

/-- With the whole input at hand the loop comes to what it comes to on the terminal. -/
theorem interact_eq_converse
    (h : (s.converse colored { text := shown } errors lines).runIn setting world = (r, world')) :
    r.out.broken = false ∧ ∃ unread, unread <:+ lines ∧
      (s.interact (Screen.terminal setting) colored).run ⟨shown, errors, lines, world⟩ =
        some ((r.session, r.result), ⟨r.out.text, r.errors, unread, world'⟩) := by
  induction lines generalizing s shown errors world with
  | nil =>
      cases hrunning : s.running with
      | false =>
          rw [converse_of_stopped hrunning] at h
          cases h
          exact ⟨rfl, [], List.suffix_rfl, interact_of_stopped setting hrunning _⟩
      | true =>
          rw [converse_nil hrunning] at h
          cases h
          exact ⟨rfl, [], List.suffix_rfl, interact_nil setting hrunning⟩
  | cons line lines ih =>
      cases hrunning : s.running with
      | false =>
          rw [converse_of_stopped hrunning] at h
          cases h
          exact ⟨rfl, _, List.suffix_rfl, interact_of_stopped setting hrunning _⟩
      | true =>
          rw [converse_cons hrunning, FileTask.runIn_bind] at h
          rcases hanswer : (s.answer colored {} "" line).runIn setting world with ⟨first, behind⟩
          rw [hanswer] at h
          rw [interact_cons setting hrunning hanswer]
          cases hresult : first.result with
          | ok =>
              simp only [hresult] at h
              obtain ⟨hbroken, unread, hsuffix, hrun⟩ := ih h
              exact ⟨hbroken, unread, hsuffix.trans (List.suffix_cons line lines), hrun⟩
          | error cause =>
              simp only [hresult] at h
              cases h
              exact ⟨rfl, lines, List.suffix_cons line lines, rfl⟩

theorem converse_of_interact {t : Session σ} {result : Except IoFailure Unit} {screen : Screen τ}
    (h : (s.interact (Screen.terminal setting) colored).run ⟨shown, errors, lines, world⟩ =
      some ((t, result), screen)) :
    (s.converse colored { text := shown } errors lines).runIn setting world =
      (⟨t, { text := screen.shown }, screen.errors, result⟩, screen.world) := by
  rcases hconverse : (s.converse colored { text := shown } errors lines).runIn setting world with
    ⟨⟨u, ⟨text, broken⟩, complained, ending⟩, behind⟩
  obtain ⟨rfl, unread, -, hrun⟩ := interact_eq_converse setting hconverse
  rw [h] at hrun
  cases hrun
  rfl

end Session
end RuleDesk
