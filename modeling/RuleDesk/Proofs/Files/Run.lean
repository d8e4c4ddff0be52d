import RuleDesk.Files.Space
import RuleDesk.Proofs.Files.Endings

/-!
# Running tasks

A task runs in any setting that answers its requests from a state of its own; a space of files
is one of them. A run is one of the ways in which a task can end, and a run of a sequence of
tasks is the sequence of their runs.
-/
namespace RuleDesk.FileTask

variable {α β : Type}

/-- Answers to requests that depend on a state and may change it. -/
abbrev Setting (τ : Type) := (request : FileRequest) → StateM τ request.Answer

/-- What a task gives in a setting, and the state behind it. -/
def runIn {τ : Type} (t : FileTask α) (setting : Setting τ) (w : τ) : α × τ :=
  (t.execute setting).run w

section
variable {τ : Type} (setting : Setting τ)

@[simp] theorem runIn_done (a : α) (w : τ) : (done a).runIn setting w = (a, w) := rfl

theorem endsIn_runIn (t : FileTask α) (w : τ) : t.EndsIn (t.runIn setting w).1 := by
  induction t generalizing w with
  | done a => exact .done a
  | ask request next ih => exact .ask _ (ih _ _)

theorem runIn_bind (t : FileTask α) (f : α → FileTask β) (w : τ) :
    (t.bind f).runIn setting w =
      (f (t.runIn setting w).1).runIn setting (t.runIn setting w).2 := by
  induction t generalizing w with
  | done a => rfl
  | ask request next ih => exact ih _ _

end

/-- Two tasks that go on alike behind every result of the first one are alike. -/
theorem bind_congr {t : FileTask α} {f g : α → FileTask β}
    (h : ∀ a, t.EndsIn a → f a = g a) : t.bind f = t.bind g := by
  induction t with
  | done a => exact h a (.done a)
  | ask request next ih =>
      exact congrArg (ask request) (funext fun reply => ih reply fun a ha => h a (.ask reply ha))

theorem run_eq_runIn (t : FileTask α) (fs : FileSpace) :
    t.run fs = t.runIn (fun request fs => fs.answer request) fs := by
  induction t generalizing fs with
  | done a => rfl
  | ask request next ih => exact ih _ _

theorem endsIn_run (t : FileTask α) (fs : FileSpace) : t.EndsIn (t.run fs).1 := by
  rw [run_eq_runIn]
  exact endsIn_runIn _ t fs

@[simp] theorem run_done (a : α) (fs : FileSpace) : (done a).run fs = (a, fs) := rfl

theorem run_bind (t : FileTask α) (f : α → FileTask β) (fs : FileSpace) :
    (t.bind f).run fs = (f (t.run fs).1).run (t.run fs).2 := by
  simp only [run_eq_runIn, runIn_bind]

/-- What is known of the first task's run is put in its place. -/
theorem run_bind_of_run {t : FileTask α} {f : α → FileTask β} {fs fs' : FileSpace} {a : α}
    (h : t.run fs = (a, fs')) : (t.bind f).run fs = (f a).run fs' := by
  rw [run_bind, h]

end RuleDesk.FileTask
