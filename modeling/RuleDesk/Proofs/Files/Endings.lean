import RuleDesk.Files.Task

/-!
# Results of tasks on files

What a task can end with, whatever the files answer. A statement about every
result in this sense holds of the task on any files.
-/
namespace RuleDesk.FileTask

variable {α β : Type}

/-- For some answers to its requests the task ends with this result. -/
inductive EndsIn : FileTask α → α → Prop where
  | done (a : α) : EndsIn (done a) a
  | ask {request : FileRequest} {next : request.Answer → FileTask α} {a : α}
      (answer : request.Answer) : EndsIn (next answer) a → EndsIn (ask request next) a

@[simp] theorem endsIn_done_iff {a b : α} : (done a).EndsIn b ↔ b = a :=
  ⟨fun h => by cases h; rfl, fun h => h ▸ .done b⟩

theorem endsIn_ask_iff {request : FileRequest} {next : request.Answer → FileTask α} {a : α} :
    (ask request next).EndsIn a ↔ ∃ answer, (next answer).EndsIn a :=
  ⟨fun h => by cases h with | ask answer h => exact ⟨answer, h⟩, fun ⟨answer, h⟩ => .ask answer h⟩

@[simp] theorem endsIn_bind_iff {t : FileTask α} {f : α → FileTask β} {b : β} :
    (t.bind f).EndsIn b ↔ ∃ a, t.EndsIn a ∧ (f a).EndsIn b := by
  induction t with
  | done a => simp
  | ask request next ih =>
      constructor
      · intro h
        obtain ⟨answer, h⟩ := endsIn_ask_iff.mp h
        obtain ⟨a, ha, hb⟩ := (ih answer).mp h
        exact ⟨a, .ask answer ha, hb⟩
      · rintro ⟨a, ha, hb⟩
        obtain ⟨answer, ha⟩ := endsIn_ask_iff.mp ha
        exact .ask answer ((ih answer).mpr ⟨a, ha, hb⟩)

/-- The answer of files that refuse everything they can refuse. -/
def refusal : (request : FileRequest) → request.Answer
  | .openFile _ _ => .error .closed
  | .read _ _ => .error .closed
  | .readToEnd _ => .error .closed
  | .write _ _ => .error .closed
  | .sizeBound _ => (0 : Nat)

/-- What the task ends with on such files. -/
def refused : FileTask α → α
  | done a => a
  | ask request next => (next (refusal request)).refused

theorem endsIn_refused (t : FileTask α) : t.EndsIn t.refused := by
  induction t with
  | done a => exact .done a
  | ask request next ih => exact .ask (refusal request) (ih (refusal request))

end RuleDesk.FileTask
