import RuleDesk.Proofs.Console.Change
import RuleDesk.Proofs.Console.Terminal
import Mathlib.Data.List.DropRight

/-!
# Conversations

A conversation carries out the lines of its input up to the one that stops the session. It
prompts before each of them, and once more if the input ends first, and it reports the lines
that fail and goes on. What stands behind the last of these lines makes no difference.
-/
namespace RuleDesk.Session

variable {σ : Type}

/-- The pieces between line feeds, without carriage returns and line feeds at their ends. Behind
the last line feed is a line only if there is something. -/
def inputLines (text : String) : List String :=
  let pieces := text.toList.splitOn '\n'
  (if pieces.getLast? = some [] then pieces.dropLast else pieces).map fun piece =>
    String.ofList (piece.rdropWhile fun c => c == '\r' || c == '\n')

theorem inputLine_ofList (piece : List Char) : inputLine (String.ofList piece) =
    String.ofList (piece.rdropWhile fun c => c == '\r' || c == '\n') := by
  rw [inputLine, String.toList_ofList]
  rfl

theorem inputLine_ended (piece : List Char) : inputLine (String.ofList (piece ++ ['\n'])) =
    String.ofList (piece.rdropWhile fun c => c == '\r' || c == '\n') := by
  rw [inputLine_ofList, List.rdropWhile_concat_pos _ _ _ (by decide)]

theorem inputLines_append {first : List Char} (hfirst : '\n' ∉ first) (later : List Char) :
    inputLines (String.ofList (first ++ '\n' :: later)) =
      inputLine (String.ofList (first ++ ['\n'])) :: inputLines (String.ofList later) := by
  obtain ⟨piece, pieces, hpieces⟩ := List.exists_cons_of_ne_nil (List.splitOn_ne_nil '\n' later)
  rw [inputLine_ended]
  unfold inputLines
  simp only [String.toList_ofList]
  rw [List.splitOn_append_cons_self_of_not_mem hfirst, hpieces, List.getLast?_cons_cons,
    List.dropLast_cons_cons]
  split <;> rfl

theorem inputLines_of_not_mem {cs : List Char} (hcs : '\n' ∉ cs) :
    inputLines (String.ofList cs) = if cs.isEmpty then [] else [inputLine (String.ofList cs)] := by
  rw [inputLine_ofList]
  unfold inputLines
  simp only [String.toList_ofList]
  rw [List.splitOn_eq_singleton hcs]
  cases cs <;> simp

/-- The lines of the bytes of a text are read as the lines of the text. -/
theorem map_text?_toLines (cs : List Char) :
    (Bytes.toLines (cs.flatMap String.utf8EncodeChar)).map
        (fun line => (Bytes.text? line).map inputLine) =
      (inputLines (String.ofList cs)).map some := by
  by_cases hfeed : '\n' ∈ cs
  · obtain ⟨first, later, hsplit, hfirst⟩ := List.eq_append_cons_of_mem hfeed
    have hshorter : later.length < cs.length := by simp [hsplit]; omega
    have hencoded : cs.flatMap String.utf8EncodeChar =
        first.flatMap String.utf8EncodeChar ++ 10 :: later.flatMap String.utf8EncodeChar := by
      rw [hsplit, List.flatMap_append, List.flatMap_cons]
      rfl
    have hline : first.flatMap String.utf8EncodeChar ++ [10] =
        Bytes.ofText (String.ofList (first ++ ['\n'])) := by
      rw [Bytes.ofText_ofList, List.flatMap_append]
      rfl
    rw [hencoded, Bytes.toLines_append (Bytes.lineFeed_not_mem_encode hfirst), List.map_cons,
      map_text?_toLines later, hline, Bytes.text?_ofText, Option.map_some, hsplit,
      inputLines_append hfirst, List.map_cons]
  · rw [Bytes.toLines_of_not_mem (Bytes.lineFeed_not_mem_encode hfeed),
      inputLines_of_not_mem hfeed]
    cases cs with
    | nil => rfl
    | cons c cs =>
        have hnonempty : ((c :: cs).flatMap String.utf8EncodeChar).isEmpty = false := by simp
        rw [hnonempty, if_neg Bool.false_ne_true, List.isEmpty_cons, if_neg Bool.false_ne_true,
          List.map_singleton, List.map_singleton, ← Bytes.ofText_ofList, Bytes.text?_ofText,
          Option.map_some]
termination_by cs.length

variable {s t : Session σ} {shown errors : String} {colored : Bool}

/-- What the error stream shows of lines with these outcomes. -/
def complaints (colored : Bool) (outcomes : List (Outcome (Session σ))) : String :=
  String.join ((outcomes.filterMap Outcome.failure?).map fun cause =>
    reportLine colored cause.message)

theorem complaints_cons (o : Outcome (Session σ)) (later : List (Outcome (Session σ))) :
    complaints colored (o :: later) = complaints colored [o] ++ complaints colored later := by
  cases hfailure : o.failure? <;> simp [complaints, hfailure]

/-- What the output shows of lines with these outcomes, each behind a prompt. -/
def exchanges (prompt : String) (outcomes : List (Outcome (Session σ))) : String :=
  String.join (outcomes.map fun o => prompt ++ o.out.text)

theorem exchanges_cons (prompt : String) (o : Outcome (Session σ))
    (later : List (Outcome (Session σ))) :
    exchanges prompt (o :: later) = prompt ++ o.out.text ++ exchanges prompt later := by
  simp [exchanges]

theorem latest_of_getLast? (s : Session σ) {outcomes : List (Outcome (Session σ))}
    {o : Outcome (Session σ)} (h : outcomes.getLast? = some o) : s.latest outcomes = o.state := by
  induction outcomes generalizing s with
  | nil => cases h
  | cons first later ih =>
      cases later with
      | nil =>
          cases h
          rfl
      | cons next later => exact ih first.state h

variable [RuleStore σ]

/-- No change touches the settings. -/
theorem Change.config_eq (h : s.Change t) : t.config = s.config := by
  cases h with
  | failed hfailed => cases hfailed <;> rfl
  | added hadd =>
      obtain ⟨id, expression, tag, store, -, rfl⟩ := addRule_eq_ok hadd
      rfl
  | deleted hdelete =>
      obtain ⟨rules, -, ⟨-, rfl⟩ | ⟨id, store, -, -, rfl⟩⟩ := deleteRule_eq_ok hdelete <;> rfl
  | cleared hclear =>
      obtain ⟨store, rfl⟩ := deleteAllRules_eq_ok hclear
      rfl
  | synced hsync =>
      obtain ⟨listing, rfl⟩ := sync_eq_ok hsync
      rfl
  | _ => rfl

theorem executeEach_config {broken : Bool} {lines : List String}
    {outcomes : List (Outcome (Session σ))} (h : (s.executeEach broken lines).EndsIn outcomes) :
    (s.latest outcomes).config = s.config := by
  induction lines generalizing s outcomes with
  | nil =>
      rw [FileTask.endsIn_done_iff.mp h]
      rfl
  | cons line lines ih =>
      obtain ⟨o, ho, h⟩ := FileTask.endsIn_bind_iff.mp h
      obtain ⟨later, hlater, h⟩ := FileTask.endsIn_bind_iff.mp h
      rw [FileTask.endsIn_done_iff.mp h]
      exact (ih hlater).trans (execute_change ho).config_eq

/-- A line that is a text shows what it writes and reports its failure. -/
theorem answer_text {line : Bytes} {text : String} (hline : line.text?.map inputLine = some text) :
    s.answer colored {} "" line = (s.execute {} text).bind fun o =>
      .done ⟨o.state, o.out, complaints colored [o], .ok ()⟩ := by
  obtain ⟨decoded, hdecoded, rfl⟩ := Option.map_eq_some_iff.mp hline
  simp only [answer, hdecoded, FileTask.bind_eq, FileTask.pure_eq]
  refine FileTask.bind_congr fun o _ => ?_
  cases hresult : o.result <;> simp [complaints, Outcome.failure?, hresult]

variable {τ : Type} (setting : FileTask.Setting τ) {world world' : τ}

/-- Lines that are texts are carried out until one stops the session, and the loop goes on from
there. -/
theorem interact_append {lines : List Bytes} {texts : List String}
    (hlines : lines.map (fun line => line.text?.map inputLine) = texts.map some)
    (hrunning : s.running = true) (more : List Bytes) {outcomes : List (Outcome (Session σ))}
    (hran : (s.executeUntil (fun o => !o.state.running) false texts).runIn setting world =
      (outcomes, world')) :
    (s.interact (Screen.terminal setting) colored).run ⟨shown, errors, lines ++ more, world⟩ =
      ((s.latest outcomes).interact (Screen.terminal setting) colored).run
        ⟨shown ++ exchanges s.config.prompt outcomes, errors ++ complaints colored outcomes,
          lines.drop outcomes.length ++ more, world'⟩ := by
  induction lines generalizing s shown errors texts world outcomes with
  | nil =>
      obtain rfl : texts = [] := by simpa using hlines.symm
      cases hran
      simp [exchanges, complaints, latest]
  | cons line lines ih =>
      obtain ⟨text, texts, rfl, htext, hlater⟩ := List.map_eq_cons_iff.mp hlines.symm
      rcases hexecuted : (s.execute {} text).runIn setting world with ⟨o, behind⟩
      have hconfig : o.state.config = s.config :=
        (execute_change (hexecuted ▸ FileTask.endsIn_runIn setting _ world)).config_eq
      have hanswer : (s.answer colored {} "" line).runIn setting world =
          (⟨o.state, o.out, complaints colored [o], .ok ()⟩, behind) := by
        rw [answer_text htext.symm, FileTask.runIn_bind, hexecuted]
        rfl
      rw [executeUntil, FileTask.runIn_bind, hexecuted] at hran
      rw [List.cons_append, interact_cons setting hrunning hanswer]
      cases hgoes : o.state.running with
      | false =>
          rw [hgoes] at hran
          cases hran
          simp [exchanges, latest]
      | true =>
          rcases hrest : (o.state.executeUntil (fun o => !o.state.running) false texts).runIn
            setting behind with ⟨later, behind'⟩
          simp only [hgoes, Bool.not_true, Bool.false_eq_true, if_false, FileTask.runIn_bind, hrest,
            FileTask.runIn_done, Prod.mk.injEq] at hran
          obtain ⟨rfl, rfl⟩ := hran
          refine (ih hlater.symm hgoes hrest).trans ?_
          simp only [exchanges_cons, complaints_cons o later, hconfig, String.append_assoc, latest,
            List.length_cons, List.drop_succ_cons]

/-- Behind the lines that are carried out the loop has come to the end of the input or of the
session. -/
theorem interact_of_stopped_lines {lines : List Bytes} {texts ran : List String}
    {outcomes : List (Outcome (Session σ))}
    (hstopped : Stopped (fun o => !o.state.running) texts ran outcomes)
    (hlines : lines.map (fun line => line.text?.map inputLine) = texts.map some) :
    ((s.latest outcomes).interact (Screen.terminal setting) colored).run
        ⟨shown, errors, lines.drop outcomes.length, world⟩ =
      some ((s.latest outcomes, .ok ()),
        ⟨shown ++ if (s.latest outcomes).running then (s.latest outcomes).config.prompt ++ "\n"
          else "", errors, lines.drop ran.length, world⟩) := by
  rw [← hstopped.length_eq]
  cases hgoes : (s.latest outcomes).running with
  | false => simpa using interact_of_stopped setting hgoes _
  | true =>
      have hall : ran = texts := by
        refine hstopped.ended.resolve_right ?_
        rintro ⟨o, hlast, hstops⟩
        rw [latest_of_getLast? s hlast] at hgoes
        simp [hgoes] at hstops
      have hlength : lines.length = texts.length := by simpa using congrArg List.length hlines
      have hend : lines.drop outcomes.length = [] := by
        rw [List.drop_eq_nil_iff, hstopped.length_eq, hall, hlength]
      rw [hend, if_pos rfl]
      exact interact_nil setting hgoes

end RuleDesk.Session
