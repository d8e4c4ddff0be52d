import RuleDesk.Console.Loop
import RuleDesk.Proofs.Command.Within
import RuleDesk.Proofs.Command.Words
import RuleDesk.Proofs.Console.Failure
import RuleDesk.Proofs.Console.Lines
import RuleDesk.Proofs.Files.ByteLines
import RuleDesk.Proofs.Files.Encoding
import Mathlib.Data.List.TakeWhile

/-!
# Scripts and conversations

What a line does to the session depends on its words only. So a script that goes on after
failures and a conversation leave the same session, as long as trimming keeps the words of
every line.
-/
namespace RuleDesk

/-- The state that a handler leaves does not depend on the files. -/
def Handler.Determined {σ : Type} (handler : Handler σ) : Prop :=
  ∀ args s r r', (handler args s).EndsIn r → (handler args s).EndsIn r' → r.1 = r'.1

namespace Group

variable {σ : Type} {g : Group σ} {s : σ} {out out' : Output} {o o' : Outcome σ}
  {path above : String} {words : List String}

theorem invoke_state {c : Command σ} (hc : ∀ handler, c.action = .run handler → handler.Determined)
    (h : (c.invoke g path words s out).EndsIn o) (h' : (c.invoke g path words s out').EndsIn o') :
    o.state = o'.state := by
  cases hbind : c.signature.bind words with
  | error reason =>
      unfold Command.invoke at h h'
      rw [hbind] at h h'
      rw [FileTask.endsIn_done_iff.mp h, FileTask.endsIn_done_iff.mp h']
  | ok args =>
      cases haction : c.action with
      | help =>
          unfold Command.invoke at h h'
          simp only [hbind, haction] at h h'
          rw [FileTask.endsIn_done_iff.mp h, FileTask.endsIn_done_iff.mp h', Outcome.ofText_state,
            Outcome.ofText_state]
      | run handler =>
          obtain ⟨r, hend, hstate⟩ := Command.invoke_run haction hbind h
          obtain ⟨r', hend', hstate'⟩ := Command.invoke_run haction hbind h'
          rw [hstate, hstate', hc handler haction args s r r' hend hend']

/-- If that is so of every handler of the tree, the words alone decide about the state. -/
theorem dispatchWords_state (hg : ∀ handler, g.Holds handler → handler.Determined)
    (h : (g.dispatchWords above s out words).EndsIn o)
    (h' : (g.dispatchWords above s out' words).EndsIn o') : o.state = o'.state := by
  induction words generalizing g above with
  | nil =>
      rw [FileTask.endsIn_done_iff.mp h, FileTask.endsIn_done_iff.mp h', Outcome.ofText_state,
        Outcome.ofText_state]
  | cons word words ih =>
      unfold dispatchWords at h h'
      cases hchild : g.child? word with
      | none =>
          simp only [hchild] at h h'
          rw [FileTask.endsIn_done_iff.mp h, FileTask.endsIn_done_iff.mp h']
      | some node =>
          have hmem := List.mem_of_find?_eq_some hchild
          simp only [hchild] at h h'
          cases node with
          | group name description children =>
              refine ih (fun handler hholds => hg handler ?_) h h'
              obtain ⟨node, hnode, hbelow⟩ := hholds
              exact ⟨_, hmem, .group hnode hbelow⟩
          | command c =>
              exact invoke_state (fun handler hrun => hg handler ⟨_, hmem, .command hrun⟩) h h'

theorem Answer.broken (h : g.Answer s out o) : o.out.broken = out.broken := by
  have hshown (t : σ) (command text : String) :
      (Outcome.ofText t out command text).out.broken = out.broken := by
    unfold Outcome.ofText Output.write
    split
    · next heq =>
        split at heq
        · cases heq
        · rw [← Except.ok.inj heq]
    · rfl
  cases h with
  | help command text => exact hshown ..
  | shown command _ _ => exact hshown ..
  | unrecognized | usage | failed => rfl

end Group

namespace Console

variable {σ : Type} [RuleStore σ]

theorem IsEffectOrReplay.determined {handler : Handler (Session σ)}
    (hkind : IsEffectOrReplay handler) : handler.Determined := by
  intro args s r r' h h'
  rcases hkind with ⟨effect, -, rfl⟩ | rfl
  · unfold Effect.toHandler at h h'
    cases heffect : (effect args).run s <;> rw [heffect] at h h' <;>
      rw [FileTask.endsIn_done_iff.mp h, FileTask.endsIn_done_iff.mp h']
  · exact (replay_state h).trans (replay_state h').symm

theorem root_names : (root : Group (Session σ)).children.map Node.name =
    ["help", "rules", "handle", "stream", "quit"] := by
  unfold root Group.root
  rw [Group.addAll_eq (by simp) (by rw [List.map_append]; simp), List.map_append]
  simp

end Console

namespace Session

variable {σ : Type} [RuleStore σ] {s : Session σ} {out : Output}

/-- The session behind a line with these words. -/
def after (s : Session σ) (words : List String) : Session σ :=
  (Console.root.dispatchWords "" s {} words).refused.state

theorem execute_after {line : String} {o : Outcome (Session σ)}
    (h : (s.execute out line).EndsIn o) :
    o.state = s.after (tokenize line) ∧ o.out.broken = out.broken := by
  constructor
  · have hkinds (handler) (hholds : (Console.root : Group (Session σ)).Holds handler) :
        handler.Determined := (Console.root_holds handler hholds).determined
    exact Group.dispatchWords_state hkinds h (FileTask.endsIn_refused _)
  · exact (Group.dispatch_answer h).broken

theorem after_nil (s : Session σ) : s.after [] = s :=
  Outcome.ofText_state ..

/-- A line whose first word is no command leaves the session. -/
theorem after_unknown {word : String} {words : List String}
    (h : (Console.root : Group (Session σ)).child? word = none) : s.after (word :: words) = s := by
  unfold after Group.dispatchWords
  rw [h]
  rfl

/-- The session behind lines with these words; it is left alone once it has stopped. -/
def afterLines (s : Session σ) : List (List String) → Session σ
  | [] => s
  | words :: rest => if s.running then (s.after words).afterLines rest else s

theorem afterLines_of_stopped (h : s.running = false) (rest : List (List String)) :
    s.afterLines rest = s := by
  cases rest with
  | nil => rfl
  | cons words rest => rw [afterLines, if_neg (by simp [h])]

/-- What a script passes over does nothing, whatever blanks stand behind it: there is no
word, or the first one begins as no command does. -/
theorem after_skipped {text : String} (h : Script.isSkipped text = true) {blanks : List Char}
    (hblanks : ∀ c ∈ blanks, isBlank c = true) :
    s.after (Token.scan none [] (text.toList ++ blanks)) = s := by
  rcases Bool.or_eq_true_iff.mp h with hempty | hcomment
  · have hnone : text.toList = [] := by simpa using hempty
    rw [hnone, List.nil_append, Token.scan_blanks hblanks]
    exact after_nil s
  · obtain ⟨rest, hrest⟩ := String.startsWith_string_iff.mp hcomment
    obtain ⟨first, later, hscan, hhead⟩ :=
      @Token.scan_head none ['#'] (rest ++ blanks) (List.cons_ne_nil _ _)
    have hwords : Token.scan none [] (text.toList ++ blanks) = first :: later := by
      rw [← hrest, ← hscan]
      rfl
    have hmark : first.toList.head? = some '#' := by
      obtain ⟨more, hmore⟩ := hhead
      rw [← hmore]
      rfl
    rw [hwords]
    apply after_unknown
    rw [Group.child?, List.find?_eq_none]
    intro node hnode hname
    have hknown : first ∈ (Console.root : Group (Session σ)).children.map Node.name :=
      List.mem_map.mpr ⟨node, hnode, by simpa using hname⟩
    rw [Console.root_names] at hknown
    have hnone : ∀ name ∈ ["help", "rules", "handle", "stream", "quit"],
        name.toList.head? ≠ some '#' := by decide
    exact hnone first hknown hmark

theorem after_skipped_trimmed {line : String} (h : Script.isSkipped (Text.trim line) = true) :
    s.after (tokenize (Text.trim line)) = s := by
  have hafter := @after_skipped σ _ s _ h [] (by simp)
  rwa [List.append_nil] at hafter

theorem after_skipped_line {line : String} (h : Script.isSkipped (Text.trim line) = true) :
    s.after (tokenize line) = s := by
  obtain ⟨blanks, hblanks, hwords⟩ := tokenize_eq line
  rw [hwords]
  exact after_skipped h hblanks

variable {lines : List String} {errors : String} {colored : Bool}

/-- The session that a script leaves which goes on after failures. -/
theorem runLines_session {number : Nat} {summary : ScriptSummary} (hrunning : s.running = true)
    {r : Run σ (Except ScriptError ScriptSummary)}
    (h : (s.runLines true colored number summary out errors lines).EndsIn r) :
    r.session = s.afterLines (lines.map fun line => tokenize (Text.trim line)) := by
  induction lines generalizing s out errors number summary with
  | nil => rw [FileTask.endsIn_done_iff.mp h]; rfl
  | cons line lines ih =>
      rw [List.map_cons, afterLines, if_pos hrunning]
      unfold runLines at h
      dsimp only at h
      split at h
      · next hskipped =>
          rw [after_skipped_trimmed hskipped]
          exact ih hrunning h
      · obtain ⟨outcome, hexecute, h⟩ := FileTask.endsIn_bind_iff.mp h
        have hstate := (execute_after hexecute).1
        rw [← hstate]
        cases hgoes : outcome.state.running with
        | true =>
            cases hresult : outcome.result <;> simp only [hresult, hgoes, if_true] at h <;>
              exact ih hgoes h
        | false =>
            rw [afterLines_of_stopped hgoes]
            cases hresult : outcome.result <;>
              simp only [hresult, hgoes, if_true, Bool.false_eq_true, if_false] at h <;>
              rw [FileTask.endsIn_done_iff.mp h]

theorem inputLine_append {line : String} (hline : '\n' ∉ line.toList ∧ '\r' ∉ line.toList) :
    inputLine (line ++ "\n") = line := by
  have hkept : line.toList.reverse.dropWhile (fun c => c == '\r' || c == '\n') =
      line.toList.reverse := by
    rw [List.dropWhile_eq_self_iff]
    intro hpos hend
    have hmem : line.toList.reverse[0] ∈ line.toList :=
      List.mem_reverse.mp (List.getElem_mem hpos)
    simp only [Bool.or_eq_true, beq_iff_eq] at hend
    rcases hend with h | h
    · exact hline.2 (h ▸ hmem)
    · exact hline.1 (h ▸ hmem)
  have hchars : (line ++ "\n").toList.reverse = '\n' :: line.toList.reverse := by simp
  rw [inputLine, hchars, List.dropWhile_cons_of_pos (by decide), hkept, List.reverse_reverse,
    String.ofList_toList]

/-- An answer to a line is never the end of a conversation. -/
theorem answer_session {line : String} (hline : '\n' ∉ line.toList ∧ '\r' ∉ line.toList)
    {r : Run σ (Except IoFailure Unit)}
    (h : (s.answer colored out errors (.ofText (line ++ "\n"))).EndsIn r) :
    r.session = s.after (tokenize line) ∧ r.out.broken = out.broken ∧ r.result = .ok () := by
  unfold answer at h
  rw [Bytes.text?_ofText] at h
  dsimp only at h
  rw [inputLine_append hline] at h
  obtain ⟨outcome, hexecute, h⟩ := FileTask.endsIn_bind_iff.mp h
  obtain ⟨hstate, hbroken⟩ := execute_after hexecute
  rw [FileTask.endsIn_done_iff.mp h]
  exact ⟨hstate, hbroken, rfl⟩

/-- The session that a conversation leaves. -/
theorem converse_session (hlines : ∀ line ∈ lines, '\n' ∉ line.toList ∧ '\r' ∉ line.toList)
    (hout : out.broken = false) {r : Run σ (Except IoFailure Unit)}
    (h : (converse colored s out errors
      (lines.map fun line => Bytes.ofText (line ++ "\n"))).EndsIn r) :
    r.session = s.afterLines (lines.map tokenize) := by
  induction lines generalizing s out errors with
  | nil =>
      rw [List.map_nil] at h
      unfold converse at h
      split at h
      · rw [FileTask.endsIn_done_iff.mp h]
        rfl
      · split at h <;> rw [FileTask.endsIn_done_iff.mp h] <;> rfl
  | cons line lines ih =>
      obtain ⟨hline, hlater⟩ := List.forall_mem_cons.mp hlines
      rw [List.map_cons] at h
      rw [List.map_cons, afterLines]
      unfold converse at h
      cases hrunning : s.running with
      | false =>
          simp only [hrunning, Bool.not_false, if_true] at h
          rw [FileTask.endsIn_done_iff.mp h]
          rfl
      | true =>
          have hprompt : out.write s.config.prompt =
              .ok { out with text := out.text ++ s.config.prompt } := by
            simp [Output.write, hout]
          simp only [hrunning, hprompt, Bool.not_true, Bool.false_eq_true, if_false] at h
          obtain ⟨run, hanswer, h⟩ := FileTask.endsIn_bind_iff.mp h
          obtain ⟨hstate, hbroken, hresult⟩ := answer_session hline hanswer
          simp only [hresult] at h
          rw [if_pos rfl, ← hstate]
          exact ih hlater (hbroken.trans hout) h

theorem toLines_ended {lines : List String} (hlines : ∀ line ∈ lines, '\n' ∉ line.toList) :
    Bytes.toLines (lines.flatMap fun line => Bytes.ofText (line ++ "\n")) =
      lines.map fun line => Bytes.ofText (line ++ "\n") := by
  induction lines with
  | nil => rfl
  | cons line lines ih =>
      obtain ⟨hline, hlater⟩ := List.forall_mem_cons.mp hlines
      have hfeed : Bytes.ofText "\n" = [10] := by decide
      have hbytes : 10 ∉ Bytes.ofText line := Bytes.lineFeed_not_mem_encode hline
      rw [List.flatMap_cons, List.map_cons, Bytes.ofText_append, hfeed, List.append_assoc,
        List.singleton_append, Bytes.toLines_append hbytes, ih hlater]

theorem afterLines_congr {f g : String → List String}
    (h : ∀ line ∈ lines, ∀ s : Session σ, s.after (f line) = s.after (g line)) (s : Session σ) :
    s.afterLines (lines.map f) = s.afterLines (lines.map g) := by
  induction lines generalizing s with
  | nil => rfl
  | cons line lines ih =>
      obtain ⟨hline, hlater⟩ := List.forall_mem_cons.mp h
      rw [List.map_cons, List.map_cons, afterLines, afterLines, hline s]
      split
      · exact ih hlater _
      · rfl

/-- Both loops carry out the words of the lines one after the other, the script those of the
trimmed lines. So they leave the same session if no line that the script carries out ends
with a blank of its last word; only then does trimming change the words of a line. -/
theorem script_and_conversation_agree (hrunning : s.running = true)
    (hlines : ∀ line ∈ lines, '\n' ∉ line.toList ∧ '\r' ∉ line.toList)
    {r : Run σ (Except ScriptError ScriptSummary)}
    (hscript : (s.runScript true colored out lines).EndsIn r)
    {out' : Output} (hout : out'.broken = false) {colored' : Bool}
    {r' : Run σ (Except IoFailure Unit)}
    (hconversation : (s.runInteractive colored' out'
      (lines.flatMap fun line => Bytes.ofText (line ++ "\n"))).EndsIn r') :
    r.session = s.afterLines (lines.map fun line => tokenize (Text.trim line)) ∧
      r'.session = s.afterLines (lines.map tokenize) ∧
      (∀ line, tokenize (Text.trim line) = tokenize line ↔ endsInOwnBlank line = false) ∧
      ((∀ line ∈ lines, Script.isSkipped (Text.trim line) = true ∨ endsInOwnBlank line = false) →
        r.session = r'.session) := by
  have hr := runLines_session hrunning hscript
  unfold runInteractive at hconversation
  rw [toLines_ended fun line hline => (hlines line hline).1] at hconversation
  have hr' := converse_session hlines hout hconversation
  refine ⟨hr, hr', tokenize_trim_iff, fun hkept => ?_⟩
  rw [hr, hr']
  apply afterLines_congr
  intro line hline s
  rcases hkept line hline with hskipped | hwhole
  · rw [after_skipped_trimmed hskipped, after_skipped_line hskipped]
  · rw [(tokenize_trim_iff line).mpr hwhole]

/-- Blanks at the ends, in spans and behind backslashes, a comment that ends with a blank of
its own, a line that fails, and a line behind the end. -/
theorem script_and_conversation_agree_to_quit :
    let s : Session MemoryStore := Session.new {} {} "/"
    let lines := [" rules add 'a b' cat \\ \\\\ \t", "# note\\ ", "", "rules add b (", "quit \"\" ",
      "rules add late dog"]
    let input := lines.flatMap fun line => Bytes.ofText (line ++ "\n")
    let r := (s.runScript true false {} lines).refused
    r.session = (s.runInteractive false {} input).refused.session ∧
      r.session.rules.rules.map (fun rule => (rule.name, rule.tag)) = [("a b", " \\")] ∧
      r.session.running = false := by
  intro s lines input r
  have hlines : ∀ line ∈ lines, '\n' ∉ line.toList ∧ '\r' ∉ line.toList := by decide
  have hkept : ∀ line ∈ lines,
      Script.isSkipped (Text.trim line) = true ∨ endsInOwnBlank line = false := by decide +kernel
  have hscript := FileTask.endsIn_refused (s.runScript true false {} lines)
  have hconversation := FileTask.endsIn_refused (s.runInteractive false {} input)
  have hagree := script_and_conversation_agree rfl hlines hscript rfl hconversation
  exact ⟨hagree.2.2.2 hkept, by decide +kernel, by decide +kernel⟩

/-- A script takes the blank behind a backslash off the last word of a line. -/
theorem script_cuts_last_word :
    let s : Session MemoryStore := Session.new {} {} "/"
    let line := "rules add cats cat pets\\ "
    '\n' ∉ line.toList ∧ '\r' ∉ line.toList ∧ ∃ r r',
      (s.runScript true false {} [line]).EndsIn r ∧
      (s.runInteractive false {} (Bytes.ofText (line ++ "\n"))).EndsIn r' ∧
      r.session.rules.rules.map Rule.tag = ["pets"] ∧
      r'.session.rules.rules.map Rule.tag = ["pets "] ∧ r.session ≠ r'.session := by
  intro s line
  let r := (s.runScript true false {} [line]).refused
  let r' := (s.runInteractive false {} (Bytes.ofText (line ++ "\n"))).refused
  have htag : r.session.rules.rules.map Rule.tag = ["pets"] := by decide +kernel
  have htag' : r'.session.rules.rules.map Rule.tag = ["pets "] := by decide +kernel
  refine ⟨by decide, by decide, r, r', FileTask.endsIn_refused _, FileTask.endsIn_refused _, htag,
    htag', fun hsame => ?_⟩
  rw [hsame, htag'] at htag
  exact absurd htag (by decide)

end Session
end RuleDesk
