import RuleDesk.Proofs.Capture.Replay
import RuleDesk.Proofs.Capture.Routing
import RuleDesk.Proofs.Files.Endings

/-!
# The trace of a replay

The trace of a capture lists the writes that its records ask for: every record for each of
its handles, in the order of the capture. A replay without a limit makes these writes one
after the other, into any sink, and ends at the first one that fails. What it counts is
decided by the lines alone, so the counts of two captures add up.
-/
namespace RuleDesk.Replay

open FileTask

variable {ρ : Type}

section OnOk

variable {ε α β γ : Type}

/-- Goes on after a step that succeeded. A failure stays as it is. -/
def onOk (next : ρ → α → FileTask (ρ × Except ε β)) : ρ × Except ε α → FileTask (ρ × Except ε β)
  | (s, .ok a) => next s a
  | (s, .error e) => .done (s, .error e)

@[simp] theorem onOk_ok (next : ρ → α → FileTask (ρ × Except ε β)) (s : ρ) (a : α) :
    onOk next (s, .ok a) = next s a := rfl

@[simp] theorem onOk_error (next : ρ → α → FileTask (ρ × Except ε β)) (s : ρ) (e : ε) :
    onOk next (s, .error e) = .done (s, .error e) := rfl

/-- Any way to go on that does this after a success and leaves failures as they are. -/
theorem bind_eq_bind_onOk {t : FileTask (ρ × Except ε α)}
    {next : ρ → α → FileTask (ρ × Except ε β)} {f : ρ × Except ε α → FileTask (ρ × Except ε β)}
    (hok : ∀ s a, f (s, .ok a) = next s a) (herror : ∀ s e, f (s, .error e) = .done (s, .error e)) :
    t.bind f = t.bind (onOk next) := by
  refine congrArg t.bind (funext fun step => ?_)
  obtain ⟨s, e | a⟩ := step
  · exact herror s e
  · exact hok s a

theorem bind_onOk_assoc (t : FileTask (ρ × Except ε α)) (f : ρ → α → FileTask (ρ × Except ε β))
    (g : ρ → β → FileTask (ρ × Except ε γ)) :
    (t.bind (onOk f)).bind (onOk g) = t.bind (onOk fun s a => (f s a).bind (onOk g)) := by
  rw [FileTask.bind_assoc]
  exact bind_eq_bind_onOk (fun _ _ => rfl) fun _ _ => rfl

theorem endsIn_onOk_ok_iff {t : FileTask (ρ × Except ε α)}
    {next : ρ → α → FileTask (ρ × Except ε β)} {s : ρ} {b : β} :
    (t.bind (onOk next)).EndsIn (s, .ok b) ↔
      ∃ mid a, t.EndsIn (mid, .ok a) ∧ (next mid a).EndsIn (s, .ok b) := by
  rw [endsIn_bind_iff]
  constructor
  · rintro ⟨⟨mid, a | a⟩, ht, hnext⟩
    · simp at hnext
    · exact ⟨mid, a, ht, hnext⟩
  · rintro ⟨mid, a, ht, hnext⟩
    exact ⟨(mid, .ok a), ht, hnext⟩

theorem endsIn_onOk_error_iff {t : FileTask (ρ × Except ε α)}
    {next : ρ → α → FileTask (ρ × Except ε β)} {s : ρ} {e : ε} :
    (t.bind (onOk next)).EndsIn (s, .error e) ↔ t.EndsIn (s, .error e) ∨
      ∃ mid a, t.EndsIn (mid, .ok a) ∧ (next mid a).EndsIn (s, .error e) := by
  rw [endsIn_bind_iff]
  constructor
  · rintro ⟨⟨mid, cause | a⟩, ht, hnext⟩
    · obtain ⟨rfl, rfl⟩ : s = mid ∧ e = cause := by simpa using hnext
      exact .inl ht
    · exact .inr ⟨mid, a, ht, hnext⟩
  · rintro (ht | ⟨mid, a, ht, hnext⟩)
    · exact ⟨(s, .error e), ht, by simp⟩
    · exact ⟨(mid, .ok a), ht, hnext⟩

end OnOk

section Writes

variable [RecordSink ρ] {handle : HandleId} {record : String} {calls : List (HandleId × String)}

/-- Makes writes in turn until one of them fails. -/
def writeAll : List (HandleId × String) → ρ → FileTask (ρ × Except SinkError Unit)
  | [], sink => .done (sink, .ok ())
  | (handle, record) :: calls, sink =>
    (RecordSink.write sink handle record).bind (onOk fun sink _ => writeAll calls sink)

/-- The writes succeed, each in the state that those before it leave the sink in. -/
inductive Writes : ρ → List (HandleId × String) → ρ → Prop where
  | nil (sink : ρ) : Writes sink [] sink
  | cons {sink mid sink' : ρ} {handle : HandleId} {record : String}
      {calls : List (HandleId × String)} :
      (RecordSink.write sink handle record).EndsIn (mid, .ok ()) → Writes mid calls sink' →
      Writes sink ((handle, record) :: calls) sink'

theorem writes_nil_iff {sink sink' : ρ} : Writes sink [] sink' ↔ sink' = sink :=
  ⟨fun h => by cases h; rfl, fun h => h ▸ .nil sink⟩

theorem writes_cons_iff {sink sink' : ρ} : Writes sink ((handle, record) :: calls) sink' ↔
    ∃ mid, (RecordSink.write sink handle record).EndsIn (mid, .ok ()) ∧ Writes mid calls sink' :=
  ⟨fun h => by cases h with | cons hwrite hcalls => exact ⟨_, hwrite, hcalls⟩,
    fun ⟨_, hwrite, hcalls⟩ => .cons hwrite hcalls⟩

theorem writes_append_iff {first second : List (HandleId × String)} {sink sink' : ρ} :
    Writes sink (first ++ second) sink' ↔ ∃ mid, Writes sink first mid ∧ Writes mid second sink' := by
  induction first generalizing sink with
  | nil => simp [writes_nil_iff]
  | cons call first ih =>
      obtain ⟨handle, record⟩ := call
      simp only [List.cons_append, writes_cons_iff, ih]
      grind

theorem writeAll_append (first second : List (HandleId × String)) (sink : ρ) :
    writeAll (first ++ second) sink =
      (writeAll first sink).bind (onOk fun sink _ => writeAll second sink) := by
  induction first generalizing sink with
  | nil => rfl
  | cons call first ih =>
      simp only [List.cons_append, writeAll, bind_onOk_assoc, ih]

theorem endsIn_writeAll_ok_iff {sink sink' : ρ} :
    (writeAll calls sink).EndsIn (sink', .ok ()) ↔ Writes sink calls sink' := by
  induction calls generalizing sink with
  | nil => simp [writeAll, writes_nil_iff]
  | cons call calls ih =>
      obtain ⟨handle, record⟩ := call
      simp only [writeAll, endsIn_onOk_ok_iff, writes_cons_iff, ih]
      exact ⟨fun ⟨mid, _, h⟩ => ⟨mid, h⟩, fun ⟨mid, h⟩ => ⟨mid, (), h⟩⟩

/-- A failure comes from one of the writes, and those before it succeed. -/
theorem endsIn_writeAll_error_iff {sink sink' : ρ} {e : SinkError} :
    (writeAll calls sink).EndsIn (sink', .error e) ↔
      ∃ (k : Nat) (handle : HandleId) (record : String) (mid : ρ),
        calls[k]? = some (handle, record) ∧ Writes sink (calls.take k) mid ∧
        (RecordSink.write mid handle record).EndsIn (sink', .error e) := by
  induction calls generalizing sink with
  | nil => simp [writeAll]
  | cons call calls ih =>
      obtain ⟨handle, record⟩ := call
      simp only [writeAll, endsIn_onOk_error_iff, ih]
      constructor
      · rintro (hfirst | ⟨mid, _, hwrite, k, h, r, last, hcall, hwrites, hfail⟩)
        · exact ⟨0, handle, record, sink, rfl, .nil sink, hfirst⟩
        · exact ⟨k + 1, h, r, last, hcall, .cons hwrite hwrites, hfail⟩
      · rintro ⟨k, h, r, last, hcall, hwrites, hfail⟩
        cases k with
        | zero =>
            obtain ⟨rfl, rfl⟩ : handle = h ∧ record = r := by simpa using hcall
            obtain rfl := writes_nil_iff.mp hwrites
            exact .inl hfail
        | succ k =>
            obtain ⟨mid, hwrite, hrest⟩ := writes_cons_iff.mp hwrites
            exact .inr ⟨mid, (), hwrite, k, h, r, last, hcall, hrest, hfail⟩

end Writes

/-- Whether a line holds a record. -/
def isRecord (line : String) : Bool :=
  (record? line).isSome

/-- The writes that the records of some lines ask for. -/
def trace (table : RoutingTable) (lines : List String) : List (HandleId × String) :=
  (records lines).flatMap fun record =>
    (record.matched.flatMap table.handlesOf).eraseDups.map fun handle => (handle, record.data.text)

/-- What is counted over some lines if no write fails. -/
def counts (table : RoutingTable) (lines : List String) : ReplayStats where
  records := lines.countP isRecord
  writes := (trace table lines).length
  skipped := lines.countP isSkipped

variable {table : RoutingTable}

theorem trace_append (first second : List String) :
    trace table (first ++ second) = trace table first ++ trace table second := by
  unfold trace records
  rw [List.filterMap_append, List.flatMap_append]

theorem counts_append (first second : List String) :
    counts table (first ++ second) = (counts table first).add (counts table second) := by
  unfold counts ReplayStats.add
  rw [trace_append, List.countP_append, List.countP_append, List.length_append]

section Lines

variable [RecordSink ρ]

theorem writeTo_eq (sink : ρ) (record : String) (handles : List HandleId) :
    RoutingTable.writeTo sink record handles =
      writeAll (handles.map fun handle => (handle, record)) sink := by
  induction handles generalizing sink with
  | nil => rfl
  | cons handle handles ih =>
      rw [RoutingTable.writeTo, List.map_cons, writeAll, FileTask.bind_eq]
      exact bind_eq_bind_onOk (fun sink _ => ih sink) fun _ _ => rfl

theorem route_eq (sink : ρ) (record : String) (matched : List RuleId) :
    table.route sink record matched =
      (writeAll ((table.targets matched).map fun handle => (handle, record)) sink).bind
        (onOk fun sink _ => .done (sink, .ok (table.targets matched).length)) := by
  unfold RoutingTable.route
  rw [← writeTo_eq, FileTask.bind_eq]
  exact bind_eq_bind_onOk (fun _ _ => rfl) fun _ _ => rfl

/-- One line. -/
theorem takeLine_eq (sink : ρ) (stats : ReplayStats) (line : String) :
    takeLine table sink stats line = (writeAll (trace table [line]) sink).bind
      (onOk fun sink _ => .done (sink, .ok (stats.add (counts table [line])))) := by
  unfold takeLine
  by_cases hblank : Text.isBlankText line = true
  · simp [hblank, trace, counts, records, record?, isRecord, isSkipped, writeAll, ReplayStats.add]
  · cases hparse : CaptureRecord.parse? line with
    | none =>
        simp [hblank, hparse, trace, counts, records, record?, isRecord, isSkipped, writeAll,
          ReplayStats.add]
    | some record =>
        have htrace : trace table [line] =
            (table.targets record.matched).map fun handle => (handle, record.data.text) := by
          simp [trace, records, record?, hblank, hparse, RoutingTable.targets_eq]
        have hcounts : counts table [line] = ⟨1, (table.targets record.matched).length, 0⟩ := by
          simp [counts, htrace, isRecord, isSkipped, record?, hblank, hparse]
        rw [if_neg hblank, htrace, hcounts]
        simp only [FileTask.bind_eq]
        rw [route_eq, FileTask.bind_assoc]
        exact bind_eq_bind_onOk (fun _ _ => rfl) fun _ _ => rfl

/-- Handles lines one after the other, the way a reader gives them. -/
def takeLines (source : String) (table : RoutingTable) (limit? : Option Nat) :
    List Bytes → ρ → ReplayStats → FileTask (ρ × Except SinkError ReplayStats)
  | [], sink, stats => .done (sink, .ok stats)
  | line :: lines, sink, stats =>
    if reached limit? stats then .done (sink, .ok stats)
    else
      match lineText? line with
      | none => .done (sink, .error (.capture source .notText))
      | some text => (takeLine table sink stats text).bind
          (onOk fun sink stats => takeLines source table limit? lines sink stats)

theorem next_waiting (b : Bytes) : ∃ rest : Bytes, rest.toLines = b.toLines.tail ∧
    LineReader.next { waiting := b } 0 = .done ({ waiting := rest }, .ok b.toLines.head?) := by
  unfold LineReader.next
  cases hcut : b.cutLine? with
  | some cut =>
      obtain ⟨line, rest⟩ := cut
      obtain ⟨-, -, hlines⟩ := Bytes.cutLine?_eq_some hcut
      exact ⟨rest, by rw [hlines, List.tail_cons], by rw [hlines, List.head?_cons]⟩
  | none =>
      have hlines := Bytes.cutLine?_eq_none hcut
      refine ⟨[], ?_, ?_⟩ <;> rw [hlines] <;> cases b <;> rfl

/-- A reader of bytes gives their lines. -/
theorem readLines_eq (source : String) (table : RoutingTable) (limit? : Option Nat) {b : Bytes}
    {count : Nat} (hcount : b.toLines.length < count) (sink : ρ) (stats : ReplayStats) :
    readLines source table limit? 0 { waiting := b } sink stats count =
      takeLines source table limit? b.toLines sink stats := by
  induction count generalizing b sink stats with
  | zero => cases hcount
  | succ count ih =>
      obtain ⟨rest, hrest, hnext⟩ := next_waiting b
      rw [readLines, hnext]
      cases hlines : b.toLines with
      | nil => rfl
      | cons line lines =>
          rw [hlines] at hcount hrest
          rw [List.tail_cons] at hrest
          -- the bytes behind the first line have the other lines as theirs
          have hlater := fun (sink : ρ) (stats : ReplayStats) =>
            ih (hrest ▸ Nat.lt_of_succ_lt_succ hcount) sink stats
          rw [hrest] at hlater
          simp only [List.head?_cons, FileTask.bind_eq, FileTask.done_bind, takeLines]
          congr 1
          cases lineText? line with
          | none => rfl
          | some text => exact bind_eq_bind_onOk hlater fun _ _ => rfl

theorem replayBytes_eq (capture : Bytes) (source : String) (table : RoutingTable) (sink : ρ)
    (limit? : Option Nat) : replayBytes capture source table sink limit? =
      takeLines source table limit? capture.toLines sink {} :=
  readLines_eq source table limit? (Nat.lt_succ_of_le (Bytes.length_toLines_le capture)) sink {}

/-- Lines that are texts, without a limit. -/
theorem takeLines_eq_writeAll (source : String) {lines : List Bytes} {texts : List String}
    (htexts : lines.map lineText? = texts.map some) (sink : ρ) (stats : ReplayStats) :
    takeLines source table none lines sink stats = (writeAll (trace table texts) sink).bind
      (onOk fun sink _ => .done (sink, .ok (stats.add (counts table texts)))) := by
  induction lines generalizing texts sink stats with
  | nil =>
      obtain rfl : texts = [] := by simpa using htexts
      rfl
  | cons line lines ih =>
      obtain ⟨text, rest, rfl, hline, hrest⟩ := List.map_eq_cons_iff.mp htexts.symm
      rw [takeLines, ← hline]
      simp only [reached, Bool.false_eq_true, if_false]
      rw [← List.singleton_append, trace_append, counts_append, writeAll_append, takeLine_eq,
        bind_onOk_assoc, bind_onOk_assoc]
      simp only [FileTask.done_bind, onOk_ok, ih hrest.symm, ReplayStats.add_assoc]

section Whole

variable (source : String) (text : String) {sink sink' : ρ} {stats : ReplayStats} {e : SinkError}

theorem replayBytes_ofText (sink : ρ) : replayBytes (.ofText text) source table sink none =
    (writeAll (trace table (Text.lines text)) sink).bind
      (onOk fun sink _ => .done (sink, .ok (counts table (Text.lines text)))) := by
  rw [replayBytes_eq,
    takeLines_eq_writeAll source (map_lineText?_toLines (Bytes.text?_ofText text))]
  simp only [ReplayStats.add, Nat.zero_add]

theorem endsIn_replay_ok_iff :
    (replayBytes (.ofText text) source table sink none).EndsIn (sink', .ok stats) ↔
      Writes sink (trace table (Text.lines text)) sink' ∧ stats = counts table (Text.lines text) := by
  rw [replayBytes_ofText, endsIn_onOk_ok_iff]
  simp only [endsIn_done_iff, Prod.mk.injEq, Except.ok.injEq]
  constructor
  · rintro ⟨mid, _, hwrites, rfl, hstats⟩
    exact ⟨endsIn_writeAll_ok_iff.mp hwrites, hstats⟩
  · rintro ⟨hwrites, hstats⟩
    exact ⟨sink', (), endsIn_writeAll_ok_iff.mpr hwrites, rfl, hstats⟩

theorem endsIn_replay_error_iff :
    (replayBytes (.ofText text) source table sink none).EndsIn (sink', .error e) ↔
      (writeAll (trace table (Text.lines text)) sink).EndsIn (sink', .error e) := by
  rw [replayBytes_ofText, endsIn_onOk_error_iff]
  simp

end Whole

end Lines

/-- The lines of a capture and of one behind it, which begins on a new line. -/
theorem lines_append {front : String} (hfront : front = "" ∨ ∃ text, front = text ++ "\n")
    (back : String) : Text.lines (front ++ back) = Text.lines front ++ Text.lines back := by
  have hlines (text : String) := map_lineText?_toLines (Bytes.text?_ofText text)
  obtain rfl | ⟨text, rfl⟩ := hfront
  · rw [String.empty_append]
    rfl
  · have hfeed : Bytes.ofText "\n" = [10] := by rfl
    refine List.map_injective_iff.mpr (fun _ _ => Option.some.inj) ?_
    rw [List.map_append, ← hlines, ← hlines, ← hlines, ← List.map_append, Bytes.ofText_append,
      Bytes.ofText_append, hfeed, List.append_assoc, List.singleton_append,
      Bytes.toLines_append_feed]

/-- A replay without a limit is its trace: the writes of the trace are made in turn until
one fails. It succeeds exactly if all of them do, and the lines decide what is counted. It
fails exactly if a write of the trace does, behind others that succeed, and with the error
of that write. Captures one behind the other have their traces and counts put together. -/
theorem replay_follows_trace [RecordSink ρ] (table : RoutingTable) (source text : String)
    (sink : ρ) :
    let replay (text : String) (sink : ρ) := replayBytes (.ofText text) source table sink none
    let calls (text : String) := trace table (Text.lines text)
    let stats (text : String) : ReplayStats :=
      ⟨(Text.lines text).countP isRecord, (calls text).length, (Text.lines text).countP isSkipped⟩
    replay text sink =
        (writeAll (calls text) sink).bind (onOk fun sink _ => .done (sink, .ok (stats text))) ∧
      (∀ sink' counted, (replay text sink).EndsIn (sink', .ok counted) ↔
        Writes sink (calls text) sink' ∧ counted = stats text) ∧
      (∀ sink' e, (replay text sink).EndsIn (sink', .error e) ↔
        ∃ (k : Nat) (handle : HandleId) (record : String) (mid : ρ),
          (calls text)[k]? = some (handle, record) ∧ Writes sink ((calls text).take k) mid ∧
          (RecordSink.write mid handle record).EndsIn (sink', .error e)) ∧
      ((text = "" ∨ ∃ front, text = front ++ "\n") → ∀ back,
        calls (text ++ back) = calls text ++ calls back ∧
        ∀ sink' counted, (replay (text ++ back) sink).EndsIn (sink', .ok counted) ↔
          ∃ mid first second, (replay text sink).EndsIn (mid, .ok first) ∧
            (replay back mid).EndsIn (sink', .ok second) ∧ counted = first.add second) := by
  intro replay calls stats
  refine ⟨replayBytes_ofText source text sink, fun sink' counted => endsIn_replay_ok_iff source text,
    fun sink' e => (endsIn_replay_error_iff source text).trans endsIn_writeAll_error_iff,
    fun hends back => ?_⟩
  have hlines := lines_append hends back
  have hcalls : calls (text ++ back) = calls text ++ calls back :=
    (congrArg (trace table) hlines).trans (trace_append _ _)
  have hstats : stats (text ++ back) = (stats text).add (stats back) :=
    (congrArg (counts table) hlines).trans (counts_append _ _)
  refine ⟨hcalls, fun sink' counted => ?_⟩
  -- the sink between the two captures is the one between the two parts of the trace
  have hboth : (replay (text ++ back) sink).EndsIn (sink', .ok counted) ↔
      Writes sink (calls (text ++ back)) sink' ∧ counted = stats (text ++ back) :=
    endsIn_replay_ok_iff source _
  rw [hboth, hcalls, hstats, writes_append_iff]
  constructor
  · rintro ⟨⟨mid, hfirst, hsecond⟩, hcounted⟩
    exact ⟨mid, stats text, stats back, (endsIn_replay_ok_iff source text).mpr ⟨hfirst, rfl⟩,
      (endsIn_replay_ok_iff source back).mpr ⟨hsecond, rfl⟩, hcounted⟩
  · rintro ⟨mid, first, second, hfirst, hsecond, hcounted⟩
    obtain ⟨hwrites, rfl⟩ := (endsIn_replay_ok_iff source text).mp hfirst
    obtain ⟨hlater, rfl⟩ := (endsIn_replay_ok_iff source back).mp hsecond
    exact ⟨⟨mid, hwrites, hlater⟩, hcounted⟩

/-- A capture with a blank line and one that is no record, another one behind it, and a
handle whose writes are refused. -/
theorem replay_follows_trace_into_recorders :
    let table : RoutingTable := ⟨[("1", [0, 1]), ("2", [1, 2])]⟩
    let front := "\x7b\"data\": 5, \"matching_rules\": [\x7b\"id\": \"2\"\x7d, \x7b\"id\": \"1\"\x7d]\x7d\n \nno record" ++ "\n"
    let back := "[7, [[\"1\"]]]"
    let replay (text : String) (sink : Recorder) :=
      replayBytes (.ofText text) "capture" table sink none
    let refusing : Recorder := { refused := some 0 }
    (front = "" ∨ ∃ text, front = text ++ "\n") ∧
      (replay (front ++ back) {}).EndsIn
        ({ writes := [(1, "5"), (2, "5"), (0, "5"), (0, "7"), (1, "7")] }, .ok ⟨2, 5, 1⟩) ∧
      (replay front refusing).EndsIn
        ({ refusing with writes := [(1, "5"), (2, "5")] }, .error (.unknownSink 0)) := by
  intro table front back replay refusing
  have hends : front = "" ∨ ∃ text, front = text ++ "\n" := .inr ⟨_, rfl⟩
  have hfront : trace table (Text.lines front) = [(1, "5"), (2, "5"), (0, "5")] := by
    decide +kernel
  have hback : trace table (Text.lines back) = [(0, "7"), (1, "7")] := by decide +kernel
  obtain ⟨-, hfirst, -, hboth⟩ := replay_follows_trace table "capture" front ({} : Recorder)
  have hsecond := (replay_follows_trace table "capture" back
    ({ writes := [(1, "5"), (2, "5"), (0, "5")] } : Recorder)).2.1
  have hfail := (replay_follows_trace table "capture" front refusing).2.2.1
  simp only [hfront] at hfirst hfail
  simp only [hback] at hsecond
  refine ⟨hends, ((hboth hends back).2 _ _).mpr ⟨_, _, _, (hfirst _ _).mpr ⟨?_, rfl⟩,
    (hsecond _ _).mpr ⟨?_, rfl⟩, ?_⟩, (hfail _ _).mpr ⟨2, 0, "5",
      { refusing with writes := [(1, "5"), (2, "5")] }, rfl, ?_, .done _⟩⟩
  · exact .cons (.done _) (.cons (.done _) (.cons (.done _) (.nil _)))
  · exact .cons (.done _) (.cons (.done _) (.nil _))
  · decide +kernel
  · exact .cons (.done _) (.cons (.done _) (.nil _))

end RuleDesk.Replay
