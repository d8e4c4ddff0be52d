import RuleDesk.Capture.Replay
import RuleDesk.Proofs.Capture.FileSink
import RuleDesk.Proofs.Files.Encoding

/-!
# What a replay writes

The lines of a capture are its records, the lines that are skipped, and blank lines.
A replay into the files of handles writes every record to each of its handles, in
the order of the capture, while the capture is read on.
-/
namespace RuleDesk

open FileTask FileSpace

/-- The counts of a part of a capture and of the part behind it. -/
def ReplayStats.add (a b : ReplayStats) : ReplayStats :=
  ⟨a.records + b.records, a.writes + b.writes, a.skipped + b.skipped⟩

theorem ReplayStats.add_assoc (a b c : ReplayStats) : (a.add b).add c = a.add (b.add c) := by
  simp [add, Nat.add_assoc]

namespace Replay

/-- The record that a line holds. -/
def record? (line : String) : Option CaptureRecord :=
  if Text.isBlankText line then none else CaptureRecord.parse? line

/-- Whether a line is neither blank nor a record. -/
def isSkipped (line : String) : Bool :=
  !Text.isBlankText line && (CaptureRecord.parse? line).isNone

def records (lines : List String) : List CaptureRecord :=
  lines.filterMap record?

/-- What is counted where the matches of a record are fed to these handles. -/
def tally (fed : List RuleId → List Handle) (lines : List String) : ReplayStats where
  records := (records lines).length
  writes := ((records lines).flatMap fun record => fed record.matched).length
  skipped := lines.countP isSkipped

/-- The records that are written, each under the path of a handle. -/
def history (fed : List RuleId → List Handle) (target : Handle → String) (lines : List String) :
    List (String × String) :=
  (records lines).flatMap fun record =>
    (fed record.matched).map fun h => (target h, record.data.text)

variable {fed : List RuleId → List Handle} {target : Handle → String}

theorem tally_cons (line : String) (lines : List String) :
    tally fed (line :: lines) = (tally fed [line]).add (tally fed lines) := by
  unfold tally records ReplayStats.add
  rw [← List.singleton_append, List.filterMap_append, List.countP_append, List.flatMap_append,
    List.length_append, List.length_append]

theorem history_cons (line : String) (lines : List String) :
    history fed target (line :: lines) = history fed target [line] ++ history fed target lines := by
  unfold history records
  rw [← List.singleton_append, List.filterMap_append, List.flatMap_append]

variable {origin s : FileSink} {before fs : FileSpace} {paths : List String}
  {earlier : List (String × String)} {table : RoutingTable}

/-- A table sends the matches of a record to these handles, which a sink knows under
their paths. -/
structure Feeds (table : RoutingTable) (origin : FileSink) (paths : List String)
    (fed : List RuleId → List Handle) (target : Handle → String) : Prop where
  targets : ∀ matched, table.targets matched = (fed matched).map Handle.id
  known : ∀ matched, ∀ h ∈ fed matched, origin.target? h.id = some (target h) ∧ target h ∈ paths

theorem Feeds.route_run (hfeeds : Feeds table origin paths fed target)
    (hpaths : before.Separate paths)
    (hwrote : FileSink.Wrote origin before paths earlier s fs) (record : String)
    (matched : List RuleId) :
    ∃ s' fs', (table.route s record matched).run fs = ((s', .ok (fed matched).length), fs') ∧
      FileSink.Wrote origin before paths
        (earlier ++ (fed matched).map fun h => (target h, record)) s' fs' ∧
      SameFirst before.opened.length fs fs' := by
  obtain ⟨s', fs', hrun, hwrote', hfirst⟩ :=
    hwrote.writeTo hpaths (hfeeds.known matched) record
  refine ⟨s', fs', ?_, hwrote', hfirst⟩
  unfold RoutingTable.route
  rw [hfeeds.targets]
  simp only [FileTask.bind_eq]
  rw [run_bind_of_run hrun, List.length_map]
  rfl

/-- One line. -/
theorem Feeds.takeLine_run (hfeeds : Feeds table origin paths fed target)
    (hpaths : before.Separate paths)
    (hwrote : FileSink.Wrote origin before paths earlier s fs) (stats : ReplayStats)
    (line : String) :
    ∃ s' fs', (takeLine table s stats line).run fs =
        ((s', .ok (stats.add (tally fed [line]))), fs') ∧
      FileSink.Wrote origin before paths (earlier ++ history fed target [line]) s' fs' ∧
      SameFirst before.opened.length fs fs' := by
  unfold takeLine
  by_cases hblank : Text.isBlankText line = true
  · have hrecords : records [line] = [] := by simp [records, record?, hblank]
    refine ⟨s, fs, ?_, by simpa [history, hrecords] using hwrote, .refl _ _⟩
    rw [if_pos hblank]
    simp [tally, hrecords, ReplayStats.add, isSkipped, hblank]
  · rw [if_neg hblank]
    cases hparse : CaptureRecord.parse? line with
    | none =>
        have hrecords : records [line] = [] := by simp [records, record?, hblank, hparse]
        refine ⟨s, fs, ?_, by simpa [history, hrecords] using hwrote, .refl _ _⟩
        simp [tally, hrecords, ReplayStats.add, isSkipped, hblank, hparse]
    | some record =>
        have hrecords : records [line] = [record] := by simp [records, record?, hblank, hparse]
        obtain ⟨s', fs', hroute, hwrote', hfirst⟩ :=
          hfeeds.route_run hpaths hwrote record.data.text record.matched
        refine ⟨s', fs', ?_, by simpa [history, hrecords] using hwrote', hfirst⟩
        simp only [FileTask.bind_eq]
        rw [run_bind_of_run hroute]
        simp [tally, hrecords, ReplayStats.add, isSkipped, hparse, Except.map]

/-- The lines that are left, one after the other. Reading and writing take turns: the
capture stays as it is while the sink writes, and the sink while the capture is read. -/
theorem Feeds.readLines_run (hfeeds : Feeds table origin paths fed target)
    (hpaths : before.Separate paths) {file : FileId} (hfile : file < before.opened.length)
    {source : Location}
    (hsource : ∀ path ∈ paths, before.writable? path ≠ some source)
    {lines : List String} {bytes : Bytes} (hlines : bytes.toLines.map lineText? = lines.map some)
    {reader : LineReader} (hreader : reader.Left fs file source bytes)
    (hwrote : FileSink.Wrote origin before paths earlier s fs) (stats : ReplayStats)
    (name : String) {chunks count : Nat} (hchunks : bytes.length < chunks)
    (hcount : lines.length < count) :
    ∃ s' fs', (readLines name table none chunks reader s stats count).run fs =
        ((s', .ok (stats.add (tally fed lines))), fs') ∧
      FileSink.Wrote origin before paths (earlier ++ history fed target lines) s' fs' := by
  induction lines generalizing bytes reader fs s earlier stats count with
  | nil =>
      obtain ⟨count, rfl⟩ := Nat.exists_eq_succ_of_ne_zero (Nat.ne_of_gt hcount)
      obtain ⟨reader', fs', left, hnext, -, -, -, hsame⟩ := hreader.next hchunks
      have hnone : bytes.toLines = [] := by simpa using hlines
      rw [hnone, List.head?_nil] at hnext
      refine ⟨s, fs', ?_, by simpa [history, records] using hwrote.of_read hfile hsame⟩
      unfold readLines
      rw [FileTask.bind_eq, run_bind_of_run hnext]
      simp [tally, records, ReplayStats.add]
  | cons line lines ih =>
      obtain ⟨count, rfl⟩ := Nat.exists_eq_succ_of_ne_zero (Nat.ne_of_gt (Nat.zero_lt_of_lt hcount))
      obtain ⟨reader', fs₁, left, hnext, hleft, hrest, hlength, hsame⟩ := hreader.next hchunks
      obtain ⟨first, later, hcons, htext, hlater⟩ := List.map_eq_cons_iff.mp hlines
      rw [hcons, List.head?_cons] at hnext
      rw [hcons, List.tail_cons] at hrest
      have hwrote₁ := hwrote.of_read hfile hsame
      obtain ⟨s₂, fs₂, htake, hwrote₂, hfirst⟩ :=
        hfeeds.takeLine_run hpaths hwrote₁ stats line
      have hsource₂ : fs₂.entry? source = fs₁.entry? source := by
        rw [hwrote₂.entry_of_other hsource, hwrote₁.entry_of_other hsource]
      obtain ⟨s', fs', hrun, hwrote'⟩ := ih (hrest ▸ hlater)
        (hleft.of_same (hfirst file hfile) hsource₂) hwrote₂
        (stats.add (tally fed [line])) (Nat.lt_of_le_of_lt hlength hchunks)
        (Nat.lt_of_succ_lt_succ hcount)
      refine ⟨s', fs', ?_, ?_⟩
      · unfold readLines
        rw [FileTask.bind_eq, run_bind_of_run hnext]
        simp only [reached, Bool.false_eq_true, if_false, htext, FileTask.bind_eq]
        rw [run_bind_of_run htake, tally_cons line lines, ← ReplayStats.add_assoc]
        exact hrun
      · rw [history_cons, ← List.append_assoc]
        exact hwrote'

/-- A whole replay of an open capture into files that are made and closed by it. -/
theorem Feeds.replayFile_run (hfeeds : Feeds table origin paths fed target)
    (hpaths : before.Separate paths) (hnew : origin.writers = [] ∧ origin.created = [])
    {file : FileId}
    (hfile : file < before.opened.length) {source : Location}
    (hsource : ∀ path ∈ paths, before.writable? path ≠ some source) {content : Bytes}
    {text : String} (htext : content.text? = some text)
    (hremains : before.Remains file source content) (name : String) :
    ∃ s fs, (replayFile file name table origin none).run before =
        ((s, .ok (tally fed (Text.lines text))), fs) ∧
      FileSink.Wrote origin before paths (history fed target (Text.lines text)) s fs := by
  have hlines := map_lineText?_toLines htext
  have hcount : (Text.lines text).length ≤ content.length := by
    have hsame := congrArg List.length hlines
    rw [List.length_map, List.length_map] at hsame
    exact hsame ▸ Bytes.length_toLines_le content
  have hreader : LineReader.Left { source := some file } before file source content :=
    ⟨rfl, content, hremains, rfl⟩
  obtain ⟨bound, hbound⟩ : ∃ bound, bound = before.size file + fileSizeLimit := ⟨_, rfl⟩
  have hroom : content.length < bound := by
    have hlimit : 0 < fileSizeLimit := by decide
    have hsize := hremains.length_le
    omega
  obtain ⟨s, fs, hrun, hwrote⟩ := hfeeds.readLines_run hpaths hfile hsource hlines
    hreader (FileSink.wrote_nil hnew.1 hnew.2) {} name hroom (Nat.lt_of_le_of_lt hcount hroom)
  refine ⟨s, fs, ?_, hwrote⟩
  unfold replayFile
  rw [FileTask.bind_eq, run_bind_of_run (run_sizeBound file before), ← hbound]
  simpa [ReplayStats.add] using hrun

end Replay
end RuleDesk
