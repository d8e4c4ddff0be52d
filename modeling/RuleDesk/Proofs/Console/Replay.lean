import RuleDesk.Proofs.Capture.Replay
import RuleDesk.Proofs.Console.Lines
import RuleDesk.Proofs.Console.Mirror
import RuleDesk.Proofs.Console.Subscriptions

/-!
# A replay from end to end

What the files hold after a capture has been replayed from the console.
-/
namespace RuleDesk.Session

open FileTask FileSpace

variable {σ : Type} {s : Session σ}

/-- The path under which the records of a handle are written. -/
def target (s : Session σ) (h : Handle) : String :=
  (Path.absolute? s.workDir h.file).getD h.file

/-- What a replay of some records leaves in the file of a path. -/
def replayed (s : Session σ) (records : List CaptureRecord) (path : String) : Bytes :=
  records.flatMap fun record =>
    ((s.fed record.matched).filter fun h => s.target h = path).flatMap fun _ =>
      Bytes.ofText (record.data.text ++ "\n")

theorem linesUnder_history (s : Session σ) (lines : List String) (path : String) :
    FileSink.linesUnder (Replay.history s.fed s.target lines) path =
      s.replayed (Replay.records lines) path := by
  unfold FileSink.linesUnder Replay.history replayed
  rw [List.filter_flatMap, List.flatMap_assoc]
  congr 1
  funext record
  rw [List.filter_map, List.flatMap_map]
  simp [FileSink.lineOf, Function.comp_def]

theorem mem_history_paths {lines : List String} {path : String} :
    path ∈ (Replay.history s.fed s.target lines).map Prod.fst ↔
      ∃ record ∈ Replay.records lines, ∃ h ∈ s.fed record.matched, s.target h = path := by
  simp [Replay.history, List.map_flatMap]

theorem separate {fs : FileSpace}
    (hwritable : ∀ h ∈ s.handles.list, (fs.writable? (s.target h)).isSome = true)
    (hapart : ∀ g ∈ s.handles.list, ∀ h ∈ s.handles.list, s.target g ≠ s.target h →
      fs.writable? (s.target g) ≠ fs.writable? (s.target h)) :
    fs.Separate (s.handles.list.map s.target) where
  writable := by
    intro path hpath
    obtain ⟨h, hh, rfl⟩ := List.mem_map.mp hpath
    exact Option.isSome_iff_exists.mp (hwritable h hh)
  apart := by
    intro path hpath other hother
    obtain ⟨g, hg, rfl⟩ := List.mem_map.mp hpath
    obtain ⟨h, hh, rfl⟩ := List.mem_map.mp hother
    exact hapart g hg h hh

/-- The handles that are fed are known to the sink that a replay makes. -/
theorem Subscribed.feeds (hs : s.Subscribed) :
    Replay.Feeds (RoutingTable.build s.rules s.handles) (FileSink.ofHandles s.workDir s.handles)
      (s.handles.list.map s.target) s.fed s.target where
  targets := hs.targets_eq
  known := by
    intro matched h hh
    have hmem := (mem_fed_iff.mp hh).1
    exact ⟨FileSink.target?_registerAll hs.handles.sound.nodup_ids _ hmem,
      List.mem_map_of_mem hmem⟩

theorem replayInto_run (hs : s.Subscribed) {before : FileSpace}
    (hpaths : before.Separate (s.handles.list.map s.target)) {file : FileId}
    (hfile : file < before.opened.length) {source : Location}
    (hsource : ∀ path ∈ s.handles.list.map s.target, before.writable? path ≠ some source)
    {content : Bytes} {text : String} (htext : content.text? = some text)
    (hremains : before.Remains file source content) (name : String) :
    let history := Replay.history s.fed s.target (Text.lines text)
    ∃ fs', (Console.replayInto s file name none).run before =
        (.ok (Replay.tally s.fed (Text.lines text)), fs') ∧
      (∀ path ∈ history.map Prod.fst, ∀ place, before.writable? path = some place →
        fs'.entry? place = some (.regular (FileSink.linesUnder history path))) ∧
      ∀ location, (∀ path ∈ history.map Prod.fst, before.writable? path ≠ some location) →
        fs'.entry? location = before.entry? location := by
  intro history
  obtain ⟨sink, fs₁, hreplay, hwrote⟩ := hs.feeds.replayFile_run hpaths
    (FileSink.ofHandles_writers _ _) hfile hsource htext hremains name
  obtain ⟨sink', fs', hclose, hdrop, hwritten, hkept⟩ := hwrote.close hpaths
  refine ⟨fs', ?_, hwritten, hkept⟩
  unfold Console.replayInto
  simp only [FileTask.bind_eq]
  rw [run_bind_of_run hreplay]
  simp only []
  rw [run_bind_of_run hclose]
  simp only []
  rw [run_bind_of_run hdrop]
  rfl

theorem replay_run (hhandles : s.handles.list ≠ []) {fs before fs' : FileSpace} {capture : String}
    {file : FileId} (hopen : (FileTask.openFile capture .read).run fs = (.ok file, before))
    {stats : ReplayStats}
    (hrun : (Console.replayInto s file capture none).run before = (.ok stats, fs')) :
    (Console.replay ⟨[("capture", .one capture), ("limit", .absent)]⟩ s).run fs =
      ((s, .ok (Console.statsText stats)), fs') := by
  have hrequest : Console.replayRequest ⟨[("capture", .one capture), ("limit", .absent)]⟩ =
      .ok (capture, none) := rfl
  have hsome : s.handles.list.isEmpty = false := by simpa using hhandles
  unfold Console.replay
  simp only [hrequest, hsome, Bool.false_eq_true, if_false, FileTask.bind_eq]
  rw [run_bind_of_run hopen]
  simp only []
  rw [run_bind_of_run hrun]
  rfl

variable [RuleStore σ]

/-- What a replay of a capture does, in any session with handles that lines lead to, if
the files of the handles can be made and differ wherever their paths do. A file to which
a record goes holds the records of its handles, in the order of the capture and for each
record in the order of its handles, and no other file changes. -/
theorem replay_writes_routed_records (hreached : s.Reached) (hhandles : s.handles.list ≠ [])
    {fs : FileSpace} {capture : String} {source : Location} {content : Bytes} {text : String}
    (hcapture : fs.findExisting capture = .ok (source, .regular content))
    (htext : content.text? = some text)
    (hother : ∀ h ∈ s.handles.list, fs.writable? (s.target h) ≠ some source)
    (hwritable : ∀ h ∈ s.handles.list, (fs.writable? (s.target h)).isSome = true)
    (hapart : ∀ g ∈ s.handles.list, ∀ h ∈ s.handles.list, s.target g ≠ s.target h →
      fs.writable? (s.target g) ≠ fs.writable? (s.target h))
    {line : String} (hline : tokenize line = ["stream", "replay", capture]) (out : Output) :
    let records := Replay.records (Text.lines text)
    (∃ fs', (s.execute out line).run fs =
        (.ofText s out "stream replay" (Console.statsText
          { records := records.length
            writes := (records.flatMap fun record => s.fed record.matched).length
            skipped := (Text.lines text).countP Replay.isSkipped }), fs') ∧
      (∀ record ∈ records, ∀ h ∈ s.fed record.matched, ∀ place,
        fs.writable? (s.target h) = some place →
          fs'.entry? place = some (.regular (s.replayed records (s.target h)))) ∧
      ∀ location, (∀ record ∈ records, ∀ h ∈ s.fed record.matched,
        fs.writable? (s.target h) ≠ some location) →
          fs'.entry? location = fs.entry? location) ∧
    ∀ matched, (s.fed matched).Nodup ∧
      (∀ h, h ∈ s.fed matched ↔ h ∈ s.handles.list ∧
        ((∃ id ∈ matched, id ∈ h.rules) ∨
          h.rules = [] ∧ ∃ id ∈ matched, s.rules.registers id = true)) ∧
      (s.fed matched).Pairwise fun g h =>
        s.firstTaken matched g < s.firstTaken matched h ∨
          s.firstTaken matched g = s.firstTaken matched h ∧ g.id < h.id := by
  intro records
  have hs := hreached.subscribed
  obtain ⟨fs₁, hopen, hremains, hsame⟩ := read_run hcapture
  obtain ⟨hpaths, hplaces⟩ := (separate hwritable hapart).filled hsame.filled
  have hfile : fs.opened.length < fs₁.opened.length := by
    obtain ⟨_, _, _, hopened, -⟩ := hremains
    exact (List.getElem?_eq_some_iff.mp hopened).1
  have hsource : ∀ path ∈ s.handles.list.map s.target, fs₁.writable? path ≠ some source := by
    intro path hpath
    rw [hplaces path hpath]
    obtain ⟨h, hh, rfl⟩ := List.mem_map.mp hpath
    exact hother h hh
  obtain ⟨fs', hrun, hwritten, hkept⟩ :=
    replayInto_run hs hpaths hfile hsource htext hremains capture
  have hplace {record : CaptureRecord} {h : Handle} (hh : h ∈ s.fed record.matched) :
      fs₁.writable? (s.target h) = fs.writable? (s.target h) :=
    hplaces _ (List.mem_map_of_mem (mem_fed_iff.mp hh).1)
  refine ⟨⟨fs', ?_, fun record hrecord h hh place hto => ?_, fun location hout => ?_⟩, fun matched =>
    ⟨RoutingTable.nodup_eraseDups _, fun h => ?_, fed_ordered hs.handles.sound matched⟩⟩
  · refine Console.execute_replay s out hline ?_
    exact replay_run hhandles hopen hrun
  · rw [← linesUnder_history]
    refine hwritten _ (mem_history_paths.mpr ⟨record, hrecord, h, hh, rfl⟩) place ?_
    rw [hplace hh, hto]
  · rw [hkept location fun path hpath => ?_, hsame.entries location List.not_mem_nil]
    obtain ⟨record, hrecord, h, hh, rfl⟩ := mem_history_paths.mp hpath
    rw [hplace hh]
    exact hout record hrecord h hh
  · simp only [mem_fed_iff, RoutingTable.takes_iff, Handle.receivesAll, List.isEmpty_iff]
    grind

/-- Two handles that write to one file, spelled in two ways, a line that is no record, and
a blank line. -/
theorem replay_writes_routed_records_shared_file :
    let s := (refusedRun (Session.new {} {} "/") ["rules add cats cat", "rules add dogs dog",
      "handle add all /a", "handle add cats ./a cats"]).2
    let capture := "\x7b\"data\": 5, \"matching_rules\": [\x7b\"id\": \"1\"\x7d]\x7d\nno record\n\n[7, [[\"2\"]]]"
    let files : FileSpace := { entries := [(["a"], .regular (.ofText "old")),
      (["b"], .regular (.ofText "kept")), (["capture"], .regular (.ofText capture))] }
    ∃ files', (s.execute {} "stream replay /capture").run files =
        (.ofText s {} "stream replay" "Replayed 2 record(s): 3 write(s), 1 skipped\n", files') ∧
      files'.entry? ["a"] = some (.regular (.ofText "5\n5\n7\n")) ∧
      files'.entry? ["b"] = some (.regular (.ofText "kept")) := by
  intro s capture files
  have hreached : s.Reached := (leads_refusedRun _ _).reached (.new _ _ _)
  have hhandles : s.handles.list ≠ [] := by decide +kernel
  have hcapture : files.findExisting "/capture" = .ok (["capture"], .regular (.ofText capture)) := by
    decide +kernel
  have hother : ∀ h ∈ s.handles.list, files.writable? (s.target h) ≠ some ["capture"] := by
    decide +kernel
  have hwritable : ∀ h ∈ s.handles.list, (files.writable? (s.target h)).isSome = true := by
    decide +kernel
  have hapart : ∀ g ∈ s.handles.list, ∀ h ∈ s.handles.list, s.target g ≠ s.target h →
      files.writable? (s.target g) ≠ files.writable? (s.target h) := by decide +kernel
  have hline : tokenize "stream replay /capture" = ["stream", "replay", "/capture"] := by
    decide +kernel
  obtain ⟨⟨files', hrun, hwritten, hkept⟩, -⟩ := replay_writes_routed_records hreached hhandles
    hcapture (Bytes.text?_ofText capture) hother hwritable hapart hline {}
  refine ⟨files', hrun.trans ?_, ?_, ?_⟩
  · have hstats : Console.statsText (Replay.tally s.fed (Text.lines capture)) =
        "Replayed 2 record(s): 3 write(s), 1 skipped\n" := by decide +kernel
    exact congrArg (fun text => (Outcome.ofText s {} "stream replay" text, files')) hstats
  · obtain ⟨record, hrecord, h, hh, htarget, hplace⟩ :
        ∃ record ∈ Replay.records (Text.lines capture), ∃ h ∈ s.fed record.matched,
          s.target h = "/a" ∧ files.writable? (s.target h) = some ["a"] := by decide +kernel
    have hlines : s.replayed (Replay.records (Text.lines capture)) "/a" =
        Bytes.ofText "5\n5\n7\n" := by decide +kernel
    rw [hwritten record hrecord h hh ["a"] hplace, htarget, hlines]
  · have hout : ∀ record ∈ Replay.records (Text.lines capture), ∀ h ∈ s.fed record.matched,
        files.writable? (s.target h) ≠ some ["b"] := by decide +kernel
    rw [hkept ["b"] hout]
    rfl

end RuleDesk.Session
