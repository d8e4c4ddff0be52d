import RuleDesk.Capture.Routing
import RuleDesk.Proofs.Capture.Writers

/-!
# What a file sink writes

Each path that records went to has one writer on a file of its own, which holds the
lines of its records; no other place has changed. Once the sink is closed, the files
hold these lines.
-/
namespace RuleDesk

open FileTask FileSpace

namespace FileSink

variable {before fs fs' : FileSpace} {paths : List String} {written : String → Bytes}
  {s : FileSink} {path : String} {place : Location} {w : BufferedWriter}

/-- What a record adds to its file. -/
def lineOf (record : String) : Bytes :=
  Bytes.ofText record ++ Bytes.ofText "\n"

/-- A line goes behind what has been written, in whatever way bytes are sent. -/
theorem writeLine_stands {Sent : Bytes → FileSpace → Prop} {bytes : Bytes}
    (haccepts : BufferedWriter.Accepts w.file Sent) (h : w.Stands Sent fs bytes) (record : String) :
    ∃ w' fs', (writeLine w record).run fs = ((w', .ok ()), fs') ∧ w'.file = w.file ∧
      w'.Stands Sent fs' (bytes ++ lineOf record) := by
  obtain ⟨w₁, fs₁, hrecord, hfile₁, hstands₁⟩ := h.write haccepts (Bytes.ofText record)
  obtain ⟨w', fs', hfeed, hfile, hstands⟩ :=
    hstands₁.write (hfile₁ ▸ haccepts) (Bytes.ofText "\n")
  refine ⟨w', fs', ?_, hfile.trans hfile₁, ?_⟩
  · unfold writeLine
    rw [FileTask.bind_eq, run_bind_of_run hrecord]
    exact hfeed
  · rw [lineOf, ← List.append_assoc]
    exact hstands

theorem writeLine_run {bytes : Bytes} (h : w.Holds fs place bytes) (record : String) :
    ∃ w' fs', (writeLine w record).run fs = ((w', .ok ()), fs') ∧ w'.file = w.file ∧
      w'.Holds fs' place (bytes ++ lineOf record) ∧ SameBut w.file [place] fs fs' := by
  obtain ⟨w', fs', hrun, hfile, content, ⟨hend, hsame⟩, hbytes⟩ :=
    writeLine_stands (BufferedWriter.accepts_atEnd w.file place fs) h.stands record
  exact ⟨w', fs', hrun, hfile, ⟨content, hfile ▸ hend, hbytes⟩, hsame⟩

/-- What the sink has done since `before`: its writers hold what was written, each file
was made by it and has been open since, and nothing else has changed. -/
structure Keeps (before : FileSpace) (paths : List String) (written : String → Bytes)
    (s : FileSink) (fs : FileSpace) : Prop where
  writing : Writing before paths written s fs
  created : s.created = s.writers.map Prod.fst
  later : ∀ w ∈ s.writers, before.opened.length ≤ w.2.file
  length : before.opened.length ≤ fs.opened.length
  workDir : fs.workDir = before.workDir
  entries : ∀ location, (∀ path ∈ s.writers.map Prod.fst, before.writable? path ≠ some location) →
    fs.entry? location = before.entry? location

theorem Keeps.filled (h : Keeps before paths written s fs) : Filled before fs where
  workDir := h.workDir
  entries := by
    intro location
    by_cases hout : ∀ path ∈ s.writers.map Prod.fst, before.writable? path ≠ some location
    · exact .inl (h.entries location hout)
    · simp only [not_forall, not_not] at hout
      obtain ⟨path, hpath, hplace⟩ := hout
      obtain ⟨v, hv, rfl⟩ := List.mem_map.mp hpath
      obtain ⟨place, hplace', content, hend, -⟩ := h.writing.holds v hv
      obtain rfl := Option.some.inj (hplace.symm.trans hplace')
      exact .inr ⟨(writable_eq_some_iff.mp hplace).2.2, content, hend.entry⟩

/-- A step on one file of the sink keeps all but the writers. -/
theorem Keeps.step (h : Keeps before paths written s fs) {s' : FileSink}
    {written' : String → Bytes} {file : FileId} (hsame : SameBut file [place] fs fs')
    (hwriting : Writing before paths written' s' fs')
    (hcreated : s'.created = s'.writers.map Prod.fst)
    (hlater : ∀ w ∈ s'.writers, before.opened.length ≤ w.2.file)
    (hkeys : ∀ other ∈ s.writers.map Prod.fst, other ∈ s'.writers.map Prod.fst)
    (hpath : path ∈ s'.writers.map Prod.fst) (hplace : before.writable? path = some place) :
    Keeps before paths written' s' fs' where
  writing := hwriting
  created := hcreated
  later := hlater
  length := Nat.le_trans h.length hsame.length
  workDir := hsame.workDir.trans h.workDir
  entries := by
    intro location hout
    have hne : location ≠ place := by
      rintro rfl
      exact hout path hpath hplace
    rw [hsame.entries location (by simpa using hne)]
    exact h.entries location fun other hother => hout other (hkeys other hother)

/-- The writer of a path is at hand, open since before or now. -/
theorem Keeps.openWriter (hpaths : before.Separate paths) (h : Keeps before paths written s fs)
    (hpath : path ∈ paths) (hfresh : path ∉ s.writers.map Prod.fst → written path = []) :
    ∃ s' w fs', (s.openWriter path).run fs = ((s', .ok w), fs') ∧ (path, w) ∈ s'.writers ∧
      s'.targets = s.targets ∧ Keeps before paths written s' fs' ∧
      (∀ other, other ∈ s'.writers.map Prod.fst ↔ other = path ∨ other ∈ s.writers.map Prod.fst) ∧
      SameFirst before.opened.length fs fs' := by
  unfold FileSink.openWriter
  by_cases hopen : path ∈ s.writers.map Prod.fst
  · obtain ⟨⟨_, w⟩, hw, rfl⟩ := List.mem_map.mp hopen
    rw [writer?_eq_some hpaths h.writing hw]
    refine ⟨s, w, fs, rfl, hw, rfl, h, fun other => ?_, .refl _ _⟩
    constructor
    · exact .inr
    · rintro (rfl | hother)
      · exact hopen
      · exact hother
  · obtain ⟨place, hplace⟩ := hpaths.writable path hpath
    obtain ⟨fs', hcreate, hend, hsame⟩ := create_run (h.filled.writable hplace)
    have hnew : s.created.any (sameFile · path) = false := by
      rw [List.any_eq_false, h.created]
      intro other hother hsameFile
      have hknown := h.writing.mem_paths hother
      exact hopen ((sameFile_iff hpaths hknown hpath).mp hsameFile ▸ hother)
    rw [writer?_eq_none hpaths h.writing hpath hopen]
    simp only [hnew, Bool.false_eq_true, if_false, FileTask.bind_eq]
    rw [run_bind_of_run hcreate]
    have hkeys (other : String) :
        other ∈ (s.writers ++ [(path, ({ file := fs.opened.length } : BufferedWriter))]).map Prod.fst ↔
          other = path ∨ other ∈ s.writers.map Prod.fst := by
      rw [List.map_append, List.mem_append, List.map_cons, List.map_nil, List.mem_singleton]
      exact or_comm
    refine ⟨_, _, fs', rfl, List.mem_append_right _ (List.mem_singleton_self _), rfl,
      h.step hsame (h.writing.opened hpaths hpath hplace hopen (hfresh hopen) hend hsame _) ?_ ?_
        (fun other hother => (hkeys other).mpr (.inr hother)) ((hkeys path).mpr (.inl rfl)) hplace,
      hkeys, hsame.sameFirst h.length⟩
    · rw [h.created, List.map_append, List.map_cons, List.map_nil]
    · intro v hv
      rcases List.mem_append.mp hv with hold | hlast
      · exact h.later v hold
      · rw [List.mem_singleton.mp hlast]
        exact h.length

/-- A record becomes a line of its handle's file. -/
theorem Keeps.write (hpaths : before.Separate paths) (h : Keeps before paths written s fs)
    {handle : HandleId} (htarget : s.target? handle = some path) (hpath : path ∈ paths)
    (hfresh : path ∉ s.writers.map Prod.fst → written path = []) (record : String) :
    ∃ s' fs', (s.write handle record).run fs = ((s', .ok ()), fs') ∧ s'.targets = s.targets ∧
      Keeps before paths (grown written path (lineOf record)) s' fs' ∧
      (∀ other, other ∈ s'.writers.map Prod.fst ↔ other = path ∨ other ∈ s.writers.map Prod.fst) ∧
      SameFirst before.opened.length fs fs' := by
  obtain ⟨s₁, w, fs₁, hopen, hw, htargets, hkeeps, hkeys, hfirst⟩ :=
    h.openWriter hpaths hpath hfresh
  obtain ⟨place, hplace, hholds⟩ := hkeeps.writing.holds _ hw
  obtain ⟨w', fs', hline, hfile, hholds', hsame⟩ := writeLine_run hholds record
  have hput := hkeeps.writing.put hpaths hw hplace hfile hholds' hsame
  have hsameKeys := map_fst_putWriter hpaths hkeeps.writing hpath w'
  refine ⟨s₁.putWriter path w', fs', ?_, htargets, hkeeps.step hsame hput ?_ ?_ ?_ ?_ hplace, ?_,
    hfirst.trans (hsame.sameFirst (hkeeps.later _ hw))⟩
  · unfold FileSink.write
    rw [htarget]
    simp only [FileTask.bind_eq]
    rw [run_bind_of_run hopen]
    simp only []
    rw [run_bind_of_run hline]
    rfl
  · rw [hsameKeys]
    exact hkeeps.created
  · intro v hv
    rw [putWriter_eq hpaths hkeeps.writing hpath] at hv
    obtain ⟨u, hu, rfl⟩ := List.mem_map.mp hv
    by_cases hmine : u.1 = path
    · rw [if_pos hmine, hfile]
      exact hkeeps.later _ hw
    · rw [if_neg hmine]
      exact hkeeps.later u hu
  · intro other hother
    rwa [hsameKeys]
  · rw [hsameKeys]
    exact List.mem_map_of_mem hw
  · intro other
    rw [hsameKeys]
    exact hkeys other

/-- Reading from a file that was open before does not matter to the sink. -/
theorem Keeps.of_read (h : Keeps before paths written s fs) {file : FileId}
    (hfile : file < before.opened.length) (hsame : SameBut file [] fs fs') :
    Keeps before paths written s fs' where
  writing :=
    { known := h.writing.known
      keys := h.writing.keys
      files := h.writing.files
      holds := by
        intro v hv
        obtain ⟨place, hplace, hholds⟩ := h.writing.holds v hv
        have hother : v.2.file ≠ file := Nat.ne_of_gt (Nat.lt_of_lt_of_le hfile (h.later v hv))
        exact ⟨place, hplace, hholds.of_same (hsame.opened _ hother)
          (hsame.entries _ List.not_mem_nil)⟩ }
  created := h.created
  later := h.later
  length := Nat.le_trans h.length hsame.length
  workDir := hsame.workDir.trans h.workDir
  entries := fun location hout =>
    (hsame.entries location List.not_mem_nil).trans (h.entries location hout)

/-- The lines that a history of records under paths puts under one of them. -/
def linesUnder (history : List (String × String)) (path : String) : Bytes :=
  (history.filter fun entry => entry.1 = path).flatMap fun entry => lineOf entry.2

theorem linesUnder_concat (history : List (String × String)) (path record : String) :
    linesUnder (history ++ [(path, record)]) = grown (linesUnder history) path (lineOf record) := by
  funext other
  by_cases hsame : other = path
  · simp [linesUnder, grown, hsame]
  · simp [linesUnder, grown, hsame, Ne.symm hsame]

theorem linesUnder_eq_nil {history : List (String × String)} (h : path ∉ history.map Prod.fst) :
    linesUnder history path = [] := by
  have hnone : history.filter (fun entry => entry.1 = path) = [] := by
    refine List.filter_eq_nil_iff.mpr fun entry hentry hsame => h ?_
    rw [← of_decide_eq_true hsame]
    exact List.mem_map_of_mem hentry
  rw [linesUnder, hnone, List.flatMap_nil]

/-- The sink has written a history since it was `origin`. -/
structure Wrote (origin : FileSink) (before : FileSpace) (paths : List String)
    (history : List (String × String)) (s : FileSink) (fs : FileSpace) : Prop where
  keeps : Keeps before paths (linesUnder history) s fs
  keys : ∀ path, path ∈ s.writers.map Prod.fst ↔ path ∈ history.map Prod.fst
  targets : s.targets = origin.targets

theorem lookup_filter_ne {handle other : HandleId} (hne : other ≠ handle)
    (targets : List (HandleId × String)) :
    (targets.filter (·.1 != handle)).lookup other = targets.lookup other := by
  induction targets with
  | nil => rfl
  | cons entry targets ih =>
      obtain ⟨first, target⟩ := entry
      by_cases hfirst : first = handle
      · have hpast : (other == first) = false := by simp [hfirst, hne]
        rw [List.filter_cons_of_neg (by simp [hfirst]), List.lookup_cons, hpast]
        exact ih
      · rw [List.filter_cons_of_pos (by simp [hfirst]), List.lookup_cons, List.lookup_cons, ih]

theorem target?_register (s : FileSink) (handle other : HandleId) (path : String) :
    (s.register handle path).target? other =
      if other = handle then some ((Path.absolute? s.workDir path).getD path)
      else s.target? other := by
  unfold register target?
  rw [List.lookup_cons]
  by_cases hsame : other = handle
  · simp [hsame]
  · rw [beq_eq_false_iff_ne.mpr hsame, if_neg hsame]
    exact lookup_filter_ne hsame s.targets

theorem target?_registerOthers {list : List Handle} {id : HandleId}
    (hid : id ∉ list.map Handle.id) (s : FileSink) :
    (list.foldl (fun s h => s.register h.id h.file) s).target? id = s.target? id := by
  induction list generalizing s with
  | nil => rfl
  | cons first list ih =>
      rw [List.map_cons, List.mem_cons, not_or] at hid
      rw [List.foldl_cons, ih hid.2, target?_register, if_neg hid.1]

theorem target?_registerAll {list : List Handle} (hids : (list.map Handle.id).Nodup)
    (s : FileSink) {h : Handle} (hh : h ∈ list) :
    (list.foldl (fun s h => s.register h.id h.file) s).target? h.id =
      some ((Path.absolute? s.workDir h.file).getD h.file) := by
  induction list generalizing s with
  | nil => cases hh
  | cons first list ih =>
      rw [List.map_cons, List.nodup_cons] at hids
      rw [List.foldl_cons]
      rcases List.mem_cons.mp hh with rfl | hlater
      · rw [target?_registerOthers hids.1, target?_register, if_pos rfl]
      · exact ih hids.2 _ hlater

/-- A new sink has no files yet. -/
theorem ofHandles_writers (workDir : String) (handles : Handles) :
    (ofHandles workDir handles).writers = [] ∧ (ofHandles workDir handles).created = [] := by
  have hfold (s : FileSink) : (handles.list.foldl (fun s h => s.register h.id h.file) s).writers =
      s.writers ∧ (handles.list.foldl (fun s h => s.register h.id h.file) s).created = s.created := by
    induction handles.list generalizing s with
    | nil => exact ⟨rfl, rfl⟩
    | cons first list ih => exact ih _
  exact hfold { workDir }

variable {origin : FileSink} {history : List (String × String)}

theorem wrote_nil (hwriters : origin.writers = []) (hcreated : origin.created = []) :
    Wrote origin before paths [] origin before where
  keeps :=
    { writing := ⟨by simp [hwriters], by simp [hwriters], by simp [hwriters], by simp [hwriters]⟩
      created := by rw [hcreated, hwriters, List.map_nil]
      later := by simp [hwriters]
      length := Nat.le_refl _
      workDir := rfl
      entries := fun _ _ => rfl }
  keys := fun _ => by simp [hwriters]
  targets := rfl

theorem Wrote.write (hpaths : before.Separate paths) (h : Wrote origin before paths history s fs)
    {handle : HandleId} (htarget : origin.target? handle = some path) (hpath : path ∈ paths)
    (record : String) :
    ∃ s' fs', (s.write handle record).run fs = ((s', .ok ()), fs') ∧
      Wrote origin before paths (history ++ [(path, record)]) s' fs' ∧
      SameFirst before.opened.length fs fs' := by
  have htarget' : s.target? handle = some path := by
    rw [target?, h.targets]
    exact htarget
  have hfresh : path ∉ s.writers.map Prod.fst → linesUnder history path = [] := fun hnew =>
    linesUnder_eq_nil (mt (h.keys path).mpr hnew)
  obtain ⟨s', fs', hrun, htargets, hkeeps, hkeys, hfirst⟩ :=
    h.keeps.write hpaths htarget' hpath hfresh record
  rw [← linesUnder_concat] at hkeeps
  refine ⟨s', fs', hrun, ⟨hkeeps, fun other => ?_, htargets.trans h.targets⟩, hfirst⟩
  rw [hkeys, h.keys, List.map_append, List.mem_append, List.map_cons, List.map_nil,
    List.mem_singleton]
  exact or_comm

/-- A record goes to its handles in turn. -/
theorem Wrote.writeTo (hpaths : before.Separate paths) {target : Handle → String}
    {handles : List Handle}
    (htargets : ∀ h ∈ handles, origin.target? h.id = some (target h) ∧ target h ∈ paths)
    (h : Wrote origin before paths history s fs) (record : String) :
    ∃ s' fs', (RoutingTable.writeTo s record (handles.map Handle.id)).run fs = ((s', .ok ()), fs') ∧
      Wrote origin before paths (history ++ handles.map fun h => (target h, record)) s' fs' ∧
      SameFirst before.opened.length fs fs' := by
  induction handles generalizing history s fs with
  | nil => exact ⟨s, fs, rfl, by simpa using h, .refl _ _⟩
  | cons first handles ih =>
      obtain ⟨htarget, hpath⟩ := htargets first (by simp)
      obtain ⟨s₁, fs₁, hwrite, hwrote, hfirst₁⟩ := h.write hpaths htarget hpath record
      obtain ⟨s', fs', hrest, hwrote', hfirst'⟩ :=
        ih (fun g hg => htargets g (by simp [hg])) hwrote
      refine ⟨s', fs', ?_, ?_, hfirst₁.trans hfirst'⟩
      · rw [List.map_cons, RoutingTable.writeTo]
        simp only [FileTask.bind_eq]
        rw [run_bind_of_run (show (RecordSink.write s first.id record).run fs = _ from hwrite)]
        exact hrest
      · simpa using hwrote'

theorem Wrote.of_read (h : Wrote origin before paths history s fs) {file : FileId}
    (hfile : file < before.opened.length) (hsame : SameBut file [] fs fs') :
    Wrote origin before paths history s fs' :=
  ⟨h.keeps.of_read hfile hsame, h.keys, h.targets⟩

/-- A file that no path of the sink leads to stays as it is. -/
theorem Wrote.entry_of_other (h : Wrote origin before paths history s fs) {location : Location}
    (hother : ∀ path ∈ paths, before.writable? path ≠ some location) :
    fs.entry? location = before.entry? location := by
  exact h.keeps.entries location fun path hpath => hother path (h.keeps.writing.mem_paths hpath)

/-- After a sink is closed and given up the files hold the lines of its history. -/
theorem Wrote.close (hpaths : before.Separate paths) (h : Wrote origin before paths history s fs) :
    ∃ s' fs', s.closeAll.run fs = ((s', .ok ()), fs') ∧ s'.drop.run fs' = ((), fs') ∧
      (∀ path ∈ history.map Prod.fst, ∀ place, before.writable? path = some place →
        fs'.entry? place = some (.regular (linesUnder history path))) ∧
      ∀ location, (∀ path ∈ history.map Prod.fst, before.writable? path ≠ some location) →
        fs'.entry? location = before.entry? location := by
  have hperm := List.mergeSort_perm (s.writers.map Prod.fst) Path.le
  obtain ⟨s', fs', hrun, hwriters, hwritten, hkept⟩ := h.keeps.writing.closePaths hpaths
    (hperm.nodup_iff.mpr h.keeps.writing.keys) fun path hpath => hperm.mem_iff.mp hpath
  have hnone : s'.writers = [] := by
    rw [hwriters, List.filter_eq_nil_iff]
    intro v hv
    have hmem := hperm.mem_iff.mpr (List.mem_map_of_mem hv)
    simp [hmem]
  refine ⟨s', fs', hrun, ?_, fun path hpath => ?_, fun location hout => ?_⟩
  · unfold FileSink.drop
    rw [hnone, List.map_nil, List.mergeSort_nil]
    rfl
  · exact hwritten path (hperm.mem_iff.mpr ((h.keys path).mpr hpath))
  · rw [hkept location fun path hpath => hout path ((h.keys path).mp (hperm.mem_iff.mp hpath))]
    exact h.keeps.entries location fun path hpath => hout path ((h.keys path).mp hpath)

end FileSink
end RuleDesk
