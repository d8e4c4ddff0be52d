import RuleDesk.Proofs.Capture.FileSink
import RuleDesk.Proofs.Files.Faults

/-!
# One file among others

Paths of one key share a writer. While every other file may fail, the file that the
paths of a key lead to holds, with what waits for it, the records that went to the key:
it is made once, closed and opened again at its end, and never touched by the writers
of other keys.
-/
namespace RuleDesk

open FileTask FileSpace

namespace BufferedWriter

variable {w : BufferedWriter} {r : BufferedWriter × Except IoFailure Unit}

theorem flush_writesTo (w : BufferedWriter) : w.flush.WritesTo w.file := by
  unfold flush
  split
  · exact .done _
  · refine (writesTo_write w.file w.pending).bind fun answer _ => ?_
    cases answer <;> exact .done _

theorem flush_file (h : w.flush.EndsIn r) : r.1.file = w.file := by
  unfold flush at h
  split at h
  · rw [endsIn_done_iff.mp h]
  · obtain ⟨answer, -, hdone⟩ := endsIn_bind_iff.mp h
    cases answer <;> rw [endsIn_done_iff.mp hdone]

theorem place_writesTo (w : BufferedWriter) (bytes : Bytes) :
    (w.place bytes).WritesTo w.file := by
  unfold place
  split
  · exact .done _
  · exact (writesTo_write w.file bytes).bind fun _ _ => .done _

theorem place_file {bytes : Bytes} (h : (w.place bytes).EndsIn r) : r.1.file = w.file := by
  unfold place at h
  split at h
  · rw [endsIn_done_iff.mp h]
  · obtain ⟨answer, -, hdone⟩ := endsIn_bind_iff.mp h
    rw [endsIn_done_iff.mp hdone]

theorem write_writesTo (w : BufferedWriter) (bytes : Bytes) :
    (w.write bytes).WritesTo w.file := by
  unfold write
  split
  · exact w.place_writesTo bytes
  · refine w.flush_writesTo.bind fun flushed hflushed => ?_
    obtain ⟨w', result⟩ := flushed
    have hfile : w'.file = w.file := flush_file hflushed
    cases result with
    | ok => exact hfile ▸ w'.place_writesTo bytes
    | error => exact .done _

theorem write_file {bytes : Bytes} (h : (w.write bytes).EndsIn r) : r.1.file = w.file := by
  unfold write at h
  split at h
  · exact place_file h
  · obtain ⟨⟨w', result⟩, hflushed, h⟩ := endsIn_bind_iff.mp h
    have hfile : w'.file = w.file := flush_file hflushed
    cases result with
    | ok => exact (place_file h).trans hfile
    | error => rw [endsIn_done_iff.mp h, hfile]

theorem release_writesTo (w : BufferedWriter) : w.release.WritesTo w.file := by
  unfold release
  refine w.flush_writesTo.bind fun flushed hflushed => ?_
  obtain ⟨w', result⟩ := flushed
  have hfile : w'.file = w.file := flush_file hflushed
  cases result with
  | ok => exact .done _
  | error => exact hfile ▸ w'.flush_writesTo.bind fun _ _ => .done _

theorem Holds.isAt {fs : FileSpace} {place : Location} {bytes : Bytes}
    (h : w.Holds fs place bytes) : fs.IsAt w.file place := by
  obtain ⟨content, hend, -⟩ := h
  exact hend.isAt

end BufferedWriter

namespace FileSink

variable {key : Path.Key} {place : Location} {before fs fs' fs'' : FileSpace}
  {s s' s'' : FileSink} {path : String} {w : BufferedWriter} {records : List String}

theorem writeLine_writesTo (w : BufferedWriter) (record : String) :
    (writeLine w record).WritesTo w.file := by
  unfold writeLine
  refine (w.write_writesTo (.ofText record)).bind fun written hwritten => ?_
  obtain ⟨w', result⟩ := written
  have hfile : w'.file = w.file := BufferedWriter.write_file hwritten
  cases result with
  | ok => exact hfile ▸ w'.write_writesTo (.ofText "\n")
  | error => exact .done _

theorem writeLine_file {record : String} {r : BufferedWriter × Except IoFailure Unit}
    (h : (writeLine w record).EndsIn r) : r.1.file = w.file := by
  unfold writeLine at h
  obtain ⟨⟨w', result⟩, hwritten, h⟩ := endsIn_bind_iff.mp h
  have hfile : w'.file = w.file := BufferedWriter.write_file hwritten
  cases result with
  | ok => exact (BufferedWriter.write_file h).trans hfile
  | error => rw [endsIn_done_iff.mp h, hfile]

/-- The open writers of paths of a key. -/
def under (s : FileSink) (key : Path.Key) : List (String × BufferedWriter) :=
  s.writers.filter fun w => Path.key w.1 = key

/-- Whether a path of a key has been made. -/
def madeUnder (s : FileSink) (key : Path.Key) : Bool :=
  s.created.any fun path => Path.key path = key

theorem writer?_eq_head? (s : FileSink) (path : String) :
    s.writer? path = (s.under (Path.key path)).head? := by
  rw [under, List.head?_filter]
  rfl

theorem created_any (s : FileSink) (path : String) :
    s.created.any (sameFile · path) = s.madeUnder (Path.key path) := rfl

theorem under_removeWriter (s : FileSink) (path : String) (key : Path.Key) :
    (s.removeWriter path).under key = if Path.key path = key then [] else s.under key := by
  unfold under removeWriter sameFile
  rw [List.filter_filter]
  split
  · next hkey =>
      refine List.filter_eq_nil_iff.mpr fun w _ => ?_
      simp [hkey]
  · next hkey =>
      refine List.filter_congr fun w _ => ?_
      by_cases hw : Path.key w.1 = key
      · simp [hw, Ne.symm hkey]
      · simp [hw]

theorem under_putWriter (s : FileSink) (path : String) (writer : BufferedWriter)
    (key : Path.Key) :
    (s.putWriter path writer).under key =
      if Path.key path = key then (s.under key).map fun w => (w.1, writer) else s.under key := by
  have hkeep (w : String × BufferedWriter) :
      Path.key (if sameFile w.1 path then (w.1, writer) else w).1 = Path.key w.1 := by
    split <;> rfl
  unfold under putWriter
  rw [List.filter_map]
  simp only [Function.comp_def, hkeep]
  split
  · next hkey =>
      refine List.map_congr_left fun w hw => ?_
      have hsame : Path.key w.1 = key := by simpa using (List.mem_filter.mp hw).2
      simp [sameFile, hsame, hkey]
  · next hkey =>
      refine (List.map_congr_left fun w hw => ?_).trans (List.map_id _)
      have hsame : Path.key w.1 = key := by simpa using (List.mem_filter.mp hw).2
      simp [sameFile, hsame, Ne.symm hkey]

/-- The sink once the file of a path has been opened. -/
def withWriter (s : FileSink) (path : String) (file : FileId) : FileSink :=
  { s with
    writers := s.writers ++ [(path, { file })]
    created := if s.created.any (sameFile · path) then s.created else s.created ++ [path] }

theorem under_withWriter (s : FileSink) (path : String) (file : FileId) (key : Path.Key) :
    (s.withWriter path file).under key =
      s.under key ++ if Path.key path = key then [(path, { file := file })] else [] := by
  unfold under withWriter
  rw [List.filter_append]
  split
  · next hkey => simp [hkey]
  · next hkey => simp [hkey]

theorem madeUnder_withWriter (s : FileSink) (path : String) (file : FileId) (key : Path.Key) :
    (s.withWriter path file).madeUnder key = (s.madeUnder key || Path.key path = key) := by
  by_cases hmade : s.madeUnder (Path.key path) = true
  · have hcreated : (s.withWriter path file).created = s.created := if_pos hmade
    rw [madeUnder, hcreated, ← madeUnder]
    by_cases hkey : Path.key path = key
    · rw [← hkey, hmade]
      rfl
    · simp [hkey]
  · have hcreated : (s.withWriter path file).created = s.created ++ [path] := if_neg hmade
    rw [madeUnder, hcreated, List.any_append, ← madeUnder]
    simp

/-- The writers of other keys are on other files. -/
def Away (key : Path.Key) (place : Location) (s : FileSink) (fs : FileSpace) : Prop :=
  ∀ w ∈ s.writers, Path.key w.1 ≠ key → fs.IsAway w.2.file place

theorem Away.onward (h : s.Away key place fs) (honward : Onward fs fs') :
    s.Away key place fs' :=
  fun w hw hother => (h w hw hother).onward honward

theorem Away.of_writer? (h : s.Away key place fs) (hother : Path.key path ≠ key)
    {p : String} (hw : s.writer? path = some (p, w)) : fs.IsAway w.file place := by
  rw [writer?_eq_head?] at hw
  obtain ⟨hmem, hkey⟩ := List.mem_filter.mp (List.mem_of_head? hw)
  have hsame : Path.key p = Path.key path := by simpa using hkey
  exact h (p, w) hmem (hsame ▸ hother)

theorem Away.removeWriter (h : s.Away key place fs) (path : String) :
    (s.removeWriter path).Away key place fs :=
  fun w hw hother => h w (List.mem_of_mem_filter hw) hother

theorem Away.putWriter (h : s.Away key place fs) {path : String}
    (hw : Path.key path ≠ key → fs.IsAway w.file place) :
    (s.putWriter path w).Away key place fs := by
  intro v hv hother
  obtain ⟨u, hu, rfl⟩ := List.mem_map.mp hv
  by_cases hsame : sameFile u.1 path
  · have hkey : Path.key u.1 = Path.key path := by simpa [sameFile] using hsame
    simp only [hsame, if_true] at hother ⊢
    exact hw (hkey ▸ hother)
  · simp only [hsame] at hother ⊢
    exact h u hu hother

theorem Away.withWriter (h : s.Away key place fs) {path : String} {file : FileId}
    (hfile : Path.key path ≠ key → fs.IsAway file place) :
    (s.withWriter path file).Away key place fs := by
  intro v hv hother
  rcases List.mem_append.mp hv with hold | hlast
  · exact h v hold hother
  · rw [List.mem_singleton.mp hlast] at hother ⊢
    exact hfile hother

/-- Nothing has happened under a key and to the file at a place. -/
structure Elsewhere (key : Path.Key) (place : Location) (s s' : FileSink) (fs fs' : FileSpace) :
    Prop where
  spares : Spares place fs fs'
  workDir : s'.workDir = s.workDir
  targets : s'.targets = s.targets
  under : s'.under key = s.under key
  made : s'.madeUnder key = s.madeUnder key
  away : s'.Away key place fs'

theorem Away.elsewhere (h : s.Away key place fs) (hspares : Spares place fs fs') :
    Elsewhere key place s s fs fs' :=
  ⟨hspares, rfl, rfl, rfl, rfl, h.onward hspares.toOnward⟩

theorem Elsewhere.trans (h : Elsewhere key place s s' fs fs')
    (h' : Elsewhere key place s' s'' fs' fs'') : Elsewhere key place s s'' fs fs'' :=
  ⟨h.spares.trans h'.spares, h'.workDir.trans h.workDir, h'.targets.trans h.targets,
    h'.under.trans h.under, h'.made.trans h.made, h'.away⟩

theorem Elsewhere.putWriter (h : Elsewhere key place s s' fs fs') (hother : Path.key path ≠ key)
    (hw : fs'.IsAway w.file place) : Elsewhere key place s (s'.putWriter path w) fs fs' where
  spares := h.spares
  workDir := h.workDir
  targets := h.targets
  under := by rw [under_putWriter, if_neg hother, h.under]
  made := h.made
  away := h.away.putWriter fun _ => hw

theorem Elsewhere.removeWriter (h : Elsewhere key place s s' fs fs')
    (hother : Path.key path ≠ key) : Elsewhere key place s (s'.removeWriter path) fs fs' where
  spares := h.spares
  workDir := h.workDir
  targets := h.targets
  under := by rw [under_removeWriter, if_neg hother, h.under]
  made := h.made
  away := h.away.removeWriter path

theorem Elsewhere.withWriter (h : Elsewhere key place s s' fs fs') (hother : Path.key path ≠ key)
    {file : FileId} (hfile : fs'.IsAway file place) :
    Elsewhere key place s (s'.withWriter path file) fs fs' where
  spares := h.spares
  workDir := h.workDir
  targets := h.targets
  under := by rw [under_withWriter, if_neg hother, List.append_nil, h.under]
  made := by simp [madeUnder_withWriter, hother, h.made]
  away := h.away.withWriter fun _ => hfile

theorem openWriter_elsewhere (haway : s.Away key place fs) (hfree : fs.IsFree place)
    (hother : Path.key path ≠ key) (hpath : fs.writable? path ≠ some place)
    {r : FileSink × Except SinkError BufferedWriter}
    (hrun : (s.openWriter path).MayRun place fs r fs') :
    Elsewhere key place s r.1 fs fs' ∧ ∀ w, r.2 = .ok w → fs'.IsAway w.file place := by
  unfold FileSink.openWriter at hrun
  cases hwriter : s.writer? path with
  | some open? =>
      rw [hwriter] at hrun
      obtain ⟨rfl, rfl⟩ := mayRun_done_iff.mp hrun
      refine ⟨haway.elsewhere (.refl place _), fun w hw => ?_⟩
      obtain rfl := Except.ok.inj hw
      exact haway.of_writer? hother hwriter
  | none =>
      rw [hwriter] at hrun
      obtain ⟨answer, fs₁, hopen, hrun⟩ := mayRun_bind_iff.mp hrun
      obtain ⟨reply, fs₂, hreply, hdone⟩ := mayRun_ask_iff.mp hopen
      obtain ⟨rfl, rfl⟩ := mayRun_done_iff.mp hdone
      obtain ⟨hspares, hnew⟩ := hreply.openFile_spares hfree hpath
      cases answer with
      | error cause =>
          obtain ⟨rfl, rfl⟩ := mayRun_done_iff.mp hrun
          exact ⟨haway.elsewhere hspares, nofun⟩
      | ok file =>
          obtain ⟨rfl, rfl⟩ := mayRun_done_iff.mp hrun
          have hfile : fs'.IsAway file place := hnew file rfl
          refine ⟨(haway.elsewhere hspares).withWriter hother hfile, fun w hw => ?_⟩
          obtain rfl := Except.ok.inj hw
          exact hfile

theorem write_elsewhere (haway : s.Away key place fs) (hfree : fs.IsFree place)
    {handle : HandleId} (htarget : s.target? handle = some path) (hother : Path.key path ≠ key)
    (hpath : fs.writable? path ≠ some place) {record : String}
    {r : FileSink × Except SinkError Unit}
    (hrun : (s.write handle record).MayRun place fs r fs') :
    Elsewhere key place s r.1 fs fs' := by
  unfold FileSink.write at hrun
  rw [htarget] at hrun
  obtain ⟨⟨s₁, opened⟩, fs₁, hopen, hrun⟩ := mayRun_bind_iff.mp hrun
  obtain ⟨helse, hfile⟩ := openWriter_elsewhere haway hfree hother hpath hopen
  cases opened with
  | error cause =>
      obtain ⟨rfl, rfl⟩ := mayRun_done_iff.mp hrun
      exact helse
  | ok w =>
      obtain ⟨⟨w', result⟩, fs₂, hline, hdone⟩ := mayRun_bind_iff.mp hrun
      obtain ⟨rfl, rfl⟩ := mayRun_done_iff.mp hdone
      have hw := hfile w rfl
      have hspares := (writeLine_writesTo w record).spares hw hline
      have hsame : w'.file = w.file := writeLine_file hline.endsIn
      have hw' : fs'.IsAway w'.file place := hsame ▸ hw.onward hspares.toOnward
      exact (helse.trans (helse.away.elsewhere hspares)).putWriter hother hw'

theorem closePath_elsewhere (haway : s.Away key place fs) (hother : Path.key path ≠ key)
    {r : FileSink × Except SinkError Unit} (hrun : (s.closePath path).MayRun place fs r fs') :
    Elsewhere key place s r.1 fs fs' := by
  unfold FileSink.closePath at hrun
  cases hwriter : s.writer? path with
  | none =>
      rw [hwriter] at hrun
      obtain ⟨rfl, rfl⟩ := mayRun_done_iff.mp hrun
      exact haway.elsewhere (.refl place _)
  | some open? =>
      obtain ⟨p, w⟩ := open?
      rw [hwriter] at hrun
      obtain ⟨result, fs₁, hrelease, hdone⟩ := mayRun_bind_iff.mp hrun
      obtain ⟨rfl, rfl⟩ := mayRun_done_iff.mp hdone
      have hspares := w.release_writesTo.spares (haway.of_writer? hother hwriter) hrelease
      exact (haway.elsewhere hspares).removeWriter hother

end FileSink
end RuleDesk
