import RuleDesk.Capture.FileSink
import RuleDesk.Proofs.Files.Streams
import Mathlib.Data.List.Nodup

/-!
# The writers of a file sink

Paths that can be written to apart from each other have writers on files of their own.
What is put into one of them leaves the others alone, and once they are closed the files
hold what was written.
-/
namespace RuleDesk

open FileTask FileSpace

/-- Paths that can be written to, each with a file of its own. -/
structure FileSpace.Separate (fs : FileSpace) (paths : List String) : Prop where
  writable : ∀ path ∈ paths, ∃ place, fs.writable? path = some place
  apart : ∀ path ∈ paths, ∀ other ∈ paths, path ≠ other → fs.writable? path ≠ fs.writable? other

theorem FileSpace.Separate.filled {fs fs' : FileSpace} {paths : List String}
    (h : fs.Separate paths) (hfilled : Filled fs fs') : fs'.Separate paths ∧
      ∀ path ∈ paths, fs'.writable? path = fs.writable? path := by
  have hsame : ∀ path ∈ paths, fs'.writable? path = fs.writable? path := by
    intro path hpath
    obtain ⟨place, hplace⟩ := h.writable path hpath
    rw [hfilled.writable hplace, hplace]
  refine ⟨⟨fun path hpath => ?_, fun path hpath other hother hne => ?_⟩, hsame⟩
  · rw [hsame path hpath]
    exact h.writable path hpath
  · rw [hsame path hpath, hsame other hother]
    exact h.apart path hpath other hother hne

theorem FileSpace.Separate.place_ne {fs : FileSpace} {paths : List String}
    (h : fs.Separate paths) {path other : String} (hpath : path ∈ paths) (hother : other ∈ paths)
    (hne : other ≠ path) {place place' : Location} (hplace : fs.writable? path = some place)
    (hplace' : fs.writable? other = some place') : place' ≠ place := by
  rintro rfl
  exact h.apart other hother path hpath hne (hplace'.trans hplace.symm)

namespace FileSink

variable {before fs fs' : FileSpace} {paths : List String} {written : String → Bytes}
  {s : FileSink} {path : String} {place : Location} {w : BufferedWriter}

theorem sameFile_iff (hpaths : before.Separate paths) {other : String} (hpath : path ∈ paths)
    (hother : other ∈ paths) : sameFile path other = true ↔ path = other := by
  constructor
  · intro hsame
    by_contra hne
    obtain ⟨place, hplace⟩ := hpaths.writable path hpath
    obtain ⟨place', hplace'⟩ := hpaths.writable other hother
    have hkey : Path.key path = Path.key other := by simpa [sameFile] using hsame
    refine hpaths.apart path hpath other hother hne ?_
    rw [hplace, hplace', writable_unique hplace hplace' hkey]
  · rintro rfl
    simp [sameFile]

/-- The writers of a sink. Those that hold what was written are on files of their own. -/
structure Writing (before : FileSpace) (paths : List String) (written : String → Bytes)
    (s : FileSink) (fs : FileSpace) : Prop where
  known : ∀ w ∈ s.writers, w.1 ∈ paths
  keys : (s.writers.map Prod.fst).Nodup
  files : (s.writers.map fun w => w.2.file).Nodup
  holds : ∀ w ∈ s.writers, ∃ place, before.writable? w.1 = some place ∧
    w.2.Holds fs place (written w.1)

theorem Writing.mem_paths (h : Writing before paths written s fs)
    (hpath : path ∈ s.writers.map Prod.fst) : path ∈ paths := by
  obtain ⟨v, hv, rfl⟩ := List.mem_map.mp hpath
  exact h.known v hv

theorem Writing.eq_of_path (h : Writing before paths written s fs) {v : String × BufferedWriter}
    (hv : v ∈ s.writers) {u : String × BufferedWriter} (hu : u ∈ s.writers) (hpath : v.1 = u.1) :
    v = u :=
  List.inj_on_of_nodup_map h.keys hv hu hpath

theorem Writing.file_ne (h : Writing before paths written s fs) {v : String × BufferedWriter}
    (hv : v ∈ s.writers) {u : String × BufferedWriter} (hu : u ∈ s.writers) (hpath : v.1 ≠ u.1) :
    v.2.file ≠ u.2.file := by
  intro hfile
  rw [List.inj_on_of_nodup_map h.files hv hu hfile] at hpath
  exact hpath rfl

theorem Writing.file_lt (h : Writing before paths written s fs) {v : String × BufferedWriter}
    (hv : v ∈ s.writers) : v.2.file < fs.opened.length := by
  obtain ⟨place, -, content, hend, -⟩ := h.holds v hv
  exact hend.lt_length

/-- A writer stays as it is when another one has worked. -/
theorem Writing.holds_of_other (hpaths : before.Separate paths)
    (h : Writing before paths written s fs) {file : FileId} (hpath : path ∈ paths)
    (hplace : before.writable? path = some place) (hsame : SameBut file [place] fs fs')
    {v : String × BufferedWriter} (hv : v ∈ s.writers) (hother : v.1 ≠ path)
    (hfile : v.2.file ≠ file) :
    ∃ place, before.writable? v.1 = some place ∧ v.2.Holds fs' place (written v.1) := by
  obtain ⟨place', hplace', hholds⟩ := h.holds v hv
  have hne := hpaths.place_ne hpath (h.known v hv) hother hplace hplace'
  exact ⟨place', hplace', hholds.of_same (hsame.opened _ hfile)
    (hsame.entries _ (by simpa using hne))⟩

theorem putWriter_eq (hpaths : before.Separate paths) (h : Writing before paths written s fs)
    (hpath : path ∈ paths) (writer : BufferedWriter) :
    s.putWriter path writer =
      { s with writers := s.writers.map fun v => if v.1 = path then (v.1, writer) else v } := by
  unfold putWriter
  congr 1
  refine List.map_congr_left fun v hv => ?_
  simp only [sameFile_iff hpaths (h.known v hv) hpath]

theorem map_fst_putWriter (hpaths : before.Separate paths)
    (h : Writing before paths written s fs) (hpath : path ∈ paths) (writer : BufferedWriter) :
    (s.putWriter path writer).writers.map Prod.fst = s.writers.map Prod.fst := by
  rw [putWriter_eq hpaths h hpath, List.map_map]
  refine List.map_congr_left fun v _ => ?_
  by_cases hmine : v.1 = path <;> simp [hmine]

theorem removeWriter_eq (hpaths : before.Separate paths) (h : Writing before paths written s fs)
    (hpath : path ∈ paths) :
    s.removeWriter path = { s with writers := s.writers.filter fun v => v.1 != path } := by
  unfold removeWriter
  congr 1
  refine List.filter_congr fun v hv => ?_
  rw [Bool.eq_iff_iff, Bool.not_eq_true', ← Bool.not_eq_true,
    sameFile_iff hpaths (h.known v hv) hpath, bne_iff_ne]

theorem mem_map_fst_removeWriter (hpaths : before.Separate paths)
    (h : Writing before paths written s fs) (hpath : path ∈ paths) {other : String} :
    other ∈ (s.removeWriter path).writers.map Prod.fst ↔
      other ∈ s.writers.map Prod.fst ∧ other ≠ path := by
  rw [removeWriter_eq hpaths h hpath]
  constructor
  · intro hother
    obtain ⟨v, hv, rfl⟩ := List.mem_map.mp hother
    obtain ⟨hmem, hne⟩ := List.mem_filter.mp hv
    exact ⟨List.mem_map_of_mem hmem, by simpa using hne⟩
  · rintro ⟨hother, hne⟩
    obtain ⟨v, hv, rfl⟩ := List.mem_map.mp hother
    exact List.mem_map_of_mem (List.mem_filter.mpr ⟨hv, by simpa using hne⟩)

theorem writer?_eq_some (hpaths : before.Separate paths) (h : Writing before paths written s fs)
    (hw : (path, w) ∈ s.writers) : s.writer? path = some (path, w) := by
  have hpath := h.known _ hw
  cases hfind : s.writer? path with
  | none =>
      have hnone := List.find?_eq_none.mp hfind (path, w) hw
      exact absurd ((sameFile_iff hpaths hpath hpath).mpr rfl) hnone
  | some v =>
      unfold writer? at hfind
      have hv := List.mem_of_find?_eq_some hfind
      have hmatch := List.find?_some hfind
      have hsame := (sameFile_iff hpaths (h.known v hv) hpath).mp hmatch
      rw [h.eq_of_path hv hw hsame]

theorem writer?_eq_none (hpaths : before.Separate paths) (h : Writing before paths written s fs)
    (hpath : path ∈ paths) (hnew : path ∉ s.writers.map Prod.fst) : s.writer? path = none := by
  refine List.find?_eq_none.mpr fun v hv hsame => hnew ?_
  rw [← (sameFile_iff hpaths (h.known v hv) hpath).mp hsame]
  exact List.mem_map_of_mem hv

theorem Writing.opened (hpaths : before.Separate paths) (h : Writing before paths written s fs)
    (hpath : path ∈ paths) (hplace : before.writable? path = some place)
    (hnew : path ∉ s.writers.map Prod.fst) (hfresh : written path = [])
    (hend : fs'.AtEnd fs.opened.length place [])
    (hsame : SameBut fs.opened.length [place] fs fs') (created : List String) :
    Writing before paths written
      { s with writers := s.writers ++ [(path, { file := fs.opened.length })], created } fs' where
  known := by
    intro v hv
    rcases List.mem_append.mp hv with hold | hlast
    · exact h.known v hold
    · rw [List.mem_singleton.mp hlast]
      exact hpath
  keys := by
    rw [List.map_append, List.map_cons, List.map_nil, ← List.concat_eq_append]
    exact h.keys.concat hnew
  files := by
    rw [List.map_append, List.map_cons, List.map_nil, ← List.concat_eq_append]
    refine h.files.concat fun hmem => ?_
    obtain ⟨v, hv, hfile⟩ := List.mem_map.mp hmem
    exact Nat.ne_of_lt (h.file_lt hv) hfile
  holds := by
    intro v hv
    rcases List.mem_append.mp hv with hold | hlast
    · have hother : v.1 ≠ path := fun heq => hnew (heq ▸ List.mem_map_of_mem hold)
      exact h.holds_of_other hpaths hpath hplace hsame hold hother
        (Nat.ne_of_lt (h.file_lt hold))
    · rw [List.mem_singleton.mp hlast]
      exact ⟨place, hplace, [], hend, hfresh.symm⟩

/-- The bytes of one path grow. -/
def grown (written : String → Bytes) (path : String) (bytes : Bytes) : String → Bytes := fun other =>
  if other = path then written path ++ bytes else written other

theorem Writing.put (hpaths : before.Separate paths) (h : Writing before paths written s fs)
    (hw : (path, w) ∈ s.writers) (hplace : before.writable? path = some place) {w' : BufferedWriter}
    (hfile : w'.file = w.file) {bytes : Bytes}
    (hholds : w'.Holds fs' place (written path ++ bytes))
    (hsame : SameBut w.file [place] fs fs') :
    Writing before paths (grown written path bytes) (s.putWriter path w') fs' := by
  have hpath := h.known _ hw
  have hkeys := map_fst_putWriter hpaths h hpath w'
  rw [putWriter_eq hpaths h hpath] at hkeys ⊢
  have hfiles : (s.writers.map fun v => if v.1 = path then (v.1, w') else v).map
      (fun v => v.2.file) = s.writers.map fun v => v.2.file := by
    rw [List.map_map]
    refine List.map_congr_left fun v hv => ?_
    by_cases hsame : v.1 = path
    · rw [h.eq_of_path hv hw hsame]
      simp [hfile]
    · simp [hsame]
  refine ⟨?_, hkeys ▸ h.keys, hfiles ▸ h.files, ?_⟩
  · intro v hv
    have hmem := List.mem_map_of_mem (f := Prod.fst) hv
    rw [hkeys] at hmem
    obtain ⟨u, hu, heq⟩ := List.mem_map.mp hmem
    exact heq ▸ h.known u hu
  · intro v hv
    obtain ⟨u, hu, rfl⟩ := List.mem_map.mp hv
    by_cases hmine : u.1 = path
    · rw [if_pos hmine, hmine]
      refine ⟨place, hplace, ?_⟩
      rw [grown, if_pos rfl]
      exact hholds
    · rw [if_neg hmine, grown, if_neg hmine]
      exact h.holds_of_other hpaths hpath hplace hsame hu hmine (h.file_ne hu hw hmine)

theorem Writing.remove (hpaths : before.Separate paths) (h : Writing before paths written s fs)
    (hw : (path, w) ∈ s.writers) (hplace : before.writable? path = some place)
    (hsame : SameBut w.file [place] fs fs') :
    Writing before paths written (s.removeWriter path) fs' := by
  have hpath := h.known _ hw
  rw [removeWriter_eq hpaths h hpath]
  have hsublist : (s.writers.filter fun v => v.1 != path).Sublist s.writers := List.filter_sublist
  refine ⟨fun v hv => h.known v (hsublist.subset hv), h.keys.sublist (hsublist.map _),
    h.files.sublist (hsublist.map _), fun v hv => ?_⟩
  obtain ⟨hmem, hother⟩ := List.mem_filter.mp hv
  have hne : v.1 ≠ path := by simpa using hother
  exact h.holds_of_other hpaths hpath hplace hsame hmem hne (h.file_ne hmem hw hne)

theorem Writing.closePath (hpaths : before.Separate paths) (h : Writing before paths written s fs)
    (hpath : path ∈ s.writers.map Prod.fst) :
    ∃ place fs', (s.closePath path).run fs = ((s.removeWriter path, .ok ()), fs') ∧
      Writing before paths written (s.removeWriter path) fs' ∧
      before.writable? path = some place ∧ fs'.entry? place = some (.regular (written path)) ∧
      ∀ location, location ≠ place → fs'.entry? location = fs.entry? location := by
  obtain ⟨⟨_, w⟩, hw, rfl⟩ := List.mem_map.mp hpath
  obtain ⟨place, hplace, hholds⟩ := h.holds _ hw
  obtain ⟨fs', hrelease, hentry, hsame⟩ := hholds.release
  refine ⟨place, fs', ?_, h.remove hpaths hw hplace hsame, hplace, hentry,
    fun location hne => hsame.entries location (by simpa using hne)⟩
  unfold FileSink.closePath
  rw [writer?_eq_some hpaths h hw]
  simp only [FileTask.bind_eq]
  rw [run_bind_of_run hrelease]
  rfl

/-- The closed files hold what was written, and the other places stay. -/
theorem Writing.closePaths (hpaths : before.Separate paths) {list : List String}
    (hlist : list.Nodup) (h : Writing before paths written s fs)
    (hopen : ∀ path ∈ list, path ∈ s.writers.map Prod.fst) :
    ∃ s' fs', (s.closePaths list).run fs = ((s', .ok ()), fs') ∧
      s'.writers = s.writers.filter (fun w => w.1 ∉ list) ∧
      (∀ path ∈ list, ∀ place, before.writable? path = some place →
        fs'.entry? place = some (.regular (written path))) ∧
      ∀ location, (∀ path ∈ list, before.writable? path ≠ some location) →
        fs'.entry? location = fs.entry? location := by
  induction list generalizing s fs with
  | nil => exact ⟨s, fs, rfl, by simp, by simp, fun _ _ => rfl⟩
  | cons first list ih =>
      obtain ⟨hfirst, hlist⟩ := List.nodup_cons.mp hlist
      have hfirstOpen := hopen first (by simp)
      obtain ⟨place, fs₁, hclose, hwriting, hplace, hentry, hothers⟩ :=
        h.closePath hpaths hfirstOpen
      have hknown := h.mem_paths hfirstOpen
      have hopen₁ : ∀ path ∈ list, path ∈ (s.removeWriter first).writers.map Prod.fst := by
        intro path hpath
        have hne : path ≠ first := fun heq => hfirst (heq ▸ hpath)
        exact (mem_map_fst_removeWriter hpaths h hknown).mpr ⟨hopen path (by simp [hpath]), hne⟩
      obtain ⟨s', fs', hrest, hwriters, hwritten, hkept⟩ := ih hlist hwriting hopen₁
      refine ⟨s', fs', ?_, ?_, ?_, ?_⟩
      · unfold FileSink.closePaths
        simp only [FileTask.bind_eq]
        rw [run_bind_of_run hclose]
        exact hrest
      · rw [hwriters, removeWriter_eq hpaths h hknown, List.filter_filter]
        refine List.filter_congr fun v _ => ?_
        rw [Bool.eq_iff_iff]
        simp [and_comm]
      · intro path hpath place' hplace'
        rcases List.mem_cons.mp hpath with rfl | hlater
        · obtain rfl := Option.some.inj (hplace.symm.trans hplace')
          rw [hkept place fun other hother hsame => ?_, hentry]
          have hne : other ≠ path := fun heq => hfirst (heq ▸ hother)
          have hotherKnown := h.mem_paths (hopen other (by simp [hother]))
          exact hpaths.place_ne hknown hotherKnown hne hplace hsame rfl
        · exact hwritten path hlater place' hplace'
      · intro location hout
        rw [hkept location fun other hother => hout other (by simp [hother])]
        refine hothers location ?_
        rintro rfl
        exact hout first (by simp) hplace

end FileSink
end RuleDesk
