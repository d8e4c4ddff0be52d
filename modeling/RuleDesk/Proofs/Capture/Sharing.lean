import RuleDesk.Proofs.Capture.Steps

/-!
# Writers that share a file

Paths of different keys have a writer each, even if they lead to one file. Each writer has
a position of its own, so what it sends lies over what another one has sent, and the file
is never longer than what one of them was given.
-/
namespace RuleDesk

open FileTask FileSpace

namespace FileSpace

variable {fs fs' : FileSpace} {file : FileId} {place : Location} {limit : Nat}

/-- The file is no longer than the limit. -/
def IsShort (fs : FileSpace) (place : Location) (limit : Nat) : Prop :=
  ∃ content, fs.entry? place = some (.regular content) ∧ content.length ≤ limit

/-- Bytes have been sent through an open file from the start of the file on. The file may
be longer than that, but not beyond the limit. -/
structure Laid (fs : FileSpace) (file : FileId) (place : Location) (limit : Nat) (sent : Bytes) :
    Prop where
  opened : fs.opened[file]? = some ⟨place, sent.length, false⟩
  short : fs.IsShort place (max limit sent.length)

theorem length_overlay (content bytes : Bytes) (position : Nat) :
    (overlay content bytes position).length = max content.length (position + bytes.length) := by
  simp only [overlay, List.length_append, List.length_take, List.length_replicate,
    List.length_drop]
  omega

theorem Laid.write {sent : Bytes} (h : fs.Laid file place limit sent) (more : Bytes) :
    ∃ fs', fs.write file more = (.ok (), fs') ∧ fs'.Laid file place limit (sent ++ more) ∧
      SameBut file [place] fs fs' := by
  obtain ⟨content, hentry, hlength⟩ := h.short
  obtain ⟨fs', hwrite, hopened, hlaid, hsame⟩ := write_regular h.opened hentry (if_neg (by simp)) more
  refine ⟨fs', hwrite, ⟨?_, _, hlaid, ?_⟩, hsame⟩
  · rw [List.length_append]
    exact hopened
  · rw [length_overlay, List.length_append]
    omega

/-- What another open file has done to the file does not matter unless it is too long. -/
theorem Laid.of_other {sent : Bytes} (h : fs.Laid file place limit sent)
    (hopened : fs'.opened[file]? = fs.opened[file]?) (hshort : fs'.IsShort place limit) :
    fs'.Laid file place limit sent := by
  obtain ⟨content, hentry, hlength⟩ := hshort
  exact ⟨hopened.trans h.opened, content, hentry, by omega⟩

theorem accepts_laid (file : FileId) (place : Location) (limit : Nat) (origin : FileSpace) :
    BufferedWriter.Accepts file fun sent fs =>
      fs.Laid file place limit sent ∧ SameBut file [place] origin fs := by
  intro sent fs hsent more
  obtain ⟨fs', hwrite, hlaid, hsame⟩ := hsent.1.write more
  exact ⟨fs', hwrite, hlaid, hsent.2.trans hsame⟩

end FileSpace

namespace FileSink

variable {place : Location} {limit : Nat} {before fs fs' : FileSpace} {s s' : FileSink}
  {path : String} {w : BufferedWriter} {given given' : Path.Key → Bytes}

/-- The keys of the paths that are open. -/
def openKeys (s : FileSink) : List Path.Key :=
  s.writers.map fun w => Path.key w.1

/-- Writers of different keys on one file, each of which has been given the bytes of its
key. -/
structure Sharing (place : Location) (limit : Nat) (given : Path.Key → Bytes) (s : FileSink)
    (fs : FileSpace) : Prop where
  keys : s.openKeys.Nodup
  files : (s.writers.map fun w => w.2.file).Nodup
  stands : ∀ w ∈ s.writers,
    w.2.Stands (fun sent fs => fs.Laid w.2.file place limit sent) fs (given (Path.key w.1))
  small : ∀ key, (given key).length ≤ limit

theorem Sharing.eq_of_key (h : Sharing place limit given s fs) {v : String × BufferedWriter}
    (hv : v ∈ s.writers) {u : String × BufferedWriter} (hu : u ∈ s.writers)
    (hkey : Path.key v.1 = Path.key u.1) : v = u :=
  List.inj_on_of_nodup_map h.keys hv hu hkey

theorem Sharing.file_ne (h : Sharing place limit given s fs) {v : String × BufferedWriter}
    (hv : v ∈ s.writers) {u : String × BufferedWriter} (hu : u ∈ s.writers)
    (hkey : Path.key v.1 ≠ Path.key u.1) : v.2.file ≠ u.2.file := by
  intro hfile
  rw [List.inj_on_of_nodup_map h.files hv hu hfile] at hkey
  exact hkey rfl

theorem Sharing.lt_length (h : Sharing place limit given s fs) {v : String × BufferedWriter}
    (hv : v ∈ s.writers) : v.2.file < fs.opened.length := by
  obtain ⟨sent, hlaid, -⟩ := h.stands v hv
  exact (List.getElem?_eq_some_iff.mp hlaid.opened).1

theorem isShort_of_laid {bytes sent : Bytes} {file : FileId} (hlaid : fs.Laid file place limit sent)
    (hsent : sent ++ w.pending = bytes) (hsmall : bytes.length ≤ limit) :
    fs.IsShort place limit := by
  obtain ⟨content, hentry, hlength⟩ := hlaid.short
  have hprefix : sent.length ≤ bytes.length := by
    rw [← hsent, List.length_append]
    exact Nat.le_add_right ..
  exact ⟨content, hentry, by omega⟩

theorem Sharing.isShort (h : Sharing place limit given s fs) {v : String × BufferedWriter}
    (hv : v ∈ s.writers) : fs.IsShort place limit := by
  obtain ⟨sent, hlaid, hsent⟩ := h.stands v hv
  exact isShort_of_laid hlaid hsent (h.small _)

theorem Sharing.stands_here (h : Sharing place limit given s fs) {v : String × BufferedWriter}
    (hv : v ∈ s.writers) : v.2.Stands (fun sent fs' => fs'.Laid v.2.file place limit sent ∧
      SameBut v.2.file [place] fs fs') fs (given (Path.key v.1)) := by
  obtain ⟨sent, hlaid, hsent⟩ := h.stands v hv
  exact ⟨sent, ⟨hlaid, .refl ..⟩, hsent⟩

/-- A writer stands as it did when another one has worked on the file. -/
theorem Sharing.stands_of_other (h : Sharing place limit given s fs)
    {v : String × BufferedWriter} (hv : v ∈ s.writers) {file : FileId} (hfile : v.2.file ≠ file)
    (hsame : SameBut file [place] fs fs') (hshort : fs'.IsShort place limit) :
    v.2.Stands (fun sent fs => fs.Laid v.2.file place limit sent) fs' (given (Path.key v.1)) := by
  obtain ⟨sent, hlaid, hsent⟩ := h.stands v hv
  exact ⟨sent, hlaid.of_other (hsame.opened _ hfile) hshort, hsent⟩

theorem mem_openKeys (hw : (path, w) ∈ s.writers) : Path.key path ∈ s.openKeys :=
  List.mem_map_of_mem (f := fun w : String × BufferedWriter => Path.key w.1) hw

theorem of_writer?_eq_some {p : String} (h : s.writer? path = some (p, w)) :
    (p, w) ∈ s.writers ∧ Path.key p = Path.key path := by
  unfold writer? at h
  have hmatch := List.find?_some h
  exact ⟨List.mem_of_find?_eq_some h, by simpa [sameFile] using hmatch⟩

theorem of_writer?_eq_none (h : s.writer? path = none) : Path.key path ∉ s.openKeys := by
  intro hmem
  obtain ⟨v, hv, hkey⟩ := List.mem_map.mp hmem
  have hnone := List.find?_eq_none.mp h v hv
  simp [sameFile, hkey] at hnone

/-- Nothing has been closed: what has been made is open, and what has been given went to
an open writer. -/
structure Gathering (place : Location) (limit : Nat) (given : Path.Key → Bytes) (s : FileSink)
    (fs : FileSpace) : Prop extends Sharing place limit given s fs where
  made : ∀ path ∈ s.created, Path.key path ∈ s.openKeys
  fresh : ∀ key, key ∉ s.openKeys → given key = []

theorem gathering_new (place : Location) (limit : Nat) (fs : FileSpace)
    (hnew : s.writers = [] ∧ s.created = []) : Gathering place limit (fun _ => []) s fs where
  keys := by simp [openKeys, hnew.1]
  files := by simp [hnew.1]
  stands := by simp [hnew.1]
  small := fun _ => Nat.zero_le limit
  made := by simp [hnew.2]
  fresh := fun _ _ => rfl

/-- A path of a new key gets a writer on a file that has just been opened. -/
theorem Gathering.add (h : Gathering place limit given s fs)
    (hclosed : Path.key path ∉ s.openKeys) (hlaid : fs'.Laid fs.opened.length place limit [])
    (hshort : fs'.IsShort place limit) (hsame : SameBut fs.opened.length [place] fs fs') :
    Gathering place limit given { s with
      writers := s.writers ++ [(path, { file := fs.opened.length })]
      created := s.created ++ [path] } fs' := by
  have hfresh : fs.opened.length ∉ s.writers.map fun w => w.2.file := by
    intro hmem
    obtain ⟨v, hv, hfile⟩ := List.mem_map.mp hmem
    exact Nat.ne_of_lt (h.lt_length hv) hfile
  refine ⟨⟨?_, ?_, ?_, h.small⟩, ?_, ?_⟩
  · rw [openKeys, List.map_append, List.map_singleton, ← List.concat_eq_append]
    exact h.keys.concat hclosed
  · rw [List.map_append, List.map_singleton, ← List.concat_eq_append]
    exact h.files.concat hfresh
  · intro v hv
    rcases List.mem_append.mp hv with hold | hlast
    · exact h.stands_of_other hold (Nat.ne_of_lt (h.lt_length hold)) hsame hshort
    · rw [List.mem_singleton.mp hlast]
      exact ⟨[], hlaid, (h.fresh _ hclosed).symm⟩
  · intro other hother
    rw [openKeys, List.map_append]
    rcases List.mem_append.mp hother with hold | hlast
    · exact List.mem_append_left _ (h.made other hold)
    · rw [List.mem_singleton.mp hlast]
      exact List.mem_append_right _ (List.mem_singleton_self _)
  · intro key hkey
    rw [openKeys, List.map_append] at hkey
    exact h.fresh key fun hmem => hkey (List.mem_append_left _ hmem)

theorem Gathering.openWriter (h : Gathering place limit given s fs)
    (hpath : fs.writable? path = some place) :
    ∃ s' w fs' p, (s.openWriter path).run fs = ((s', .ok w), fs') ∧
      Gathering place limit given s' fs' ∧ (p, w) ∈ s'.writers ∧ Path.key p = Path.key path ∧
      s'.targets = s.targets := by
  unfold FileSink.openWriter
  cases hwriter : s.writer? path with
  | some found =>
      obtain ⟨p, w⟩ := found
      obtain ⟨hmem, hkey⟩ := of_writer?_eq_some hwriter
      exact ⟨s, w, fs, p, rfl, h, hmem, hkey, rfl⟩
  | none =>
      have hclosed := of_writer?_eq_none hwriter
      have hnew : s.created.any (sameFile · path) = false := by
        rw [List.any_eq_false]
        intro other hother hsame
        have hkey : Path.key other = Path.key path := by simpa [sameFile] using hsame
        exact hclosed (hkey ▸ h.made other hother)
      obtain ⟨fs', hcreate, hopened, hentry, hsame⟩ := create_opened hpath
      have hshort : fs'.IsShort place limit := ⟨[], hentry, Nat.zero_le limit⟩
      have hlaid : fs'.Laid fs.opened.length place limit [] := ⟨hopened, [], hentry, Nat.zero_le _⟩
      refine ⟨_, { file := fs.opened.length }, fs', path, ?_, h.add hclosed hlaid hshort hsame, ?_,
        rfl, rfl⟩
      · simp only [hnew, Bool.false_eq_true, if_false, FileTask.bind_eq]
        rw [run_bind_of_run hcreate]
        rfl
      · exact List.mem_append_right _ (List.mem_singleton_self _)

/-- The writer of a path has gone on, and the others have not. -/
theorem Sharing.putWriter (h : Sharing place limit given s fs) {p : String}
    (hw : (p, w) ∈ s.writers) (hkey : Path.key p = Path.key path) {w' : BufferedWriter}
    (hfile : w'.file = w.file)
    (hstands : w'.Stands (fun sent fs => fs.Laid w.file place limit sent) fs'
      (given' (Path.key path)))
    (hothers : ∀ key, key ≠ Path.key path → given' key = given key)
    (hsmall : ∀ key, (given' key).length ≤ limit) (hsame : SameBut w.file [place] fs fs') :
    Sharing place limit given' (s.putWriter path w') fs' ∧
      (s.putWriter path w').openKeys = s.openKeys := by
  have hkeys : (s.putWriter path w').openKeys = s.openKeys := by
    unfold openKeys FileSink.putWriter
    rw [List.map_map]
    refine List.map_congr_left fun v _ => ?_
    by_cases hv : sameFile v.1 path <;> simp [hv]
  have hfiles : (s.putWriter path w').writers.map (fun v => v.2.file) =
      s.writers.map fun v => v.2.file := by
    unfold FileSink.putWriter
    rw [List.map_map]
    refine List.map_congr_left fun v hv => ?_
    by_cases hsameFile : sameFile v.1 path
    · obtain rfl : v = (p, w) := h.eq_of_key hv hw (by simpa [sameFile, hkey] using hsameFile)
      simp [hsameFile, hfile]
    · simp [hsameFile]
  obtain ⟨sent, hlaid, hsent⟩ := hstands
  have hshort := isShort_of_laid hlaid hsent (hsmall _)
  refine ⟨⟨hkeys ▸ h.keys, hfiles ▸ h.files, ?_, hsmall⟩, hkeys⟩
  intro u hu
  obtain ⟨v, hv, rfl⟩ := List.mem_map.mp hu
  by_cases hsameFile : sameFile v.1 path
  · have hvkey : Path.key v.1 = Path.key path := by simpa [sameFile] using hsameFile
    simp only [hsameFile, if_true, hvkey, hfile]
    exact ⟨sent, hlaid, hsent⟩
  · have hvkey : Path.key v.1 ≠ Path.key path := by simpa [sameFile] using hsameFile
    simp only [hsameFile, Bool.false_eq_true, if_false, hothers _ hvkey]
    exact h.stands_of_other hv (h.file_ne hv hw (hkey ▸ hvkey)) hsame hshort

/-- A record goes behind what its key has been given. -/
theorem Gathering.write (h : Gathering place limit given s fs) {handle : HandleId}
    (htarget : s.target? handle = some path) (hpath : fs.writable? path = some place)
    {record : String} (hown : given' (Path.key path) = given (Path.key path) ++ lineOf record)
    (hothers : ∀ key, key ≠ Path.key path → given' key = given key)
    (hsmall : ∀ key, (given' key).length ≤ limit) :
    ∃ s' fs', (s.write handle record).run fs = ((s', .ok ()), fs') ∧
      Gathering place limit given' s' fs' ∧ s'.targets = s.targets := by
  obtain ⟨s₁, w, fs₁, p, hopen, hgathering, hw, hkey, htargets⟩ := h.openWriter hpath
  obtain ⟨w', fs', hline, hfile, sent, ⟨hlaid, hsame⟩, hsent⟩ :=
    writeLine_stands (accepts_laid w.file place limit fs₁) (hgathering.stands_here hw) record
  rw [hkey, ← hown] at hsent
  obtain ⟨hsharing, hkeys⟩ := hgathering.putWriter hw hkey hfile ⟨sent, hlaid, hsent⟩ hothers
    hsmall hsame
  refine ⟨s₁.putWriter path w', fs', ?_, ⟨hsharing, ?_, ?_⟩, htargets⟩
  · unfold FileSink.write
    rw [htarget]
    simp only [FileTask.bind_eq]
    rw [run_bind_of_run hopen]
    dsimp only
    rw [run_bind_of_run hline]
    rfl
  · rw [hkeys]
    exact hgathering.made
  · intro key hclosed
    rw [hkeys] at hclosed
    have hother : key ≠ Path.key path := by
      rintro rfl
      exact hclosed (hkey ▸ mem_openKeys hw)
    rw [hothers key hother]
    exact hgathering.fresh key hclosed

theorem Sharing.removeWriter (h : Sharing place limit given s fs) {p : String}
    (hw : (p, w) ∈ s.writers) (hkey : Path.key p = Path.key path)
    (hsame : SameBut w.file [place] fs fs') (hshort : fs'.IsShort place limit) :
    Sharing place limit given (s.removeWriter path) fs' := by
  have hsublist : (s.removeWriter path).writers.Sublist s.writers := List.filter_sublist
  refine ⟨h.keys.sublist (hsublist.map _), h.files.sublist (hsublist.map _), ?_, h.small⟩
  intro v hv
  obtain ⟨hmem, hother⟩ := List.mem_filter.mp hv
  have hvkey : Path.key v.1 ≠ Path.key path := by simpa [sameFile] using hother
  exact h.stands_of_other hmem (h.file_ne hmem hw (hkey ▸ hvkey)) hsame hshort

theorem Sharing.closePath (h : Sharing place limit given s fs) (path : String) :
    ∃ fs', (s.closePath path).run fs = ((s.removeWriter path, .ok ()), fs') ∧
      Sharing place limit given (s.removeWriter path) fs' ∧
      (fs.IsShort place limit → fs'.IsShort place limit) := by
  unfold FileSink.closePath
  cases hwriter : s.writer? path with
  | none =>
      have hnothing : s.removeWriter path = s := by
        unfold FileSink.removeWriter
        rw [List.filter_eq_self.mpr]
        intro v hv
        simpa using List.find?_eq_none.mp hwriter v hv
      rw [hnothing]
      exact ⟨fs, rfl, h, id⟩
  | some found =>
      obtain ⟨p, w⟩ := found
      obtain ⟨hw, hkey⟩ := of_writer?_eq_some hwriter
      obtain ⟨fs', hrelease, hlaid, hsame⟩ :=
        (h.stands_here hw).release (accepts_laid w.file place limit fs)
      have hshort : fs'.IsShort place limit := Nat.max_eq_left (h.small _) ▸ hlaid.short
      refine ⟨fs', ?_, h.removeWriter hw hkey hsame hshort, fun _ => hshort⟩
      simp only [FileTask.bind_eq]
      rw [run_bind_of_run hrelease]
      rfl

theorem openKeys_removeWriter (s : FileSink) (path : String) (key : Path.Key) :
    key ∈ (s.removeWriter path).openKeys ↔ key ∈ s.openKeys ∧ key ≠ Path.key path := by
  unfold openKeys FileSink.removeWriter
  constructor
  · intro h
    obtain ⟨v, hv, rfl⟩ := List.mem_map.mp h
    obtain ⟨hmem, hother⟩ := List.mem_filter.mp hv
    exact ⟨List.mem_map_of_mem hmem, by simpa [sameFile] using hother⟩
  · rintro ⟨h, hother⟩
    obtain ⟨v, hv, rfl⟩ := List.mem_map.mp h
    exact List.mem_map_of_mem (List.mem_filter.mpr ⟨hv, by simpa [sameFile] using hother⟩)

theorem Sharing.closePaths (h : Sharing place limit given s fs) (list : List String) :
    ∃ s' fs', (s.closePaths list).run fs = ((s', .ok ()), fs') ∧
      (∀ key ∈ s'.openKeys, key ∈ s.openKeys ∧ ∀ path ∈ list, key ≠ Path.key path) ∧
      (fs.IsShort place limit → fs'.IsShort place limit) := by
  induction list generalizing s fs with
  | nil => exact ⟨s, fs, rfl, fun key hkey => ⟨hkey, by simp⟩, id⟩
  | cons path list ih =>
      obtain ⟨fs₁, hclose, hsharing, hshort₁⟩ := h.closePath path
      obtain ⟨s', fs', hrest, hkeys, hshort⟩ := ih hsharing
      refine ⟨s', fs', ?_, ?_, fun hfirst => hshort (hshort₁ hfirst)⟩
      · unfold FileSink.closePaths
        rw [FileTask.bind_eq, run_bind_of_run hclose]
        exact hrest
      · intro key hkey
        obtain ⟨hmem, hothers⟩ := hkeys key hkey
        obtain ⟨hbefore, hother⟩ := (openKeys_removeWriter s path key).mp hmem
        exact ⟨hbefore, List.forall_mem_cons.mpr ⟨hother, hothers⟩⟩

/-- Every file can be closed, and then none is open. -/
theorem Sharing.closeAll (h : Sharing place limit given s fs) :
    ∃ s' fs', s.closeAll.run fs = ((s', .ok ()), fs') ∧ s'.openKeys = [] ∧
      (s.openKeys ≠ [] → fs'.IsShort place limit) := by
  obtain ⟨s', fs', hrun, hkeys, hshort⟩ := h.closePaths ((s.writers.map Prod.fst).mergeSort Path.le)
  refine ⟨s', fs', hrun, ?_, fun hopen => hshort ?_⟩
  · rw [List.eq_nil_iff_forall_not_mem]
    intro key hkey
    obtain ⟨hmem, hothers⟩ := hkeys key hkey
    obtain ⟨v, hv, rfl⟩ := List.mem_map.mp hmem
    have hlisted : v.1 ∈ (s.writers.map Prod.fst).mergeSort Path.le :=
      (List.mergeSort_perm _ _).mem_iff.mpr (List.mem_map_of_mem hv)
    exact hothers v.1 hlisted rfl
  · obtain ⟨key, hkey⟩ := List.exists_mem_of_ne_nil _ hopen
    obtain ⟨v, hv, -⟩ := List.mem_map.mp hkey
    exact h.isShort hv

end FileSink
end RuleDesk
