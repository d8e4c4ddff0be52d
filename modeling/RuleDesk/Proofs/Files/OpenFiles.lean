import RuleDesk.Proofs.Files.Places
import RuleDesk.Proofs.Files.Run

/-!
# Open files

A request on one open file leaves the other open files as they are, and all places
but the one that it writes to.
-/
namespace RuleDesk

namespace FileTask

theorem run_openFile (path : String) (mode : OpenMode) (fs : FileSpace) :
    (openFile path mode).run fs = match fs.openFile path mode with
      | .ok (file, fs) => (.ok file, fs)
      | .error e => (.error e, fs) := rfl

theorem run_read (file : FileId) (count : Nat) (fs : FileSpace) :
    (read file count).run fs = fs.read file (some count) := rfl

theorem run_write (file : FileId) (bytes : Bytes) (fs : FileSpace) :
    (write file bytes).run fs = fs.write file bytes := rfl

theorem run_sizeBound (file : FileId) (fs : FileSpace) :
    (sizeBound file).run fs = (fs.size file, fs) := rfl

end FileTask

namespace FileSpace

/-- One open file and the entries at some places may differ, and nothing else. -/
structure SameBut (file : FileId) (places : List Location) (fs fs' : FileSpace) : Prop where
  workDir : fs'.workDir = fs.workDir
  entries : ∀ location, location ∉ places → fs'.entry? location = fs.entry? location
  opened : ∀ other, other ≠ file → fs'.opened[other]? = fs.opened[other]?
  length : fs.opened.length ≤ fs'.opened.length

variable {fs fs' fs'' : FileSpace} {file : FileId} {places : List Location} {place : Location}

theorem SameBut.refl (file : FileId) (places : List Location) (fs : FileSpace) :
    SameBut file places fs fs :=
  ⟨rfl, fun _ _ => rfl, fun _ _ => rfl, Nat.le_refl _⟩

theorem SameBut.trans (h : SameBut file places fs fs') (h' : SameBut file places fs' fs'') :
    SameBut file places fs fs'' :=
  ⟨h'.workDir.trans h.workDir,
    fun location hout => (h'.entries location hout).trans (h.entries location hout),
    fun other hother => (h'.opened other hother).trans (h.opened other hother),
    Nat.le_trans h.length h'.length⟩

theorem SameBut.filled (h : SameBut file [] fs fs') : Filled fs fs' :=
  ⟨h.workDir, fun location => .inl (h.entries location List.not_mem_nil)⟩

/-- The files that were opened first are as they were. -/
def SameFirst (count : Nat) (fs fs' : FileSpace) : Prop :=
  ∀ file < count, fs'.opened[file]? = fs.opened[file]?

theorem SameFirst.refl (count : Nat) (fs : FileSpace) : SameFirst count fs fs :=
  fun _ _ => rfl

theorem SameFirst.trans {count : Nat} (h : SameFirst count fs fs') (h' : SameFirst count fs' fs'') :
    SameFirst count fs fs'' :=
  fun other hother => (h' other hother).trans (h other hother)

theorem SameBut.sameFirst (h : SameBut file places fs fs') {count : Nat} (hfile : count ≤ file) :
    SameFirst count fs fs' :=
  fun other hother => h.opened other (Nat.ne_of_lt (Nat.lt_of_lt_of_le hother hfile))

theorem opened_setPosition (fs : FileSpace) (file other : FileId) (position : Nat) :
    (fs.setPosition file position).opened[other]? =
      if other = file then fs.opened[other]?.map fun f => { f with position }
      else fs.opened[other]? := by
  unfold setPosition
  rw [List.getElem?_modify]
  by_cases hsame : other = file
  · simp [hsame]
  · simp [hsame, Ne.symm hsame]

@[simp] theorem length_setPosition (fs : FileSpace) (file : FileId) (position : Nat) :
    (fs.setPosition file position).opened.length = fs.opened.length :=
  List.length_modify ..

theorem length_register (fs : FileSpace) (file : OpenedFile) :
    fs.opened.length ≤ (fs.register file).2.opened.length := by
  simp [register]

@[simp] theorem entry_setPosition (fs : FileSpace) (file : FileId) (position : Nat)
    (location : Location) :
    FileSpace.entry? (fs.setPosition file position) location = fs.entry? location := rfl

@[simp] theorem opened_setEntry (fs : FileSpace) (place : Location) (entry : FileEntry) :
    (fs.setEntry place entry).opened = fs.opened := rfl

/-- The bytes of a regular file that an open file has not given out yet. -/
def Remains (fs : FileSpace) (file : FileId) (place : Location) (rest : Bytes) : Prop :=
  ∃ position appending content,
    fs.opened[file]? = some ⟨place, position, appending⟩ ∧
    fs.entry? place = some (.regular content) ∧ content.drop position = rest

theorem Remains.of_same {rest : Bytes} (h : fs.Remains file place rest)
    (hopened : fs'.opened[file]? = fs.opened[file]?)
    (hentry : fs'.entry? place = fs.entry? place) : fs'.Remains file place rest := by
  obtain ⟨position, appending, content, hfile, hcontent, hrest⟩ := h
  exact ⟨position, appending, content, hopened.trans hfile, hentry.trans hcontent, hrest⟩

theorem Remains.length_le {rest : Bytes} (h : fs.Remains file place rest) :
    rest.length ≤ fs.size file := by
  obtain ⟨position, appending, content, hfile, hcontent, rfl⟩ := h
  unfold FileSpace.size
  rw [hfile, Option.bind_some, hcontent, List.length_drop]
  exact Nat.sub_le ..

theorem Remains.read {rest : Bytes} (h : fs.Remains file place rest) (count : Nat) :
    ∃ fs', fs.read file (some count) = (.ok (rest.take count), fs') ∧
      fs'.Remains file place (rest.drop count) ∧ SameBut file [] fs fs' := by
  obtain ⟨position, appending, content, hfile, hcontent, rfl⟩ := h
  let given := (content.drop position).take count
  refine ⟨fs.setPosition file (position + given.length), ?_, ?_, rfl, fun _ _ => rfl, ?_, ?_⟩
  · unfold FileSpace.read
    rw [hfile]
    simp only [hcontent]
    rfl
  · refine ⟨position + given.length, appending, content, ?_, hcontent, ?_⟩
    · rw [opened_setPosition, if_pos rfl, hfile, Option.map_some]
    · have hlength : given.length = min count (content.drop position).length :=
        List.length_take
      rw [← List.drop_drop, hlength]
      rcases Nat.le_total count (content.drop position).length with hle | hle
      · rw [Nat.min_eq_left hle]
      · rw [Nat.min_eq_right hle, List.drop_length, List.drop_eq_nil_of_le hle]
  · intro other hother
    rw [opened_setPosition, if_neg hother]
  · exact Nat.le_of_eq (length_setPosition fs file _).symm

/-- What is written to an open file goes to the end of a regular file with this content:
it was opened to append, or it stands there. -/
structure AtEnd (fs : FileSpace) (file : FileId) (place : Location) (content : Bytes) : Prop where
  opened : ∃ position appending, fs.opened[file]? = some ⟨place, position, appending⟩ ∧
    (appending = true ∨ position = content.length)
  entry : fs.entry? place = some (.regular content)

theorem AtEnd.of_same {content : Bytes} (h : fs.AtEnd file place content)
    (hopened : fs'.opened[file]? = fs.opened[file]?)
    (hentry : fs'.entry? place = fs.entry? place) : fs'.AtEnd file place content := by
  obtain ⟨position, appending, hfile, hend⟩ := h.opened
  exact ⟨⟨position, appending, hopened.trans hfile, hend⟩, hentry.trans h.entry⟩

theorem AtEnd.lt_length {content : Bytes} (h : fs.AtEnd file place content) :
    file < fs.opened.length := by
  obtain ⟨position, appending, hfile, -⟩ := h.opened
  exact (List.getElem?_eq_some_iff.mp hfile).1

/-- Bytes are laid over a regular file where the open file stands, or at the end of it. -/
theorem write_regular {position start : Nat} {appending : Bool} {content : Bytes}
    (hfile : fs.opened[file]? = some ⟨place, position, appending⟩)
    (hentry : fs.entry? place = some (.regular content))
    (hstart : (if appending then content.length else position) = start) (bytes : Bytes) :
    ∃ fs', fs.write file bytes = (.ok (), fs') ∧
      fs'.opened[file]? = some ⟨place, start + bytes.length, appending⟩ ∧
      fs'.entry? place = some (.regular (overlay content bytes start)) ∧
      SameBut file [place] fs fs' := by
  have hroot : place ≠ [] := @IsFree.ne_root fs place (.inr ⟨content, hentry⟩)
  let filled := fs.setEntry place (.regular (overlay content bytes start))
  refine ⟨filled.setPosition file (start + bytes.length), ?_, ?_, ?_, rfl, ?_, ?_, ?_⟩
  · unfold FileSpace.write
    rw [hfile]
    simp only [hentry, hstart]
    rfl
  · rw [opened_setPosition, if_pos rfl, opened_setEntry, hfile, Option.map_some]
  · rw [entry_setPosition, entry_setEntry hroot, if_pos rfl]
  · intro location hout
    rw [entry_setPosition, entry_setEntry hroot, if_neg (by simpa using hout)]
  · intro other hother
    rw [opened_setPosition, if_neg hother, opened_setEntry]
  · exact Nat.le_of_eq (length_setPosition filled file _).symm

theorem overlay_atEnd (content bytes : Bytes) :
    overlay content bytes content.length = content ++ bytes := by
  simp [overlay]

theorem AtEnd.write {content : Bytes} (h : fs.AtEnd file place content) (bytes : Bytes) :
    ∃ fs', fs.write file bytes = (.ok (), fs') ∧ fs'.AtEnd file place (content ++ bytes) ∧
      SameBut file [place] fs fs' := by
  obtain ⟨position, appending, hfile, hend⟩ := h.opened
  have hstart : (if appending then content.length else position) = content.length := by
    rcases hend with rfl | rfl
    · exact if_pos rfl
    · exact ite_self _
  obtain ⟨fs', hwrite, hopened, hentry, hsame⟩ := write_regular hfile h.entry hstart bytes
  rw [overlay_atEnd] at hentry
  exact ⟨fs', hwrite, ⟨⟨_, appending, hopened, .inr List.length_append.symm⟩, hentry⟩, hsame⟩

theorem opened_register (fs : FileSpace) (file : OpenedFile) (other : FileId) :
    (fs.register file).2.opened[other]? =
      if other = fs.opened.length then some file else fs.opened[other]? := by
  unfold register
  rw [List.getElem?_append]
  by_cases hbefore : other < fs.opened.length
  · rw [if_pos hbefore, if_neg (Nat.ne_of_lt hbefore)]
  · rw [if_neg hbefore]
    by_cases hsame : other = fs.opened.length
    · simp [hsame]
    · have hle := Nat.le_of_not_lt hbefore
      have hbehind : [file].length ≤ other - fs.opened.length :=
        Nat.sub_pos_of_lt (Nat.lt_of_le_of_ne hle (Ne.symm hsame))
      rw [if_neg hsame, List.getElem?_eq_none hbehind, List.getElem?_eq_none hle]

/-- A file that is made or emptied is open at its start. -/
theorem create_opened {path : String} (h : fs.writable? path = some place) :
    ∃ fs', (FileTask.openFile path .create).run fs = (.ok fs.opened.length, fs') ∧
      fs'.opened[fs.opened.length]? = some ⟨place, 0, false⟩ ∧
      fs'.entry? place = some (.regular []) ∧ SameBut fs.opened.length [place] fs fs' := by
  have hroot : place ≠ [] := (writable_eq_some_iff.mp h).2.2.ne_root
  let emptied := fs.setEntry place (.regular [])
  refine ⟨(emptied.register { location := place }).2, ?_, ?_, ?_, rfl, ?_, ?_,
    length_register emptied _⟩
  · rw [FileTask.run_openFile, openFile_create h]
    rfl
  · rw [opened_register]
    exact if_pos rfl
  · exact (entry_setEntry hroot _ _).trans (if_pos rfl)
  · intro location hout
    exact (entry_setEntry hroot _ _).trans (if_neg (by simpa using hout))
  · intro other hother
    rw [opened_register]
    exact if_neg hother

/-- The start of such a file is its end. -/
theorem create_run {path : String} (h : fs.writable? path = some place) :
    ∃ fs', (FileTask.openFile path .create).run fs = (.ok fs.opened.length, fs') ∧
      fs'.AtEnd fs.opened.length place [] ∧ SameBut fs.opened.length [place] fs fs' := by
  obtain ⟨fs', hrun, hopened, hentry, hsame⟩ := create_opened h
  exact ⟨fs', hrun, ⟨⟨0, false, hopened, .inr rfl⟩, hentry⟩, hsame⟩

/-- A file that is opened again goes on at its end. -/
theorem append_run {path : String} {content : Bytes} (h : fs.writable? path = some place)
    (hplain : Path.endsWithSlash path = false)
    (hentry : fs.entry? place = some (.regular content)) :
    ∃ fs', (FileTask.openFile path .append).run fs = (.ok fs.opened.length, fs') ∧
      fs'.AtEnd fs.opened.length place content ∧ SameBut fs.opened.length [place] fs fs' := by
  refine ⟨(fs.register { location := place, appending := true }).2, ?_,
    ⟨⟨0, true, ?_, .inl rfl⟩, hentry⟩, rfl, fun _ _ => rfl, ?_, length_register fs _⟩
  · rw [FileTask.run_openFile, openFile_append h hplain hentry]
    rfl
  · rw [opened_register]
    exact if_pos rfl
  · intro other hother
    rw [opened_register]
    exact if_neg hother

theorem read_run {path : String} {content : Bytes}
    (h : fs.findExisting path = .ok (place, .regular content)) :
    ∃ fs', (FileTask.openFile path .read).run fs = (.ok fs.opened.length, fs') ∧
      fs'.Remains fs.opened.length place content ∧ SameBut fs.opened.length [] fs fs' := by
  refine ⟨(fs.register { location := place }).2, ?_, ⟨0, false, content, ?_, ?_, rfl⟩, rfl,
    fun _ _ => rfl, ?_, length_register fs _⟩
  · rw [FileTask.run_openFile, openFile_read h]
    rfl
  · rw [opened_register]
    exact if_pos rfl
  · exact @findExisting_eq_ok fs place path _ h
  · intro other hother
    rw [opened_register]
    exact if_neg hother

end FileSpace
end RuleDesk
