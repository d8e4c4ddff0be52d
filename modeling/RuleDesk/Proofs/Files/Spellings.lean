import RuleDesk.Proofs.Files.Places
import Mathlib.Data.List.Basic

/-!
# Spellings of a path

The absolute form of a path leads to the file that the path leads to. A rooted path at
which a file can be made has no slash at its end, and if it never goes up, then its
segments are the names on the way to the file.
-/
namespace RuleDesk
namespace Path

theorem segments_slash (a b : String) :
    segments (a ++ "/" ++ b) = segments a ++ segments b := by
  have hlist : (a ++ "/" ++ b).toList = a.toList ++ '/' :: b.toList := by simp
  unfold segments
  rw [hlist, List.splitOn_append_cons_self, List.map_append, List.filter_append]

@[simp] theorem segments_empty : segments "" = [] := rfl

theorem eq_append_slash {path : String} (h : endsWithSlash path = true) :
    ∃ front, path = front ++ "/" := by
  have hlast : path.toList.getLast? = some '/' := by simpa [endsWithSlash] using h
  obtain ⟨front, hfront⟩ := List.getLast?_eq_some_iff.mp hlast
  refine ⟨String.ofList front, ?_⟩
  rw [← String.toList_inj, hfront]
  simp

theorem segments_push (base segment : String) :
    segments (push base segment) = segments base ++ segments segment := by
  unfold push
  split
  · next hshort =>
      rcases Bool.or_eq_true_iff.mp hshort with hempty | hslash
      · obtain rfl : base = "" := by simpa using hempty
        simp
      · obtain ⟨front, rfl⟩ := eq_append_slash hslash
        have hbase : segments (front ++ "/") = segments front := by
          simpa using segments_slash front ""
        rw [segments_slash, hbase]
  · exact segments_slash base segment

theorem slash_not_mem_splitOn (cs : List Char) : ∀ piece ∈ cs.splitOn '/', '/' ∉ piece := by
  induction cs with
  | nil => simp
  | cons c cs ih =>
      rw [List.splitOn_cons_eq_if_modifyHead]
      split
      · simpa using ih
      · next hother =>
          have hne : c ≠ '/' := by simpa using hother
          obtain ⟨piece, pieces, hcons⟩ := List.exists_cons_of_ne_nil (List.splitOn_ne_nil '/' cs)
          rw [hcons] at ih ⊢
          rw [List.modifyHead_cons]
          intro other hmem
          rcases List.mem_cons.mp hmem with rfl | hlater
          · simpa [Ne.symm hne] using ih piece (by simp)
          · exact ih other (by simp [hlater])

/-- A segment is not empty and has no slash. -/
theorem of_mem_segments {path segment : String} (h : segment ∈ segments path) :
    segment ≠ "" ∧ '/' ∉ segment.toList := by
  obtain ⟨hmem, hnonempty⟩ := List.mem_filter.mp h
  obtain ⟨piece, hpiece, rfl⟩ := List.mem_map.mp hmem
  refine ⟨by simpa using hnonempty, ?_⟩
  rw [String.toList_ofList]
  exact slash_not_mem_splitOn _ piece hpiece

theorem segments_of_mem {path segment : String} (h : segment ∈ segments path) :
    segments segment = [segment] := by
  obtain ⟨hnonempty, hslash⟩ := of_mem_segments h
  unfold segments
  rw [List.splitOn_eq_singleton hslash]
  simp [hnonempty]

theorem endsWithSlash_of_mem {path segment : String} (h : segment ∈ segments path) :
    endsWithSlash segment = false := by
  have hslash := (of_mem_segments h).2
  unfold endsWithSlash
  rw [beq_eq_false_iff_ne]
  exact fun hlast => hslash (List.mem_of_getLast? hlast)

theorem endsWithSlash_push (base : String) {segment : String} (h : segment ≠ "") :
    endsWithSlash (push base segment) = endsWithSlash segment := by
  have hne : segment.toList ≠ [] := by simpa using h
  have hlast (front : List Char) : (front ++ segment.toList).getLast? = segment.toList.getLast? :=
    List.getLast?_append_of_ne_nil front hne
  unfold endsWithSlash push
  split
  · rw [String.toList_append, hlast]
  · rw [String.toList_append, hlast]

theorem isRooted_push {base : String} (h : isRooted base = true) (segment : String) :
    isRooted (push base segment) = true := by
  have hhead : base.toList.head? = some '/' := by simpa [isRooted] using h
  obtain ⟨rest, hrest⟩ := List.head?_eq_some_iff.mp hhead
  unfold isRooted push
  split <;> simp [hrest]

theorem segments_pushAll {list : List String} (h : ∀ segment ∈ list, segments segment = [segment])
    (base : String) : segments (list.foldl push base) = segments base ++ list := by
  induction list generalizing base with
  | nil => simp
  | cons segment list ih =>
      have hlater : ∀ other ∈ list, segments other = [other] := fun other hother =>
        h other (List.mem_cons_of_mem segment hother)
      rw [List.foldl_cons, ih hlater, segments_push, h segment (by simp)]
      simp

theorem isRooted_pushAll {base : String} (h : isRooted base = true) (list : List String) :
    isRooted (list.foldl push base) = true := by
  induction list generalizing base with
  | nil => exact h
  | cons segment list ih => exact ih (isRooted_push h segment)

theorem rootOf_spec (path : String) :
    isRooted (rootOf path) = true ∧ segments (rootOf path) = [] := by
  unfold rootOf
  split
  · exact ⟨rfl, rfl⟩
  · exact ⟨rfl, rfl⟩
  · exact ⟨rfl, rfl⟩

/-- Where the absolute form of a path begins. -/
def base (workDir path : String) : String :=
  if isRooted path then rootOf path else workDir

theorem absolute?_eq {workDir path target : String} (h : absolute? workDir path = some target) :
    target = if endsWithSlash path then push ((parts path).foldl push (base workDir path)) ""
      else (parts path).foldl push (base workDir path) := by
  unfold absolute? at h
  split at h
  · cases h
  · exact (Option.some.inj h).symm

theorem isRooted_base {workDir : String} (h : isRooted workDir = true) (path : String) :
    isRooted (base workDir path) = true := by
  unfold base
  split
  · exact (rootOf_spec path).1
  · exact h

theorem isRooted_absolute {workDir path target : String} (hroot : isRooted workDir = true)
    (h : absolute? workDir path = some target) : isRooted target = true := by
  have hbody := isRooted_pushAll (isRooted_base hroot path) (parts path)
  rw [absolute?_eq h]
  split
  · exact isRooted_push hbody ""
  · exact hbody

theorem segments_absolute {workDir path target : String}
    (h : absolute? workDir path = some target) :
    segments target = segments (base workDir path) ++ parts path := by
  have hparts : ∀ segment ∈ parts path, segments segment = [segment] := fun segment hmem =>
    segments_of_mem (List.mem_of_mem_filter hmem)
  have hbody := segments_pushAll hparts (base workDir path)
  rw [absolute?_eq h]
  split
  · rw [segments_push, hbody, segments_empty, List.append_nil]
  · exact hbody

theorem endsWithSlash_absolute {workDir path target : String}
    (h : absolute? workDir path = some target) (hplain : endsWithSlash path = false)
    (hparts : parts path ≠ []) : endsWithSlash target = false := by
  obtain ⟨front, last, hsplit⟩ := (List.eq_nil_or_concat (parts path)).resolve_left hparts
  rw [List.concat_eq_append] at hsplit
  have hlast : last ∈ segments path := List.mem_of_mem_filter (by rw [← parts, hsplit]; simp)
  rw [absolute?_eq h, hplain, if_neg Bool.false_ne_true, hsplit, List.foldl_append,
    List.foldl_cons, List.foldl_nil, endsWithSlash_push _ (of_mem_segments hlast).1]
  exact endsWithSlash_of_mem hlast

end Path

namespace FileSpace

variable {fs : FileSpace} {place goal : Location} {segments : List String} {path : String}

theorem Way.append {first second : List String} {middle : Location}
    (h : fs.Way place first middle) (h' : fs.Way middle second goal) :
    fs.Way place (first ++ second) goal := by
  induction h with
  | here place => exact h'
  | stay hdir _ ih => exact .stay hdir (ih h')
  | up hdir _ ih => exact .up hdir (ih h')
  | down hdir hstay hup hshort _ ih => exact .down hdir hstay hup hshort (ih h')

/-- The names before a place lead through directories. -/
def IsInside (fs : FileSpace) (place : Location) : Prop :=
  ∀ above, above <+: place → above ≠ place → fs.entry? above = some .directory

theorem isInside_root (fs : FileSpace) : fs.IsInside [] := by
  intro above habove hne
  exact absurd (List.prefix_nil.mp habove) hne

theorem IsInside.dropLast (h : fs.IsInside place) : fs.IsInside place.dropLast := by
  intro above habove hne
  have habove' : above <+: place := habove.trans (List.dropLast_prefix place)
  refine h above habove' ?_
  rintro rfl
  exact hne (habove.eq_of_length_le (by simp))

theorem IsInside.directory_dropLast (h : fs.IsInside place)
    (hdir : fs.entry? place = some .directory) : fs.entry? place.dropLast = some .directory := by
  by_cases hroot : place.dropLast = place
  · rw [hroot, hdir]
  · exact h _ (List.dropLast_prefix place) hroot

theorem IsInside.child (h : fs.IsInside place) (hdir : fs.entry? place = some .directory)
    (name : String) : fs.IsInside (place ++ [name]) := by
  intro above habove hne
  rcases List.prefix_concat_iff.mp habove with hsame | hbefore
  · exact absurd (by simpa using hsame) hne
  · by_cases hplace : above = place
    · rw [hplace, hdir]
    · exact h above hbefore hplace

/-- A way that ends with dots ends at a directory. -/
theorem Way.ends (h : fs.Way place segments goal) (hinside : fs.IsInside place) :
    fs.IsInside goal ∧ ∀ last, segments.getLast? = some last → last = "." ∨ last = ".." →
      fs.entry? goal = some .directory := by
  induction h with
  | here place => exact ⟨hinside, nofun⟩
  | @stay place goal rest hdir hway ih =>
      obtain ⟨hgoal, hends⟩ := ih hinside
      refine ⟨hgoal, fun last hlast hdots => ?_⟩
      cases rest with
      | nil =>
          cases hway
          exact hdir
      | cons next rest => exact hends last (by simpa using hlast) hdots
  | @up place goal rest hdir hway ih =>
      obtain ⟨hgoal, hends⟩ := ih hinside.dropLast
      refine ⟨hgoal, fun last hlast hdots => ?_⟩
      cases rest with
      | nil =>
          cases hway
          exact hinside.directory_dropLast hdir
      | cons next rest => exact hends last (by simpa using hlast) hdots
  | @down place goal segment rest hdir hstay hup hshort hway ih =>
      obtain ⟨hgoal, hends⟩ := ih (hinside.child hdir segment)
      refine ⟨hgoal, fun last hlast hdots => ?_⟩
      cases rest with
      | nil =>
          obtain rfl : segment = last := by simpa using hlast
          exact absurd hdots (by simp [hstay, hup])
      | cons next rest => exact hends last (by simpa using hlast) hdots

/-- A way that never goes up adds the names that it passes. -/
theorem Way.eq_append (h : fs.Way place segments goal) (hup : ".." ∉ segments) :
    goal = place ++ segments.filter (· != ".") := by
  induction h with
  | here place => simp
  | stay _ _ ih =>
      have hlater := ih fun hmem => hup (List.mem_cons_of_mem _ hmem)
      simpa using hlater
  | up => simp at hup
  | down _ hstay _ _ _ ih =>
      have hlater := ih fun hmem => hup (List.mem_cons_of_mem _ hmem)
      rw [hlater, List.filter_cons_of_pos (by simpa using hstay)]
      simp

theorem IsFree.not_directory (h : fs.IsFree place) : fs.entry? place ≠ some .directory := by
  rcases h with hnone | ⟨content, hregular⟩
  · simp [hnone]
  · simp [hregular]

/-- A path to a file names it by its last segment, and has no slash behind it. -/
theorem last_of_writable (hinside : fs.IsInside (fs.start path))
    (hdir : fs.entry? (fs.start path) = some .directory) (h : fs.writable? path = some place) :
    Path.endsWithSlash path = false ∧ Path.parts path ≠ [] := by
  obtain ⟨hasks, hfind, hfree⟩ := writable_eq_some_iff.mp h
  have hway := (find_eq_look_iff.mp hfind).2
  have hends := (hway.ends hinside).2
  obtain ⟨last, hlast⟩ : ∃ last, (Path.segments path).getLast? = some last := by
    cases hsegments : (Path.segments path).getLast? with
    | none =>
        rw [List.getLast?_eq_none_iff.mp hsegments] at hway
        cases hway
        exact absurd hdir hfree.not_directory
    | some last => exact ⟨last, rfl⟩
  have hstay : last ≠ "." := fun hdot => hfree.not_directory (hends last hlast (.inl hdot))
  have hup : last ≠ ".." := fun hdots => hfree.not_directory (hends last hlast (.inr hdots))
  constructor
  · unfold asksForDirectory at hasks
    rw [hlast] at hasks
    simpa [hstay, hup] using hasks
  · have hmem : last ∈ Path.parts path :=
      List.mem_filter.mpr ⟨List.mem_of_getLast? hlast, by simpa using hstay⟩
    exact List.ne_nil_of_mem hmem

theorem start_of_rooted (hroot : Path.isRooted path = true) : fs.start path = [] :=
  if_pos hroot

theorem plain_of_writable (hroot : Path.isRooted path = true)
    (h : fs.writable? path = some place) : Path.endsWithSlash path = false := by
  have hstart := @start_of_rooted fs path hroot
  exact (last_of_writable (hstart ▸ isInside_root fs) (hstart ▸ rfl) h).1

/-- A text names the working directory. -/
structure IsWorkDir (fs : FileSpace) (workDir : String) : Prop where
  rooted : Path.isRooted workDir = true
  found : fs.find workDir = .ok (.present fs.workDir .directory)

theorem IsWorkDir.way {workDir : String} (h : fs.IsWorkDir workDir) :
    fs.Way [] (Path.segments workDir) fs.workDir := by
  have hway := (find_eq_ok h.found).2.1
  rwa [start_of_rooted h.rooted] at hway

theorem IsWorkDir.directory {workDir : String} (h : fs.IsWorkDir workDir) :
    fs.entry? fs.workDir = some .directory :=
  (look_eq_present (find_eq_ok h.found).2.2.symm).2

/-- The absolute form of a path, if it is short enough to be looked up, leads to the file
that the path leads to. -/
theorem writable_absolute {workDir target : String} (hdir : fs.IsWorkDir workDir)
    (htarget : Path.absolute? workDir path = some target) (hlookup : refusal? target = none)
    (h : fs.writable? path = some place) : fs.writable? target = some place := by
  obtain ⟨-, hfind, hfree⟩ := writable_eq_some_iff.mp h
  have hway := (find_eq_look_iff.mp hfind).2
  have hbase : fs.Way [] (Path.segments (Path.base workDir path)) (fs.start path) := by
    unfold Path.base start
    split
    · rw [(Path.rootOf_spec path).2]
      exact .here []
    · exact hdir.way
  have hstart : fs.entry? (fs.start path) = some .directory := by
    unfold start
    split
    · rfl
    · exact hdir.directory
  have hinside : fs.IsInside (fs.start path) := (hbase.ends (isInside_root fs)).1
  obtain ⟨hplain, hparts⟩ := last_of_writable hinside hstart h
  have hslash := Path.endsWithSlash_absolute htarget hplain hparts
  have hasks : asksForDirectory target = false := by simp [asksForDirectory, hslash]
  refine writable_eq_some_iff.mpr ⟨hasks, find_eq_look_iff.mpr ⟨hlookup, ?_⟩, hfree⟩
  rw [start_of_rooted (Path.isRooted_absolute hdir.rooted htarget),
    Path.segments_absolute htarget]
  exact hbase.append hway.withoutDots

/-- Rooted paths that never go up and lead to one file have one key. -/
theorem key_eq_of_writable {other : String} (hroot : Path.isRooted path = true)
    (hrootOther : Path.isRooted other = true) (hup : ".." ∉ Path.segments path)
    (hupOther : ".." ∉ Path.segments other) (h : fs.writable? path = some place)
    (hother : fs.writable? other = some place) : Path.key path = Path.key other := by
  have hparts {text : String} (hrooted : Path.isRooted text = true)
      (hnever : ".." ∉ Path.segments text) (hleads : fs.writable? text = some place) :
      place = Path.parts text := by
    have hway := (find_eq_look_iff.mp (writable_eq_some_iff.mp hleads).2.1).2
    rw [start_of_rooted hrooted] at hway
    exact hway.eq_append hnever
  have hsame := (hparts hroot hup h).symm.trans (hparts hrootOther hupOther hother)
  rw [Path.key, Path.key, hroot, hrootOther, hsame]

end FileSpace
end RuleDesk
