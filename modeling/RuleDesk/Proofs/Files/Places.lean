import RuleDesk.Files.Space

/-!
# Places of files

A path leads through directories, so where it leads does not change when files are
made or filled. Paths of one key that can both be written to lead to one place.
-/
namespace RuleDesk

/-- The place that was looked for. -/
def Found.location : Found → Location
  | present location _ => location
  | absent location => location

namespace FileSpace

variable {fs fs' fs'' : FileSpace} {place goal : Location} {segments : List String}
  {path : String}

theorem lookup_replaced (entries : List (Location × FileEntry)) (place location : Location)
    (entry : FileEntry) :
    (entries.map fun e => if e.1 = place then (place, entry) else e).lookup location =
      if location = place then (entries.lookup place).map fun _ => entry
      else entries.lookup location := by
  induction entries with
  | nil => simp
  | cons e entries ih =>
      obtain ⟨first, old⟩ := e
      rw [List.map_cons]
      by_cases hfirst : first = place
      · subst hfirst
        by_cases hsame : location = first
        · simp [hsame]
        · simp [hsame, List.lookup_cons, beq_eq_false_iff_ne.mpr hsame, ih]
      · by_cases hsame : location = first
        · simp [hsame, hfirst]
        · simp [hfirst, List.lookup_cons, beq_eq_false_iff_ne.mpr hsame, ih,
            beq_eq_false_iff_ne.mpr (Ne.symm hfirst)]

theorem entry_setEntry (hplace : place ≠ []) (entry : FileEntry) (location : Location) :
    FileSpace.entry? (fs.setEntry place entry) location =
      if location = place then some entry else fs.entry? location := by
  by_cases hroot : location = []
  · subst hroot
    rw [if_neg (Ne.symm hplace)]
    rfl
  · have hnonempty : location.isEmpty = false := by simpa using hroot
    unfold FileSpace.entry?
    simp only [hnonempty, Bool.false_eq_true, if_false]
    unfold setEntry
    split
    · next hknown =>
        rw [lookup_replaced]
        split
        · obtain ⟨old, hold⟩ := Option.isSome_iff_exists.mp hknown
          rw [hold, Option.map_some]
        · rfl
    · next hnew =>
        have hnone : fs.entries.lookup place = none := Option.not_isSome_iff_eq_none.mp hnew
        rw [List.lookup_append, List.lookup_cons]
        by_cases hsame : location = place
        · simp [hsame, hnone]
        · simp [hsame, beq_eq_false_iff_ne.mpr hsame]

/-- Segments lead through directories from a place to another. -/
inductive Way (fs : FileSpace) : Location → List String → Location → Prop where
  | here (place : Location) : Way fs place [] place
  | stay {place goal : Location} {rest : List String} : fs.entry? place = some .directory →
      Way fs place rest goal → Way fs place ("." :: rest) goal
  | up {place goal : Location} {rest : List String} : fs.entry? place = some .directory →
      Way fs place.dropLast rest goal → Way fs place (".." :: rest) goal
  | down {place goal : Location} {segment : String} {rest : List String} :
      fs.entry? place = some .directory → segment ≠ "." → segment ≠ ".." →
      ¬ nameLimit < segment.utf8ByteSize → Way fs (place ++ [segment]) rest goal →
      Way fs place (segment :: rest) goal

/-- What is at a place. -/
def look (fs : FileSpace) (place : Location) : Found :=
  match fs.entry? place with
  | some entry => .present place entry
  | none => .absent place

@[simp] theorem look_location (fs : FileSpace) (place : Location) :
    (fs.look place).location = place := by
  unfold look
  split <;> rfl

theorem look_eq_present {location : Location} {entry : FileEntry}
    (h : fs.look place = .present location entry) :
    place = location ∧ fs.entry? location = some entry := by
  unfold look at h
  split at h
  · next found hfound =>
      obtain ⟨rfl, rfl⟩ := Found.present.inj h
      exact ⟨rfl, hfound⟩
  · cases h

theorem look_eq_absent {location : Location} (h : fs.look place = .absent location) :
    place = location ∧ fs.entry? location = none := by
  unfold look at h
  split at h
  · cases h
  · next hnone =>
      obtain rfl := Found.absent.inj h
      exact ⟨rfl, hnone⟩

theorem Way.follow (h : fs.Way place segments goal) :
    fs.follow place segments = .ok (fs.look goal) := by
  induction h with
  | here place =>
      unfold FileSpace.follow look
      cases fs.entry? place <;> rfl
  | stay hdir _ ih => simp [FileSpace.follow, hdir, ih]
  | up hdir _ ih => simp [FileSpace.follow, hdir, ih]
  | down hdir hstay hup hshort _ ih => simp [FileSpace.follow, hdir, hstay, hup, hshort, ih]

theorem way_of_follow {found : Found} (h : fs.follow place segments = .ok found) :
    fs.Way place segments found.location ∧ found = fs.look found.location := by
  induction segments generalizing place with
  | nil =>
      have hlook : found = fs.look place := by
        unfold follow at h
        unfold look
        split at h <;> simp_all
      rw [hlook, look_location]
      exact ⟨.here place, rfl⟩
  | cons segment rest ih =>
      unfold follow at h
      split at h
      · cases h
      · next hdir =>
          split at h
          · next hstay =>
              subst hstay
              exact ⟨.stay hdir (ih h).1, (ih h).2⟩
          · next hstay =>
              split at h
              · next hup =>
                  subst hup
                  exact ⟨.up hdir (ih h).1, (ih h).2⟩
              · next hup =>
                  split at h
                  · cases h
                  · next hshort => exact ⟨.down hdir hstay hup hshort (ih h).1, (ih h).2⟩
      · cases h

theorem Way.unique {other : Location} (h : fs.Way place segments goal)
    (hother : fs.Way place segments other) : goal = other := by
  have hsame := Except.ok.inj (h.follow.symm.trans hother.follow)
  rw [← fs.look_location goal, hsame, look_location]

/-- The segment `.` leads nowhere else. -/
theorem Way.withoutDots (h : fs.Way place segments goal) :
    fs.Way place (segments.filter (· != ".")) goal := by
  induction h with
  | here place => exact .here place
  | stay _ _ ih => simpa using ih
  | up hdir _ ih => exact .up hdir ih
  | down hdir hstay hup hshort _ ih =>
      rw [List.filter_cons_of_pos (by simpa using hstay)]
      exact .down hdir hstay hup hshort ih

/-- A regular file is at the place or can be made there. -/
def IsFree (fs : FileSpace) (place : Location) : Prop :=
  fs.entry? place = none ∨ ∃ content, fs.entry? place = some (.regular content)

theorem IsFree.ne_root (h : fs.IsFree place) : place ≠ [] := by
  rintro rfl
  rcases h with h | ⟨content, h⟩ <;> cases h

/-- Files have been made or filled, and nothing else has happened to the entries. -/
structure Filled (fs fs' : FileSpace) : Prop where
  workDir : fs'.workDir = fs.workDir
  entries : ∀ location, fs'.entry? location = fs.entry? location ∨
    fs.IsFree location ∧ ∃ content, fs'.entry? location = some (.regular content)

theorem Filled.refl (fs : FileSpace) : Filled fs fs :=
  ⟨rfl, fun _ => .inl rfl⟩

theorem Filled.directory (h : Filled fs fs') (hdir : fs.entry? place = some .directory) :
    fs'.entry? place = some .directory := by
  rcases h.entries place with hsame | ⟨hnone | ⟨content, hregular⟩, -⟩
  · rw [hsame, hdir]
  · rw [hnone] at hdir
    cases hdir
  · rw [hregular] at hdir
    cases hdir

theorem Filled.isFree (h : Filled fs fs') (hfree : fs.IsFree place) : fs'.IsFree place := by
  rcases h.entries place with hsame | ⟨-, hregular⟩
  · unfold IsFree at hfree ⊢
    rwa [hsame]
  · exact .inr hregular

theorem Filled.was_directory (h : Filled fs fs') (hdir : fs'.entry? place = some .directory) :
    fs.entry? place = some .directory := by
  rcases h.entries place with hsame | ⟨-, content, hregular⟩
  · rw [← hsame, hdir]
  · rw [hregular] at hdir
    cases hdir

theorem Filled.was_free (h : Filled fs fs') (hfree : fs'.IsFree place) : fs.IsFree place := by
  rcases h.entries place with hsame | ⟨hold, -⟩
  · unfold IsFree at hfree ⊢
    rwa [← hsame]
  · exact hold

theorem Filled.trans (h : Filled fs fs') (h' : Filled fs' fs'') : Filled fs fs'' where
  workDir := h'.workDir.trans h.workDir
  entries := by
    intro location
    rcases h'.entries location with hsame | ⟨hfree, hregular⟩
    · rw [hsame]
      exact h.entries location
    · exact .inr ⟨h.was_free hfree, hregular⟩

theorem Filled.way (h : Filled fs fs') (hway : fs.Way place segments goal) :
    fs'.Way place segments goal := by
  induction hway with
  | here place => exact .here place
  | stay hdir _ ih => exact .stay (h.directory hdir) ih
  | up hdir _ ih => exact .up (h.directory hdir) ih
  | down hdir hstay hup hshort _ ih => exact .down (h.directory hdir) hstay hup hshort ih

theorem Filled.was_way (h : Filled fs fs') (hway : fs'.Way place segments goal) :
    fs.Way place segments goal := by
  induction hway with
  | here place => exact .here place
  | stay hdir _ ih => exact .stay (h.was_directory hdir) ih
  | up hdir _ ih => exact .up (h.was_directory hdir) ih
  | down hdir hstay hup hshort _ ih => exact .down (h.was_directory hdir) hstay hup hshort ih

/-- The place of the file that a path has made or emptied, if that can be done and the
file takes what is written to it then. -/
def writable? (fs : FileSpace) (path : String) : Option Location :=
  match fs.findForCreation path with
  | .ok (.absent location) => some location
  | .ok (.present location (.regular _)) => some location
  | _ => none

/-- A slash at the end asks for a directory, unless it stands behind dots. -/
def asksForDirectory (path : String) : Bool :=
  let name := (Path.segments path).getLast?.getD "."
  Path.endsWithSlash path && name != "." && name != ".."

theorem findForCreation_eq (hplain : asksForDirectory path = false) :
    fs.findForCreation path = match fs.find path with
      | .ok (.present _ .directory) => .error .isDirectory
      | found => found := by
  have hcondition : ¬ asksForDirectory path = true := by simp [hplain]
  unfold asksForDirectory at hcondition
  unfold findForCreation
  rw [if_neg hcondition]
  cases fs.find path with
  | error e => rfl
  | ok found => rcases found with ⟨place, _ | _ | _⟩ | _ <;> rfl

theorem findForCreation_eq_error (hslash : asksForDirectory path = true) :
    ∃ e, fs.findForCreation path = .error e := by
  unfold asksForDirectory at hslash
  unfold findForCreation
  rw [if_pos hslash]
  cases fs.followFrom path (Path.segments path).dropLast with
  | error e => exact ⟨e, rfl⟩
  | ok found => rcases found with ⟨place, _ | _ | _⟩ | _ <;> exact ⟨_, rfl⟩

theorem find_eq_ok {found : Found} (h : fs.find path = .ok found) :
    refusal? path = none ∧ fs.Way (fs.start path) (Path.segments path) found.location ∧
      found = fs.look found.location := by
  unfold find followFrom at h
  cases hrefusal : refusal? path with
  | some failure =>
      rw [hrefusal] at h
      cases h
  | none =>
      rw [hrefusal] at h
      exact ⟨rfl, way_of_follow h⟩

theorem find_eq_look_iff :
    fs.find path = .ok (fs.look goal) ↔
      refusal? path = none ∧ fs.Way (fs.start path) (Path.segments path) goal := by
  constructor
  · intro h
    obtain ⟨hrefusal, hway, -⟩ := find_eq_ok h
    rw [look_location] at hway
    exact ⟨hrefusal, hway⟩
  · rintro ⟨hrefusal, hway⟩
    unfold find followFrom
    rw [hrefusal]
    exact hway.follow

theorem writable_eq_some_iff :
    fs.writable? path = some goal ↔ asksForDirectory path = false ∧
      fs.find path = .ok (fs.look goal) ∧ fs.IsFree goal := by
  constructor
  · intro h
    cases hslash : asksForDirectory path with
    | true =>
        obtain ⟨e, he⟩ := @findForCreation_eq_error fs path hslash
        rw [writable?, he] at h
        cases h
    | false =>
        rw [writable?, findForCreation_eq hslash] at h
        cases hfind : fs.find path with
        | error e =>
            rw [hfind] at h
            cases h
        | ok found =>
            obtain ⟨-, -, hlook⟩ := find_eq_ok hfind
            rw [hfind] at h
            rcases found with ⟨place, _ | content | _⟩ | place
            · cases h
            · obtain rfl := Option.some.inj h
              exact ⟨rfl, congrArg Except.ok hlook, .inr ⟨content, (look_eq_present hlook.symm).2⟩⟩
            · cases h
            · obtain rfl := Option.some.inj h
              exact ⟨rfl, congrArg Except.ok hlook, .inl (look_eq_absent hlook.symm).2⟩
  · rintro ⟨hslash, hfind, hfree⟩
    rw [writable?, findForCreation_eq hslash, hfind]
    unfold look
    rcases hfree with hnone | ⟨content, hregular⟩
    · rw [hnone]
    · rw [hregular]

theorem Filled.writable (h : Filled fs fs') (hpath : fs.writable? path = some goal) :
    fs'.writable? path = some goal := by
  obtain ⟨hslash, hfind, hfree⟩ := writable_eq_some_iff.mp hpath
  obtain ⟨hrefusal, hway⟩ := find_eq_look_iff.mp hfind
  have hstart : fs'.start path = fs.start path := by simp only [start, h.workDir]
  refine writable_eq_some_iff.mpr ⟨hslash, find_eq_look_iff.mpr ⟨hrefusal, ?_⟩, h.isFree hfree⟩
  rw [hstart]
  exact h.way hway

theorem Filled.was_writable (h : Filled fs fs') (hpath : fs'.writable? path = some goal) :
    fs.writable? path = some goal := by
  obtain ⟨hslash, hfind, hfree⟩ := writable_eq_some_iff.mp hpath
  obtain ⟨hrefusal, hway⟩ := find_eq_look_iff.mp hfind
  have hstart : fs'.start path = fs.start path := by simp only [start, h.workDir]
  rw [hstart] at hway
  exact writable_eq_some_iff.mpr
    ⟨hslash, find_eq_look_iff.mpr ⟨hrefusal, h.was_way hway⟩, h.was_free hfree⟩

/-- Paths that differ in doubled slashes, in `.` segments or in a slash at the end
name one file. -/
theorem writable_unique {other : String} {place : Location} (hpath : fs.writable? path = some goal)
    (hother : fs.writable? other = some place) (hkey : Path.key path = Path.key other) :
    goal = place := by
  obtain ⟨hrooted, hparts⟩ := Path.Key.mk.inj hkey
  have hstart : fs.start path = fs.start other := by simp only [start, hrooted]
  have hway := (find_eq_look_iff.mp (writable_eq_some_iff.mp hpath).2.1).2.withoutDots
  have hwayOther := (find_eq_look_iff.mp (writable_eq_some_iff.mp hother).2.1).2.withoutDots
  have hsegments : (Path.segments other).filter (· != ".") =
      (Path.segments path).filter (· != ".") := hparts.symm
  rw [← hstart, hsegments] at hwayOther
  exact hway.unique hwayOther

theorem openFile_create (h : fs.writable? path = some goal) :
    fs.openFile path .create =
      .ok ((fs.setEntry goal (.regular [])).register { location := goal }) := by
  obtain ⟨hslash, hfind, hfree⟩ := writable_eq_some_iff.mp h
  unfold openFile
  simp only [findForCreation_eq hslash, hfind]
  unfold look
  rcases hfree with hnone | ⟨content, hregular⟩
  · rw [hnone]
    rfl
  · rw [hregular]
    rfl

theorem openFile_append (h : fs.writable? path = some goal)
    (hplain : Path.endsWithSlash path = false) {content : Bytes}
    (hentry : fs.entry? goal = some (.regular content)) :
    fs.openFile path .append = .ok (fs.register { location := goal, appending := true }) := by
  have hfind := (writable_eq_some_iff.mp h).2.1
  have hexisting : fs.findExisting path = .ok (goal, .regular content) := by
    unfold findExisting
    rw [hfind, look, hentry]
    simp [bind, Except.bind, hplain]
  unfold openFile
  rw [hexisting]
  rfl

theorem openFile_read {entry : FileEntry} (h : fs.findExisting path = .ok (goal, entry)) :
    fs.openFile path .read = .ok (fs.register { location := goal }) := by
  unfold openFile
  rw [h]
  rfl

theorem findExisting_eq_ok {entry : FileEntry} (h : fs.findExisting path = .ok (goal, entry)) :
    fs.entry? goal = some entry := by
  unfold findExisting at h
  cases hfind : fs.find path with
  | error e =>
      rw [hfind] at h
      cases h
  | ok found =>
      obtain ⟨-, -, hlook⟩ := find_eq_ok hfind
      rw [hfind] at h
      rcases found with ⟨place, old⟩ | place
      · have hentry := (look_eq_present hlook.symm).2
        cases old with
        | directory =>
            obtain ⟨rfl, rfl⟩ := Prod.mk.inj (Except.ok.inj h)
            exact hentry
        | regular | fullDevice =>
            simp only [bind, Except.bind] at h
            split at h
            · cases h
            · obtain ⟨rfl, rfl⟩ := Prod.mk.inj (Except.ok.inj h)
              exact hentry
      · cases h

end FileSpace
end RuleDesk
