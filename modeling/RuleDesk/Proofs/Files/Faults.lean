import RuleDesk.Proofs.Files.OpenFiles

/-!
# Files that fail

Runs of tasks in which a request may fail at any time unless it is about the file at
one place. Whatever the other files do, that file stays as it is until it is written
itself, and a task that writes to nothing else runs as if no file could fail.
-/
namespace RuleDesk
namespace FileSpace

/-- An open file is one of the file at the place. -/
def IsAt (fs : FileSpace) (file : FileId) (place : Location) : Prop :=
  ∃ f, fs.opened[file]? = some f ∧ f.location = place

/-- An open file is one of the file at another place. -/
def IsAway (fs : FileSpace) (file : FileId) (place : Location) : Prop :=
  ∃ f, fs.opened[file]? = some f ∧ f.location ≠ place

/-- What a request can be answered if every file may fail but the one at a place. A
piece that could not be written may have been taken in part. -/
inductive Replies (place : Location) (fs : FileSpace) :
    (request : FileRequest) → request.Answer → FileSpace → Prop where
  | answered (request : FileRequest) :
      Replies place fs request (fs.answer request).1 (fs.answer request).2
  | notOpened {path : String} {mode : OpenMode} (cause : IoFailure) :
      fs.writable? path ≠ some place → Replies place fs (.openFile path mode) (.error cause) fs
  | notWritten {file : FileId} {bytes : Bytes} (cause : IoFailure) (taken : Nat) :
      ¬ fs.IsAt file place →
        Replies place fs (.write file bytes) (.error cause) (fs.write file (bytes.take taken)).2

variable {fs fs' fs'' : FileSpace} {file : FileId} {place : Location} {path : String}

theorem IsAway.not_isAt (h : fs.IsAway file place) : ¬ fs.IsAt file place := by
  rintro ⟨g, hg, hplace⟩
  obtain ⟨f, hf, hother⟩ := h
  obtain rfl : f = g := Option.some.inj (hf.symm.trans hg)
  exact hother hplace

theorem AtEnd.isAt {content : Bytes} (h : fs.AtEnd file place content) : fs.IsAt file place := by
  obtain ⟨position, appending, hfile, -⟩ := h.opened
  exact ⟨_, hfile, rfl⟩

/-- Files have been made or filled, and open files are still those of their places. -/
structure Onward (fs fs' : FileSpace) : Prop where
  filled : Filled fs fs'
  located : ∀ (file : FileId) (f : OpenedFile), fs.opened[file]? = some f →
    ∃ f' : OpenedFile, fs'.opened[file]? = some f' ∧ f'.location = f.location

theorem Onward.refl (fs : FileSpace) : Onward fs fs :=
  ⟨.refl fs, fun _ f hf => ⟨f, hf, rfl⟩⟩

theorem Onward.trans (h : Onward fs fs') (h' : Onward fs' fs'') : Onward fs fs'' where
  filled := h.filled.trans h'.filled
  located := by
    intro file f hf
    obtain ⟨f₁, hf₁, hplace₁⟩ := h.located file f hf
    obtain ⟨f₂, hf₂, hplace₂⟩ := h'.located file f₁ hf₁
    exact ⟨f₂, hf₂, hplace₂.trans hplace₁⟩

theorem IsAt.onward (h : fs.IsAt file place) (honward : Onward fs fs') : fs'.IsAt file place := by
  obtain ⟨f, hf, hplace⟩ := h
  obtain ⟨f', hf', hsame⟩ := honward.located file f hf
  exact ⟨f', hf', hsame.trans hplace⟩

theorem IsAway.onward (h : fs.IsAway file place) (honward : Onward fs fs') :
    fs'.IsAway file place := by
  obtain ⟨f, hf, hother⟩ := h
  obtain ⟨f', hf', hsame⟩ := honward.located file f hf
  exact ⟨f', hf', hsame ▸ hother⟩

/-- Besides, the file at a place and the open files there are as they were. -/
structure Spares (place : Location) (fs fs' : FileSpace) : Prop extends Onward fs fs' where
  entry : fs'.entry? place = fs.entry? place
  opened : ∀ file : FileId, fs.IsAt file place → fs'.opened[file]? = fs.opened[file]?

theorem Spares.refl (place : Location) (fs : FileSpace) : Spares place fs fs :=
  ⟨.refl fs, rfl, fun _ _ => rfl⟩

theorem Spares.trans (h : Spares place fs fs') (h' : Spares place fs' fs'') :
    Spares place fs fs'' :=
  ⟨h.toOnward.trans h'.toOnward, h'.entry.trans h.entry, fun file hfile =>
    (h'.opened file (hfile.onward h.toOnward)).trans (h.opened file hfile)⟩

theorem onward_setPosition (fs : FileSpace) (file : FileId) (position : Nat) :
    Onward fs (fs.setPosition file position) where
  filled := ⟨rfl, fun _ => .inl rfl⟩
  located := by
    intro other f hf
    rw [opened_setPosition]
    by_cases hsame : other = file
    · rw [if_pos hsame, hf]
      exact ⟨{ f with position }, rfl, rfl⟩
    · rw [if_neg hsame, hf]
      exact ⟨f, rfl, rfl⟩

theorem filled_setEntry (hfree : fs.IsFree place) (content : Bytes) :
    Filled fs (fs.setEntry place (.regular content)) where
  workDir := rfl
  entries := by
    intro location
    have hentry := @entry_setEntry fs place hfree.ne_root (.regular content) location
    by_cases hsame : location = place
    · rw [if_pos hsame] at hentry
      exact .inr ⟨hsame ▸ hfree, content, hentry⟩
    · rw [if_neg hsame] at hentry
      exact .inl hentry

theorem onward_setEntry (hfree : fs.IsFree place) (content : Bytes) :
    Onward fs (fs.setEntry place (.regular content)) :=
  ⟨filled_setEntry hfree content, fun _ f hf => ⟨f, hf, rfl⟩⟩

theorem onward_register (fs : FileSpace) (f : OpenedFile) : Onward fs (fs.register f).2 where
  filled := ⟨rfl, fun _ => .inl rfl⟩
  located := by
    intro file g hg
    have hlt := (List.getElem?_eq_some_iff.mp hg).1
    rw [opened_register, if_neg (Nat.ne_of_lt hlt), hg]
    exact ⟨g, rfl, rfl⟩

theorem spares_register (fs : FileSpace) (f : OpenedFile) (place : Location) :
    Spares place fs (fs.register f).2 where
  toOnward := onward_register fs f
  entry := rfl
  opened := by
    rintro file ⟨g, hg, -⟩
    have hlt := (List.getElem?_eq_some_iff.mp hg).1
    rw [opened_register, if_neg (Nat.ne_of_lt hlt)]

/-- A write changes nothing, or the content of one regular file and the position in it. -/
theorem write_snd (fs : FileSpace) (file : FileId) (bytes : Bytes) :
    (fs.write file bytes).2 = fs ∨
      ∃ f old new position, fs.opened[file]? = some f ∧
        fs.entry? f.location = some (.regular old) ∧
        (fs.write file bytes).2 =
          (fs.setEntry f.location (.regular new)).setPosition file position := by
  unfold FileSpace.write
  cases hfile : fs.opened[file]? with
  | none => exact .inl rfl
  | some f =>
      cases hentry : fs.entry? f.location with
      | none => exact .inl (by simp only [hentry])
      | some entry =>
          cases entry with
          | directory | fullDevice => exact .inl (by simp only [hentry])
          | regular old =>
              simp only [hentry]
              exact .inr ⟨f, old, _, _, rfl, hentry, rfl⟩

theorem write_onward (fs : FileSpace) (file : FileId) (bytes : Bytes) :
    Onward fs (fs.write file bytes).2 := by
  rcases write_snd fs file bytes with hsame | ⟨f, old, new, position, -, hentry, hwritten⟩
  · rw [hsame]
    exact .refl fs
  · rw [hwritten]
    have hfree : fs.IsFree f.location := .inr ⟨old, hentry⟩
    exact (onward_setEntry hfree new).trans (onward_setPosition _ file position)

theorem write_spares (haway : fs.IsAway file place) (bytes : Bytes) :
    Spares place fs (fs.write file bytes).2 := by
  refine ⟨write_onward fs file bytes, ?_, ?_⟩
  all_goals
    rcases write_snd fs file bytes with hsame | ⟨f, old, new, position, hfile, hentry, hwritten⟩
  · rw [hsame]
  · obtain ⟨g, hg, hother⟩ := haway
    obtain rfl : f = g := Option.some.inj (hfile.symm.trans hg)
    have hfree : fs.IsFree f.location := .inr ⟨old, hentry⟩
    rw [hwritten, entry_setPosition, entry_setEntry hfree.ne_root, if_neg (Ne.symm hother)]
  · intro other _
    rw [hsame]
  · intro other hother
    have hne : other ≠ file := by
      rintro rfl
      exact haway.not_isAt hother
    rw [hwritten, opened_setPosition, if_neg hne, opened_setEntry]

theorem IsFree.regular_of_entry {entry : FileEntry} (hfree : fs.IsFree place)
    (hentry : fs.entry? place = some entry) : ∃ content, entry = .regular content := by
  rcases hfree with hnone | ⟨content, hregular⟩
  · rw [hnone] at hentry
    cases hentry
  · exact ⟨content, Option.some.inj (hentry.symm.trans hregular)⟩

theorem writable_of_findExisting {entry : FileEntry} (hfree : fs.IsFree place)
    (h : fs.findExisting path = .ok (place, entry)) : fs.writable? path = some place := by
  obtain ⟨content, rfl⟩ := hfree.regular_of_entry (findExisting_eq_ok h)
  unfold findExisting at h
  cases hfind : fs.find path with
  | error e =>
      rw [hfind] at h
      cases h
  | ok found =>
      obtain ⟨-, -, hlook⟩ := find_eq_ok hfind
      rw [hfind] at h
      rcases found with ⟨location, _ | _ | _⟩ | location
      · cases h
      · simp only [bind, Except.bind] at h
        split at h
        · cases h
        · next hplain =>
            obtain ⟨rfl, -⟩ := Prod.mk.inj (Except.ok.inj h)
            have hasks : asksForDirectory path = false := by simp [asksForDirectory, hplain]
            exact writable_eq_some_iff.mpr ⟨hasks, hfind.trans (congrArg Except.ok hlook), hfree⟩
      · simp only [bind, Except.bind] at h
        split at h <;> cases h
      · cases h

theorem findForCreation_eq_ok {found : Found} (h : fs.findForCreation path = .ok found) :
    found = .present found.location .fullDevice ∧
        fs.entry? found.location = some .fullDevice ∨
      fs.writable? path = some found.location ∧
        found ≠ .present found.location .fullDevice := by
  cases hslash : asksForDirectory path with
  | true =>
      obtain ⟨e, he⟩ := @findForCreation_eq_error fs path hslash
      rw [he] at h
      cases h
  | false =>
      have hfound := h
      rw [findForCreation_eq hslash] at h
      cases hfind : fs.find path with
      | error e =>
          rw [hfind] at h
          cases h
      | ok place =>
          obtain ⟨-, -, hlook⟩ := find_eq_ok hfind
          rw [hfind] at h
          rcases place with ⟨location, _ | content | _⟩ | location
          · cases h
          · obtain rfl := Except.ok.inj h
            exact .inr ⟨by simp only [writable?, hfound, Found.location], by simp⟩
          · obtain rfl := Except.ok.inj h
            exact .inl ⟨rfl, (look_eq_present hlook.symm).2⟩
          · obtain rfl := Except.ok.inj h
            exact .inr ⟨by simp only [writable?, hfound, Found.location], by simp⟩

/-- What is opened is a new open file. It is one of a file that the path could make, of
one that it has just made, or of none that can be made. -/
theorem openFile_eq_ok {mode : OpenMode} (h : fs.openFile path mode = .ok (file, fs')) :
    (∃ f : OpenedFile, fs.register f = (file, fs') ∧
        (fs.IsFree f.location → fs.writable? path = some f.location)) ∨
      ∃ f : OpenedFile, fs.writable? path = some f.location ∧
        (fs.setEntry f.location (.regular [])).register f = (file, fs') := by
  cases mode with
  | read =>
      cases hfind : fs.findExisting path with
      | error e =>
          simp only [openFile, hfind] at h
          cases h
      | ok found =>
          simp only [openFile, hfind] at h
          exact .inl ⟨{ location := found.1 }, Except.ok.inj h,
            fun hfree => writable_of_findExisting hfree hfind⟩
  | append =>
      cases hfind : fs.findExisting path with
      | error e =>
          simp only [openFile, hfind] at h
          cases h
      | ok found =>
          obtain ⟨location, _ | _ | _⟩ := found
          · simp only [openFile, hfind] at h
            cases h
          all_goals
            simp only [openFile, hfind] at h
            exact .inl ⟨{ location, appending := true }, Except.ok.inj h,
              fun hfree => writable_of_findExisting hfree hfind⟩
  | create =>
      cases hfind : fs.findForCreation path with
      | error e =>
          simp only [openFile, hfind] at h
          cases h
      | ok found =>
          simp only [openFile, hfind] at h
          rcases findForCreation_eq_ok hfind with ⟨hdevice, hentry⟩ | ⟨hwritable, hregular⟩
          · rw [hdevice] at h
            refine .inl ⟨{ location := found.location }, Except.ok.inj h, fun hfree => ?_⟩
            obtain ⟨content, hcontent⟩ := hfree.regular_of_entry hentry
            cases hcontent
          · refine .inr ⟨{ location := found.location }, hwritable, ?_⟩
            rcases found with ⟨location, _ | _ | _⟩ | location
            · exact Except.ok.inj h
            · exact Except.ok.inj h
            · exact absurd rfl hregular
            · exact Except.ok.inj h

theorem openFile_onward {mode : OpenMode} (h : fs.openFile path mode = .ok (file, fs')) :
    Onward fs fs' := by
  rcases openFile_eq_ok h with ⟨f, hregister, -⟩ | ⟨f, hwritable, hregister⟩
  · have honward := onward_register fs f
    rwa [hregister] at honward
  · have hfree := (writable_eq_some_iff.mp hwritable).2.2
    have honward := onward_register (fs.setEntry f.location (.regular [])) f
    rw [hregister] at honward
    exact (onward_setEntry hfree []).trans honward

theorem isAway_register (fs : FileSpace) {f : OpenedFile} (hother : f.location ≠ place) :
    (fs.register f).2.IsAway (fs.register f).1 place :=
  ⟨f, by rw [opened_register]; exact if_pos rfl, hother⟩

/-- A path that does not lead to the file opens another one. -/
theorem openFile_spares {mode : OpenMode} (hfree : fs.IsFree place)
    (hother : fs.writable? path ≠ some place) (h : fs.openFile path mode = .ok (file, fs')) :
    Spares place fs fs' ∧ fs'.IsAway file place := by
  rcases openFile_eq_ok h with ⟨f, hregister, hleads⟩ | ⟨f, hwritable, hregister⟩
  · have hne : f.location ≠ place := by
      rintro rfl
      exact hother (hleads hfree)
    have hspares := spares_register fs f place
    have haway := isAway_register fs hne
    rw [hregister] at hspares haway
    exact ⟨hspares, haway⟩
  · have hne : f.location ≠ place := by
      rintro rfl
      exact hother hwritable
    have hmade := (writable_eq_some_iff.mp hwritable).2.2
    have hemptied : Spares place fs (fs.setEntry f.location (.regular [])) :=
      ⟨onward_setEntry hmade [], by rw [entry_setEntry hmade.ne_root, if_neg (Ne.symm hne)],
        fun _ _ => rfl⟩
    have hspares := spares_register (fs.setEntry f.location (.regular [])) f place
    have haway := isAway_register (fs.setEntry f.location (.regular [])) hne
    rw [hregister] at hspares haway
    exact ⟨hemptied.trans hspares, haway⟩

theorem read_onward (fs : FileSpace) (file : FileId) (count? : Option Nat) :
    Onward fs (fs.read file count?).2 := by
  unfold FileSpace.read
  split
  · exact .refl fs
  · split
    · exact .refl fs
    · exact .refl fs
    · exact .refl fs
    · exact onward_setPosition fs file _

theorem answer_openFile_ok {mode : OpenMode} (h : fs.openFile path mode = .ok (file, fs')) :
    fs.answer (.openFile path mode) = (.ok file, fs') := by
  simp only [answer, h]

theorem answer_openFile_error {mode : OpenMode} {cause : IoFailure}
    (h : fs.openFile path mode = .error cause) :
    fs.answer (.openFile path mode) = (.error cause, fs) := by
  simp only [answer, h]

theorem answer_onward (fs : FileSpace) (request : FileRequest) :
    Onward fs (fs.answer request).2 := by
  cases request with
  | openFile path mode =>
      cases hopen : fs.openFile path mode with
      | error e =>
          rw [answer_openFile_error hopen]
          exact .refl fs
      | ok opened =>
          rw [answer_openFile_ok hopen]
          exact openFile_onward hopen
  | read file count => exact read_onward fs file (some count)
  | readToEnd file => exact read_onward fs file none
  | write file bytes => exact write_onward fs file bytes
  | sizeBound file => exact .refl fs

theorem Replies.onward {request : FileRequest} {answer : request.Answer}
    (h : Replies place fs request answer fs') : Onward fs fs' := by
  cases h with
  | answered => exact answer_onward fs request
  | notOpened => exact .refl fs
  | notWritten => exact write_onward fs _ _

theorem Replies.write_spares {bytes : Bytes} {answer : Except IoFailure Unit}
    (h : Replies place fs (.write file bytes) answer fs') (haway : fs.IsAway file place) :
    Spares place fs fs' := by
  cases h with
  | answered => exact FileSpace.write_spares haway bytes
  | notWritten _ taken => exact FileSpace.write_spares haway (bytes.take taken)

theorem Replies.write_eq {bytes : Bytes} {answer : Except IoFailure Unit}
    (h : Replies place fs (.write file bytes) answer fs') (hat : fs.IsAt file place) :
    fs.write file bytes = (answer, fs') := by
  cases h with
  | answered => rfl
  | notWritten _ _ hother => exact absurd hat hother

theorem Replies.openFile_eq {mode : OpenMode} {answer : Except IoFailure FileId}
    (h : Replies place fs (.openFile path mode) answer fs') (hpath : fs.writable? path = some place) :
    fs.answer (.openFile path mode) = (answer, fs') := by
  cases h with
  | answered => rfl
  | notOpened _ hother => exact absurd hpath hother

/-- Opening another file fails, and then nothing has happened, or gives an open file that
is not one of the file at the place. -/
theorem Replies.openFile_spares {mode : OpenMode} {answer : Except IoFailure FileId}
    (h : Replies place fs (.openFile path mode) answer fs') (hfree : fs.IsFree place)
    (hother : fs.writable? path ≠ some place) :
    Spares place fs fs' ∧ ∀ file, answer = .ok file → fs'.IsAway file place := by
  cases h with
  | answered =>
      cases hopen : fs.openFile path mode with
      | error e =>
          rw [answer_openFile_error hopen]
          exact ⟨.refl place fs, nofun⟩
      | ok opened =>
          rw [answer_openFile_ok hopen]
          have hspares := FileSpace.openFile_spares hfree hother hopen
          refine ⟨hspares.1, fun file hfile => ?_⟩
          obtain rfl := Except.ok.inj hfile
          exact hspares.2
  | notOpened => exact ⟨.refl place fs, nofun⟩

end FileSpace

namespace FileTask

open FileSpace

variable {α β : Type} {place : Location} {fs fs' : FileSpace} {file : FileId}

/-- The task may run so if every file may fail but the one at the place. -/
inductive MayRun (place : Location) : FileTask α → FileSpace → α → FileSpace → Prop where
  | done (a : α) (fs : FileSpace) : MayRun place (done a) fs a fs
  | ask {request : FileRequest} {next : request.Answer → FileTask α} {answer : request.Answer}
      {a : α} {fs fs₁ fs' : FileSpace} :
      Replies place fs request answer fs₁ → MayRun place (next answer) fs₁ a fs' →
        MayRun place (ask request next) fs a fs'

theorem mayRun_done_iff {a b : α} : (done a).MayRun place fs b fs' ↔ b = a ∧ fs' = fs := by
  constructor
  · intro h
    cases h
    exact ⟨rfl, rfl⟩
  · rintro ⟨rfl, rfl⟩
    exact .done b fs'

theorem mayRun_ask_iff {request : FileRequest} {next : request.Answer → FileTask α} {a : α} :
    (ask request next).MayRun place fs a fs' ↔
      ∃ answer fs₁, Replies place fs request answer fs₁ ∧ (next answer).MayRun place fs₁ a fs' := by
  constructor
  · intro h
    cases h with
    | ask hreply hnext => exact ⟨_, _, hreply, hnext⟩
  · rintro ⟨answer, fs₁, hreply, hnext⟩
    exact .ask hreply hnext

theorem mayRun_bind_iff {t : FileTask α} {f : α → FileTask β} {b : β} :
    (t.bind f).MayRun place fs b fs' ↔
      ∃ a fs₁, t.MayRun place fs a fs₁ ∧ (f a).MayRun place fs₁ b fs' := by
  induction t generalizing fs with
  | done a =>
      constructor
      · intro h
        exact ⟨a, fs, .done a fs, h⟩
      · rintro ⟨a, fs₁, hdone, h⟩
        obtain ⟨rfl, rfl⟩ := mayRun_done_iff.mp hdone
        exact h
  | ask request next ih =>
      constructor
      · intro h
        obtain ⟨answer, fs₁, hreply, hnext⟩ := mayRun_ask_iff.mp h
        obtain ⟨a, fs₂, ha, hb⟩ := (ih answer).mp hnext
        exact ⟨a, fs₂, .ask hreply ha, hb⟩
      · rintro ⟨a, fs₂, ha, hb⟩
        obtain ⟨answer, fs₁, hreply, hnext⟩ := mayRun_ask_iff.mp ha
        exact .ask hreply ((ih answer).mpr ⟨a, fs₂, hnext, hb⟩)

/-- The task may run without a failure of the files. -/
theorem mayRun_run (t : FileTask α) (place : Location) (fs : FileSpace) :
    t.MayRun place fs (t.run fs).1 (t.run fs).2 := by
  induction t generalizing fs with
  | done a => exact .done a fs
  | ask request next ih => exact .ask (.answered request) (ih _ _)

theorem MayRun.onward {t : FileTask α} {a : α} (h : t.MayRun place fs a fs') : Onward fs fs' := by
  induction h with
  | done a fs => exact .refl fs
  | ask hreply _ ih => exact hreply.onward.trans ih

theorem MayRun.endsIn {t : FileTask α} {a : α} (h : t.MayRun place fs a fs') : t.EndsIn a := by
  induction h with
  | done a fs => exact .done a
  | ask _ _ ih => exact .ask _ ih

/-- Every request of the task is to write to one open file. -/
inductive WritesTo (file : FileId) : FileTask α → Prop where
  | done (a : α) : WritesTo file (done a)
  | ask {bytes : Bytes} {next : Except IoFailure Unit → FileTask α} :
      (∀ answer, (next answer).WritesTo file) → WritesTo file (ask (.write file bytes) next)

theorem writesTo_write (file : FileId) (bytes : Bytes) : (write file bytes).WritesTo file :=
  .ask fun answer => .done answer

theorem WritesTo.bind {t : FileTask α} {f : α → FileTask β} (h : t.WritesTo file)
    (hnext : ∀ a, t.EndsIn a → (f a).WritesTo file) : (t.bind f).WritesTo file := by
  induction h with
  | done a => exact hnext a (.done a)
  | ask _ ih => exact .ask fun answer => ih answer fun a ha => hnext a (.ask answer ha)

/-- What is written to another file does not matter to the file at the place. -/
theorem WritesTo.spares {t : FileTask α} {a : α} (h : t.WritesTo file)
    (haway : fs.IsAway file place) (hrun : t.MayRun place fs a fs') : Spares place fs fs' := by
  induction hrun with
  | done a fs => exact .refl place fs
  | ask hreply _ ih =>
      cases h with
      | ask hnext =>
          have hspares := hreply.write_spares haway
          exact hspares.trans (ih (hnext _) (haway.onward hspares.toOnward))

/-- A task that writes to the file at the place runs in one way. -/
theorem WritesTo.run_eq {t : FileTask α} {a : α} (h : t.WritesTo file) (hat : fs.IsAt file place)
    (hrun : t.MayRun place fs a fs') : t.run fs = (a, fs') := by
  induction hrun with
  | done a fs => rfl
  | ask hreply _ ih =>
      cases h with
      | @ask bytes next hnext =>
          have hrest := ih (hnext _) (hat.onward hreply.onward)
          show (next (FileSpace.write _ file bytes).1).run (FileSpace.write _ file bytes).2 = _
          rw [hreply.write_eq hat]
          exact hrest

end FileTask
end RuleDesk
