import RuleDesk.Proofs.Capture.Keys
import RuleDesk.Proofs.Files.Spellings

/-!
# A file sink step by step

Whatever a file sink is put through, and whatever becomes of the other files, a file
that can be written holds in the end the records that were directed to it, one on a
line. Closing in between makes no difference.
-/
namespace RuleDesk

open FileTask FileSpace

/-- What a file sink is put through. -/
inductive SinkStep where
  | register (handle : HandleId) (path : String)
  | write (handle : HandleId) (record : String)
  | close (handle : HandleId)
  | closeAll
deriving Repr, DecidableEq

/-- Whether a step only closes. -/
def SinkStep.closes : SinkStep → Bool
  | register .. | write .. => false
  | close _ | closeAll => true

/-- Whether a path leads to the file at a place is told by its key. -/
structure FileSpace.Keyed (fs : FileSpace) (key : Path.Key) (place : Location) (path : String) :
    Prop where
  own : Path.key path = key → fs.writable? path = some place ∧ Path.endsWithSlash path = false
  other : Path.key path ≠ key → fs.writable? path ≠ some place

theorem FileSpace.Keyed.filled {fs fs' : FileSpace} {key : Path.Key} {place : Location}
    {path : String} (h : fs.Keyed key place path) (hfilled : Filled fs fs') :
    fs'.Keyed key place path where
  own := fun hkey => ⟨hfilled.writable (h.own hkey).1, (h.own hkey).2⟩
  other := fun hkey hpath => h.other hkey (hfilled.was_writable hpath)

namespace FileSink

/-- Takes a step. A failure is left to the steps behind it. -/
def take (s : FileSink) : SinkStep → FileTask FileSink
  | .register handle path => .done (s.register handle path)
  | .write handle record => do return (← s.write handle record).1
  | .close handle => do return (← s.close handle).1
  | .closeAll => do return (← s.closeAll).1

/-- Takes steps in turn and gives the sink up. -/
def takeAll (s : FileSink) : List SinkStep → FileTask Unit
  | [] => s.drop
  | step :: steps => do (← s.take step).takeAll steps

/-- The path under which the records for a file are written. -/
def outputPath (workDir path : String) : String :=
  (Path.absolute? workDir path).getD path

/-- It is the absolute form unless there is none, which only the empty text lacks. -/
theorem outputPath_spec (workDir path : String) :
    Path.absolute? workDir path = some (outputPath workDir path) ∨
      path = "" ∧ outputPath workDir path = path := by
  unfold outputPath
  cases htarget : Path.absolute? workDir path with
  | some target => exact .inl rfl
  | none =>
      have hempty : path = "" := by
        by_contra hne
        simp [Path.absolute?, hne] at htarget
      exact .inr ⟨hempty, rfl⟩

/-- Where the handles lead behind a step. -/
def pathsAfter (workDir : String) (paths : HandleId → Option String) :
    SinkStep → HandleId → Option String
  | .register handle path => fun other =>
    if other = handle then some (outputPath workDir path) else paths other
  | .write .. | .close _ | .closeAll => paths

/-- The record that a step directs to the paths of a key, if any. -/
def recordUnder (key : Path.Key) (paths : HandleId → Option String) : SinkStep → List String
  | .write handle record => if (paths handle).map Path.key = some key then [record] else []
  | .register .. | .close _ | .closeAll => []

/-- The records that steps direct to the paths of a key. A handle writes under the path
that it was last registered with. -/
def directed (workDir : String) (key : Path.Key) (paths : HandleId → Option String) :
    List SinkStep → List String
  | [] => []
  | step :: steps =>
    recordUnder key paths step ++ directed workDir key (pathsAfter workDir paths step) steps

theorem recordUnder_own {key : Path.Key} {paths : HandleId → Option String} {handle : HandleId}
    (h : (paths handle).map Path.key = some key) (record : String) :
    recordUnder key paths (.write handle record) = [record] :=
  if_pos h

theorem recordUnder_other {key : Path.Key} {paths : HandleId → Option String} {handle : HandleId}
    (h : (paths handle).map Path.key ≠ some key) (record : String) :
    recordUnder key paths (.write handle record) = [] :=
  if_neg h

/-- Closing directs no record anywhere. -/
theorem directed_filter (workDir : String) (key : Path.Key) (steps : List SinkStep)
    (paths : HandleId → Option String) :
    directed workDir key paths (steps.filter (!·.closes)) = directed workDir key paths steps := by
  induction steps generalizing paths with
  | nil => rfl
  | cons step steps ih =>
      cases step with
      | register handle path => exact ih _
      | write handle record =>
          rw [List.filter_cons_of_pos (by rfl), directed, directed, ih]
      | close handle => exact ih paths
      | closeAll => exact ih paths

variable {key : Path.Key} {place : Location} {before fs fs' : FileSpace}
  {s s' : FileSink} {path : String} {w : BufferedWriter} {records : List String}

/-- What has become of the file of a key, to which these records went. -/
inductive Delivered (before : FileSpace) (key : Path.Key) (place : Location)
    (records : List String) (s : FileSink) (fs : FileSpace) : Prop where
  | untouched : s.under key = [] → s.madeUnder key = false → records = [] →
      fs.entry? place = before.entry? place → Delivered before key place records s fs
  | closed : s.under key = [] → s.madeUnder key = true → records ≠ [] →
      fs.entry? place = some (.regular (records.flatMap lineOf)) →
      Delivered before key place records s fs
  | writing {path : String} {w : BufferedWriter} : s.under key = [(path, w)] →
      s.madeUnder key = true → records ≠ [] → w.Holds fs place (records.flatMap lineOf) →
      Delivered before key place records s fs

theorem Delivered.elsewhere (h : Delivered before key place records s fs)
    (helse : Elsewhere key place s s' fs fs') : Delivered before key place records s' fs' := by
  cases h with
  | untouched hunder hmade hrecords hentry =>
      exact .untouched (helse.under.trans hunder) (helse.made.trans hmade) hrecords
        (helse.spares.entry.trans hentry)
  | closed hunder hmade hrecords hentry =>
      exact .closed (helse.under.trans hunder) (helse.made.trans hmade) hrecords
        (helse.spares.entry.trans hentry)
  | writing hunder hmade hrecords hholds =>
      exact .writing (helse.under.trans hunder) (helse.made.trans hmade) hrecords
        (hholds.of_same (helse.spares.opened _ hholds.isAt) helse.spares.entry)

/-- The file as it is once its writer is closed. -/
theorem Delivered.entry (h : Delivered before key place records s fs)
    (hclosed : s.under key = []) : fs.entry? place =
      if records = [] then before.entry? place else some (.regular (records.flatMap lineOf)) := by
  cases h with
  | untouched _ _ hrecords hentry => rw [if_pos hrecords, hentry]
  | closed _ _ hrecords hentry => rw [if_neg hrecords, hentry]
  | writing hunder =>
      rw [hclosed] at hunder
      cases hunder

/-- An opened writer of the key goes on behind the records. -/
structure Open (key : Path.Key) (place : Location) (records : List String) (s s' : FileSink)
    (w : BufferedWriter) (fs' : FileSpace) : Prop where
  under : ∃ path, s'.under key = [(path, w)]
  made : s'.madeUnder key = true
  workDir : s'.workDir = s.workDir
  targets : s'.targets = s.targets
  away : s'.Away key place fs'
  holds : w.Holds fs' place (records.flatMap lineOf)

/-- A file that is made now holds nothing yet, and one that was made before goes on at
its end. -/
theorem Delivered.atEnd (h : Delivered before key place records s fs) (hclosed : s.under key = [])
    (hpath : fs.writable? path = some place) (hplain : Path.endsWithSlash path = false)
    {mode : OpenMode} (hmode : mode = if s.madeUnder key then .append else .create) :
    ∃ fs', (FileTask.openFile path mode).run fs = (.ok fs.opened.length, fs') ∧
      fs'.AtEnd fs.opened.length place (records.flatMap lineOf) := by
  cases h with
  | untouched _ hmade hrecords _ =>
      rw [hmade] at hmode
      obtain ⟨fs', hrun, hend, -⟩ := create_run hpath
      subst hmode hrecords
      exact ⟨fs', hrun, hend⟩
  | closed _ hmade _ hentry =>
      rw [hmade] at hmode
      obtain ⟨fs', hrun, hend, -⟩ := append_run hpath hplain hentry
      subst hmode
      exact ⟨fs', hrun, hend⟩
  | writing hunder =>
      rw [hclosed] at hunder
      cases hunder

theorem Delivered.openWriter (h : Delivered before key place records s fs)
    (haway : s.Away key place fs) (hkey : Path.key path = key)
    (hpath : fs.writable? path = some place) (hplain : Path.endsWithSlash path = false)
    {r : FileSink × Except SinkError BufferedWriter}
    (hrun : (s.openWriter path).MayRun place fs r fs') :
    ∃ w, r.2 = .ok w ∧ Open key place records s r.1 w fs' := by
  have hwriter := writer?_eq_head? s path
  rw [hkey] at hwriter
  unfold FileSink.openWriter at hrun
  cases hunder : s.under key with
  | cons first rest =>
      rw [hwriter, hunder] at hrun
      obtain ⟨rfl, rfl⟩ := mayRun_done_iff.mp hrun
      cases h with
      | untouched hnone | closed hnone => simp [hnone] at hunder
      | @writing p w hone hmade _ hholds =>
          obtain ⟨rfl, -⟩ := List.cons.inj (hone.symm.trans hunder)
          exact ⟨w, rfl, ⟨p, hone⟩, hmade, rfl, rfl, haway, hholds⟩
  | nil =>
      rw [hwriter, hunder] at hrun
      simp only [List.head?_nil] at hrun
      obtain ⟨answer, fs₁, hopen, hrun⟩ := mayRun_bind_iff.mp hrun
      obtain ⟨reply, fs₂, hreply, hdone⟩ := mayRun_ask_iff.mp hopen
      obtain ⟨rfl, rfl⟩ := mayRun_done_iff.mp hdone
      have hanswer := hreply.openFile_eq hpath
      have hmode : (if s.created.any (sameFile · path) then OpenMode.append else .create) =
          if s.madeUnder key then .append else .create := by rw [created_any, hkey]
      obtain ⟨fs', hopened, hend⟩ := h.atEnd hunder hpath hplain hmode
      obtain ⟨rfl, rfl⟩ := Prod.mk.inj (hanswer.symm.trans hopened)
      obtain ⟨rfl, rfl⟩ := mayRun_done_iff.mp hrun
      have haway' : (s.withWriter path fs.opened.length).Away key place fs' :=
        (haway.onward hreply.onward).withWriter fun hother => absurd hkey hother
      refine ⟨_, rfl, ⟨path, ?_⟩, ?_, rfl, rfl, haway', ⟨_, hend, List.append_nil _⟩⟩
      · exact (under_withWriter ..).trans (by rw [hunder, if_pos hkey, List.nil_append])
      · exact (madeUnder_withWriter ..).trans (by simp [hkey])

/-- The sink serves a key: its records are delivered, and no other writer interferes. -/
structure Serves (before : FileSpace) (key : Path.Key) (place : Location) (records : List String)
    (s : FileSink) (fs : FileSpace) : Prop where
  onward : Onward before fs
  away : s.Away key place fs
  delivered : Delivered before key place records s fs

theorem serves_new (before : FileSpace) (key : Path.Key) (place : Location)
    (hnew : s.writers = [] ∧ s.created = []) : Serves before key place [] s before where
  onward := .refl before
  away := by simp [Away, hnew.1]
  delivered := .untouched (by simp [under, hnew.1]) (by simp [madeUnder, hnew.2]) rfl rfl

theorem Serves.elsewhere (h : Serves before key place records s fs)
    (helse : Elsewhere key place s s' fs fs') : Serves before key place records s' fs' where
  onward := h.onward.trans helse.spares.toOnward
  away := helse.away
  delivered := h.delivered.elsewhere helse

theorem Serves.register (h : Serves before key place records s fs) (handle : HandleId)
    (path : String) : Serves before key place records (s.register handle path) fs where
  onward := h.onward
  away := h.away
  delivered := by
    cases h.delivered with
    | untouched hunder hmade hrecords hentry => exact .untouched hunder hmade hrecords hentry
    | closed hunder hmade hrecords hentry => exact .closed hunder hmade hrecords hentry
    | writing hunder hmade hrecords hholds => exact .writing hunder hmade hrecords hholds

theorem Serves.write_own (h : Serves before key place records s fs) {handle : HandleId}
    (htarget : s.target? handle = some path) (hkey : Path.key path = key)
    (hpath : fs.writable? path = some place) (hplain : Path.endsWithSlash path = false)
    {record : String} {r : FileSink × Except SinkError Unit}
    (hrun : (s.write handle record).MayRun place fs r fs') :
    Serves before key place (records ++ [record]) r.1 fs' ∧
      r.1.targets = s.targets ∧ r.1.workDir = s.workDir := by
  have honward := h.onward.trans hrun.onward
  unfold FileSink.write at hrun
  rw [htarget] at hrun
  obtain ⟨⟨s₁, opened⟩, fs₁, hopen, hrun⟩ := mayRun_bind_iff.mp hrun
  obtain ⟨w, rfl, hopened⟩ := h.delivered.openWriter h.away hkey hpath hplain hopen
  obtain ⟨⟨w', result⟩, fs₂, hline, hdone⟩ := mayRun_bind_iff.mp hrun
  obtain ⟨rfl, rfl⟩ := mayRun_done_iff.mp hdone
  obtain ⟨p, hunder⟩ := hopened.under
  have hran := (writeLine_writesTo w record).run_eq hopened.holds.isAt hline
  obtain ⟨w₂, fs₃, hwritten, -, hholds, -⟩ := writeLine_run hopened.holds record
  obtain ⟨hresult, rfl⟩ := Prod.mk.inj (hran.symm.trans hwritten)
  obtain ⟨rfl, rfl⟩ := Prod.mk.inj hresult
  have haway : (s₁.putWriter path w').Away key place fs' :=
    (hopened.away.onward hline.onward).putWriter fun hother => absurd hkey hother
  have hput : (s₁.putWriter path w').under key = [(p, w')] := by
    rw [under_putWriter, if_pos hkey, hunder]
    rfl
  rw [← List.flatMap_singleton lineOf, ← List.flatMap_append] at hholds
  have hdelivered : Delivered before key place (records ++ [record]) (s₁.putWriter path w') fs' :=
    .writing hput hopened.made (by simp) hholds
  exact ⟨⟨honward, haway, hdelivered⟩, hopened.targets, hopened.workDir⟩

/-- A record of the key is delivered, and one of another key is not. -/
theorem Serves.write (hfree : before.IsFree place) (h : Serves before key place records s fs)
    {handle : HandleId} (hkeyed : ∀ path, s.target? handle = some path → before.Keyed key place path)
    {record : String} {r : FileSink × Except SinkError Unit}
    (hrun : (s.write handle record).MayRun place fs r fs') :
    Serves before key place (records ++ recordUnder key s.target? (.write handle record))
        r.1 fs' ∧
      r.1.targets = s.targets ∧ r.1.workDir = s.workDir := by
  cases htarget : s.target? handle with
  | none =>
      unfold FileSink.write at hrun
      rw [htarget] at hrun
      obtain ⟨rfl, rfl⟩ := mayRun_done_iff.mp hrun
      rw [recordUnder_other (by simp [htarget]), List.append_nil]
      exact ⟨h, rfl, rfl⟩
  | some path =>
      have hnow := (hkeyed path htarget).filled h.onward.filled
      by_cases hkey : Path.key path = key
      · obtain ⟨hpath, hplain⟩ := hnow.own hkey
        rw [recordUnder_own (by simp [htarget, hkey])]
        exact h.write_own htarget hkey hpath hplain hrun
      · have hfree' := h.onward.filled.isFree hfree
        have helse := write_elsewhere h.away hfree' htarget hkey (hnow.other hkey) hrun
        rw [recordUnder_other (by simpa [htarget] using hkey), List.append_nil]
        exact ⟨h.elsewhere helse, helse.targets, helse.workDir⟩

/-- Closing a path keeps what was delivered. The writer of the key is closed if the path
has the key. -/
theorem Serves.closePath (h : Serves before key place records s fs) {path : String}
    {r : FileSink × Except SinkError Unit} (hrun : (s.closePath path).MayRun place fs r fs') :
    Serves before key place records r.1 fs' ∧
      (s.under key = [] ∨ Path.key path = key → r.1.under key = []) ∧
      r.1.targets = s.targets ∧ r.1.workDir = s.workDir := by
  by_cases hkey : Path.key path = key
  · have honward := h.onward.trans hrun.onward
    have hwriter := writer?_eq_head? s path
    rw [hkey] at hwriter
    unfold FileSink.closePath at hrun
    cases hunder : s.under key with
    | nil =>
        rw [hwriter, hunder] at hrun
        obtain ⟨rfl, rfl⟩ := mayRun_done_iff.mp hrun
        exact ⟨h, fun _ => hunder, rfl, rfl⟩
    | cons first rest =>
        rw [hwriter, hunder] at hrun
        cases h.delivered with
        | untouched hnone | closed hnone => simp [hnone] at hunder
        | @writing p w hone hmade hrecords hholds =>
            obtain ⟨rfl, -⟩ := List.cons.inj (hone.symm.trans hunder)
            obtain ⟨result, fs₁, hrelease, hdone⟩ := mayRun_bind_iff.mp hrun
            obtain ⟨rfl, rfl⟩ := mayRun_done_iff.mp hdone
            have hran := w.release_writesTo.run_eq hholds.isAt hrelease
            obtain ⟨fs₂, hreleased, hentry, -⟩ := hholds.release
            obtain ⟨rfl, rfl⟩ := Prod.mk.inj (hran.symm.trans hreleased)
            have hclosed : (s.removeWriter path).under key = [] := by
              rw [under_removeWriter, if_pos hkey]
            have haway := (h.away.onward hrelease.onward).removeWriter path
            exact ⟨⟨honward, haway, .closed hclosed hmade hrecords hentry⟩,
              fun _ => hclosed, rfl, rfl⟩
  · have helse := closePath_elsewhere h.away hkey hrun
    refine ⟨h.elsewhere helse, fun hclosed => ?_, helse.targets, helse.workDir⟩
    exact helse.under.trans (hclosed.resolve_right hkey)

theorem Serves.close (h : Serves before key place records s fs) {handle : HandleId}
    {r : FileSink × Except SinkError Unit} (hrun : (s.close handle).MayRun place fs r fs') :
    Serves before key place records r.1 fs' ∧
      r.1.targets = s.targets ∧ r.1.workDir = s.workDir := by
  unfold FileSink.close at hrun
  cases htarget : s.target? handle with
  | none =>
      rw [htarget] at hrun
      obtain ⟨rfl, rfl⟩ := mayRun_done_iff.mp hrun
      exact ⟨h, rfl, rfl⟩
  | some path =>
      rw [htarget] at hrun
      have hclosed := h.closePath hrun
      exact ⟨hclosed.1, hclosed.2.2⟩

/-- Closing in turn keeps what was delivered, also when it ends early. -/
theorem Serves.closePaths (h : Serves before key place records s fs) {list : List String}
    {r : FileSink × Except SinkError Unit} (hrun : (s.closePaths list).MayRun place fs r fs') :
    Serves before key place records r.1 fs' ∧
      r.1.targets = s.targets ∧ r.1.workDir = s.workDir := by
  induction list generalizing s fs with
  | nil =>
      obtain ⟨rfl, rfl⟩ := mayRun_done_iff.mp hrun
      exact ⟨h, rfl, rfl⟩
  | cons path list ih =>
      unfold FileSink.closePaths at hrun
      obtain ⟨⟨s₁, result⟩, fs₁, hclose, hrun⟩ := mayRun_bind_iff.mp hrun
      obtain ⟨hserves, -, htargets, hworkDir⟩ := h.closePath hclose
      cases result with
      | error e =>
          obtain ⟨rfl, rfl⟩ := mayRun_done_iff.mp hrun
          exact ⟨hserves, htargets, hworkDir⟩
      | ok =>
          have hrest := ih hserves hrun
          exact ⟨hrest.1, hrest.2.1.trans htargets, hrest.2.2.trans hworkDir⟩

/-- Whatever fails, no writer of the key is left when its paths have been closed. -/
theorem Serves.dropPaths (h : Serves before key place records s fs) {list : List String}
    (hrun : (s.dropPaths list).MayRun place fs s' fs') :
    Serves before key place records s' fs' ∧
      (s.under key = [] ∨ (∃ path ∈ list, Path.key path = key) → s'.under key = []) := by
  induction list generalizing s fs with
  | nil =>
      obtain ⟨rfl, rfl⟩ := mayRun_done_iff.mp hrun
      exact ⟨h, fun hclosed => hclosed.resolve_right (by simp)⟩
  | cons first list ih =>
      unfold FileSink.dropPaths at hrun
      obtain ⟨⟨s₁, result⟩, fs₁, hclose, hrun⟩ := mayRun_bind_iff.mp hrun
      obtain ⟨hserves, hfirst, -⟩ := h.closePath hclose
      obtain ⟨hrest, hlater⟩ := ih hserves hrun
      refine ⟨hrest, fun hclosed => hlater ?_⟩
      rcases hclosed with hnone | ⟨path, hpath, hkey⟩
      · exact .inl (hfirst (.inl hnone))
      · rcases List.mem_cons.mp hpath with rfl | hmem
        · exact .inl (hfirst (.inr hkey))
        · exact .inr ⟨path, hmem, hkey⟩

theorem Serves.drop (h : Serves before key place records s fs)
    (hrun : s.drop.MayRun place fs () fs') : fs'.entry? place =
      if records = [] then before.entry? place else some (.regular (records.flatMap lineOf)) := by
  obtain ⟨s', fs₁, hdrop, hdone⟩ := mayRun_bind_iff.mp hrun
  obtain ⟨-, rfl⟩ := mayRun_done_iff.mp hdone
  obtain ⟨hserves, hclosed⟩ := h.dropPaths hdrop
  refine hserves.delivered.entry (hclosed ?_)
  cases hunder : s.under key with
  | nil => exact .inl rfl
  | cons first rest =>
      have hfirst : first ∈ s.under key := hunder ▸ List.mem_cons_self
      obtain ⟨hmem, hkey⟩ := List.mem_filter.mp hfirst
      have hlisted : first.1 ∈ (s.writers.map Prod.fst).mergeSort Path.le :=
        (List.mergeSort_perm _ _).mem_iff.mpr (List.mem_map_of_mem hmem)
      exact .inr ⟨first.1, hlisted, by simpa using hkey⟩

theorem target?_of_targets (h : s'.targets = s.targets) : s'.target? = s.target? := by
  funext handle
  rw [target?, target?, h]

/-- What one step preserves. -/
theorem Serves.take (hfree : before.IsFree place) (h : Serves before key place records s fs)
    (hkeyed : ∀ handle path, s.target? handle = some path → before.Keyed key place path)
    {step : SinkStep} (hrun : (s.take step).MayRun place fs s' fs') :
    Serves before key place (records ++ recordUnder key s.target? step) s' fs' ∧
      s'.target? = pathsAfter s.workDir s.target? step ∧ s'.workDir = s.workDir := by
  cases step with
  | register handle path =>
      obtain ⟨rfl, rfl⟩ := mayRun_done_iff.mp hrun
      rw [recordUnder, List.append_nil]
      refine ⟨h.register handle path, ?_, rfl⟩
      funext other
      exact target?_register s handle other path
  | write handle record =>
      obtain ⟨r, fs₁, hwrite, hdone⟩ := mayRun_bind_iff.mp hrun
      obtain ⟨rfl, rfl⟩ := mayRun_done_iff.mp hdone
      obtain ⟨hserves, htargets, hworkDir⟩ := h.write hfree (hkeyed handle) hwrite
      exact ⟨hserves, target?_of_targets htargets, hworkDir⟩
  | close handle =>
      obtain ⟨r, fs₁, hclose, hdone⟩ := mayRun_bind_iff.mp hrun
      obtain ⟨rfl, rfl⟩ := mayRun_done_iff.mp hdone
      obtain ⟨hserves, htargets, hworkDir⟩ := h.close hclose
      rw [recordUnder, List.append_nil]
      exact ⟨hserves, target?_of_targets htargets, hworkDir⟩
  | closeAll =>
      obtain ⟨r, fs₁, hclose, hdone⟩ := mayRun_bind_iff.mp hrun
      obtain ⟨rfl, rfl⟩ := mayRun_done_iff.mp hdone
      obtain ⟨hserves, htargets, hworkDir⟩ := h.closePaths hclose
      rw [recordUnder, List.append_nil]
      exact ⟨hserves, target?_of_targets htargets, hworkDir⟩

theorem keyed_pathsAfter {workDir : String} {paths : HandleId → Option String} {step : SinkStep}
    (hkeyed : ∀ handle path, paths handle = some path → before.Keyed key place path)
    (hstep : ∀ handle path, step = .register handle path →
      before.Keyed key place (outputPath workDir path)) (handle : HandleId) (path : String)
    (hpath : pathsAfter workDir paths step handle = some path) : before.Keyed key place path := by
  cases step with
  | register other target =>
      simp only [pathsAfter] at hpath
      split at hpath
      · obtain rfl := Option.some.inj hpath
        exact hstep other target rfl
      · exact hkeyed handle path hpath
  | write other record => exact hkeyed handle path hpath
  | close other => exact hkeyed handle path hpath
  | closeAll => exact hkeyed handle path hpath

/-- What a whole run leaves in the file. -/
theorem Serves.takeAll (hfree : before.IsFree place) (h : Serves before key place records s fs)
    (hkeyed : ∀ handle path, s.target? handle = some path → before.Keyed key place path)
    {steps : List SinkStep} (hsteps : ∀ handle path, .register handle path ∈ steps →
      before.Keyed key place (outputPath s.workDir path))
    {all : List String} (hall : records ++ directed s.workDir key s.target? steps = all)
    (hrun : (s.takeAll steps).MayRun place fs () fs') : fs'.entry? place =
      if all = [] then before.entry? place else some (.regular (all.flatMap lineOf)) := by
  induction steps generalizing s fs records with
  | nil =>
      rw [directed, List.append_nil] at hall
      exact hall ▸ h.drop hrun
  | cons step steps ih =>
      obtain ⟨s₁, fs₁, hstep, hrun⟩ := mayRun_bind_iff.mp hrun
      obtain ⟨hserves, htargets, hworkDir⟩ := h.take hfree hkeyed hstep
      have hfirst : ∀ handle path, step = .register handle path →
          before.Keyed key place (outputPath s.workDir path) := by
        intro handle path heq
        exact hsteps handle path (heq ▸ List.mem_cons_self)
      have hlater : ∀ handle path, .register handle path ∈ steps →
          before.Keyed key place (outputPath s₁.workDir path) := by
        intro handle path hmem
        rw [hworkDir]
        exact hsteps handle path (List.mem_cons_of_mem _ hmem)
      apply ih hserves ?_ hlater ?_ hrun
      · rw [htargets]
        exact keyed_pathsAfter hkeyed hfirst
      · rw [htargets, hworkDir, List.append_assoc]
        exact hall

theorem keyed_of_iff {workDir : String} (hroot : Path.isRooted workDir = true)
    (hleads : before.writable? (outputPath workDir path) = some place ↔
      Path.key (outputPath workDir path) = key) :
    before.Keyed key place (outputPath workDir path) where
  own := by
    intro hkey
    have hpath := hleads.mpr hkey
    refine ⟨hpath, ?_⟩
    rcases outputPath_spec workDir path with htarget | ⟨hempty, houtput⟩
    · exact plain_of_writable (Path.isRooted_absolute hroot htarget) hpath
    · rw [houtput, hempty]
      rfl
  other := fun hother hpath => hother (hleads.mp hpath)

/-- The records directed to a file that never fails are in it in the end, in order, and
nothing else is. A file that no record was directed to stays as it was. Other files may
fail at any time, and where files are closed in between makes no difference. -/
theorem file_holds_directed_records {workDir : String} (hroot : Path.isRooted workDir = true)
    {before : FileSpace} {p : String} {place : Location} (hp : before.writable? p = some place)
    {steps : List SinkStep} (hkeys : ∀ handle path, .register handle path ∈ steps →
      (before.writable? (outputPath workDir path) = some place ↔
        Path.key (outputPath workDir path) = Path.key p))
    {records : List String} (hrecords : directed workDir (Path.key p) (fun _ => none) steps = records)
    {after : FileSpace}
    (hrun : (({ workDir } : FileSink).takeAll steps).MayRun place before () after) :
    after.entry? place =
        (if records = [] then before.entry? place
          else some (.regular (records.flatMap lineOf))) ∧
      ∀ steps' after', steps'.filter (!·.closes) = steps.filter (!·.closes) →
        (({ workDir } : FileSink).takeAll steps').MayRun place before () after' →
          after'.entry? place = after.entry? place := by
  have hfree : before.IsFree place := (writable_eq_some_iff.mp hp).2.2
  have hnew : Serves before (Path.key p) place [] ({ workDir } : FileSink) before :=
    serves_new before _ place ⟨rfl, rfl⟩
  have hresult (steps : List SinkStep) (after : FileSpace)
      (hkeys : ∀ handle path, .register handle path ∈ steps →
        (before.writable? (outputPath workDir path) = some place ↔
          Path.key (outputPath workDir path) = Path.key p))
      (hrecords : directed workDir (Path.key p) (fun _ => none) steps = records)
      (hrun : (({ workDir } : FileSink).takeAll steps).MayRun place before () after) :=
    hnew.takeAll hfree nofun
      (fun handle path hmem => keyed_of_iff hroot (hkeys handle path hmem)) hrecords hrun
  have hfirst := hresult steps after hkeys hrecords hrun
  refine ⟨hfirst, fun steps' after' hsame hrun' => ?_⟩
  rw [hfirst]
  refine hresult steps' after' (fun handle path hmem => hkeys handle path ?_) ?_ hrun'
  · have hkept : SinkStep.register handle path ∈ steps'.filter (!·.closes) :=
      List.mem_filter.mpr ⟨hmem, rfl⟩
    rw [hsame] at hkept
    exact List.mem_of_mem_filter hkept
  · rw [← directed_filter, hsame, directed_filter, hrecords]

/-- A device that takes nothing comes first when the files are closed, so the file behind
it stays open. Later it is closed and opened again, and a handle moves to it. -/
theorem file_holds_directed_records_behind_full_device :
    let before : FileSpace :=
      { entries := [(["a"], .fullDevice), (["b"], .regular (.ofText "old"))] }
    let steps : List SinkStep := [.register 0 "b", .register 1 "/./b", .register 2 "a",
      .write 2 "lost", .write 0 "one", .closeAll, .write 1 "two", .close 0, .close 0,
      .register 2 "//b", .write 2 "three", .write 7 "nowhere"]
    let s : FileSink := { workDir := "/" }
    let after := ((s.takeAll steps).run before).2
    let after' := ((s.takeAll (steps.filter (!·.closes))).run before).2
    after.entry? ["b"] = some (.regular (.ofText "one\ntwo\nthree\n")) ∧
      after'.entry? ["b"] = after.entry? ["b"] := by
  intro before steps s after after'
  have hkeys : ∀ handle path, SinkStep.register handle path ∈ steps →
      (before.writable? (outputPath "/" path) = some ["b"] ↔
        Path.key (outputPath "/" path) = Path.key "/b") := by
    intro handle path hmem
    simp only [steps, List.mem_cons, SinkStep.register.injEq, reduceCtorEq, List.not_mem_nil,
      or_false, false_or] at hmem
    rcases hmem with ⟨-, rfl⟩ | ⟨-, rfl⟩ | ⟨-, rfl⟩ | ⟨-, rfl⟩ <;> decide +kernel
  have hrecords : directed "/" (Path.key "/b") (fun _ => none) steps = ["one", "two", "three"] := by
    decide +kernel
  obtain ⟨hentry, hclosing⟩ := file_holds_directed_records (p := "/b") (by decide)
    (by decide +kernel) hkeys hrecords (mayRun_run _ ["b"] before)
  refine ⟨hentry.trans (by decide +kernel), hclosing _ _ ?_ (mayRun_run _ ["b"] before)⟩
  decide +kernel

end FileSink
end RuleDesk
