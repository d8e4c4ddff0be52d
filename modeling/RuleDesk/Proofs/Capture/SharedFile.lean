import RuleDesk.Proofs.Capture.Sharing

/-!
# Handles of one file

Handles whose paths lead to one file keep every record exactly if the paths that are
written have one key.
-/
namespace RuleDesk

open FileTask FileSpace

namespace FileSink

variable {place : Location} {limit : Nat} {before fs fs' : FileSpace} {s s' : FileSink}
  {paths : HandleId → Option String} {writes : List (HandleId × String)} {key : Path.Key}

/-- Writes records in turn and closes every file. The first failure ends it. -/
def writeAndClose (s : FileSink) :
    List (HandleId × String) → FileTask (FileSink × Except SinkError Unit)
  | [] => s.closeAll
  | (handle, record) :: writes => do
    match ← s.write handle record with
    | (s, .ok ()) => s.writeAndClose writes
    | (s, .error e) => return (s, .error e)

/-- The bytes that writes give to the paths of a key. -/
def bytesUnder (paths : HandleId → Option String) (writes : List (HandleId × String))
    (key : Path.Key) : Bytes :=
  (writes.filter fun w => (paths w.1).map Path.key = some key).flatMap fun w => lineOf w.2

theorem bytesUnder_append (paths : HandleId → Option String)
    (earlier later : List (HandleId × String)) (key : Path.Key) :
    bytesUnder paths (earlier ++ later) key =
      bytesUnder paths earlier key ++ bytesUnder paths later key := by
  unfold bytesUnder
  rw [List.filter_append, List.flatMap_append]

theorem bytesUnder_singleton (paths : HandleId → Option String) (handle : HandleId)
    (record : String) (key : Path.Key) : bytesUnder paths [(handle, record)] key =
      if (paths handle).map Path.key = some key then lineOf record else [] := by
  unfold bytesUnder
  split
  · next hkey =>
      rw [List.filter_cons_of_pos (by simpa using hkey)]
      exact List.append_nil _
  · next hkey =>
      rw [List.filter_cons_of_neg (by simpa using hkey)]
      rfl

/-- One more record is taken, and what its key has been given is longer by it. -/
theorem Gathering.write_next {earlier : List (HandleId × String)}
    (h : Gathering place limit (bytesUnder paths earlier) s fs) (hpaths : s.target? = paths)
    {handle : HandleId} {path : String} (htarget : paths handle = some path)
    (hpath : fs.writable? path = some place) {record : String}
    (hsmall : ∀ key, (bytesUnder paths (earlier ++ [(handle, record)]) key).length ≤ limit) :
    ∃ s' fs', (s.write handle record).run fs = ((s', .ok ()), fs') ∧
      Gathering place limit (bytesUnder paths (earlier ++ [(handle, record)])) s' fs' ∧
      s'.target? = paths ∧ Onward fs fs' := by
  have hown : bytesUnder paths (earlier ++ [(handle, record)]) (Path.key path) =
      bytesUnder paths earlier (Path.key path) ++ lineOf record := by
    rw [bytesUnder_append, bytesUnder_singleton, if_pos (by simp [htarget])]
  have hothers : ∀ key, key ≠ Path.key path →
      bytesUnder paths (earlier ++ [(handle, record)]) key = bytesUnder paths earlier key := by
    intro key hother
    rw [bytesUnder_append, bytesUnder_singleton, if_neg (by simpa [htarget] using hother.symm),
      List.append_nil]
  rw [← hpaths] at htarget
  obtain ⟨s', fs', hwrite, hgathering, htargets⟩ := h.write htarget hpath hown hothers hsmall
  have hmay := mayRun_run (s.write handle record) place fs
  rw [hwrite] at hmay
  exact ⟨s', fs', hwrite, hgathering, (target?_of_targets htargets).trans hpaths, hmay.onward⟩

/-- Records for paths that lead to one file are all taken, and the files can be closed.
What is then in the file is as long as what one of the keys was given, at most. -/
theorem Gathering.writeAndClose {earlier : List (HandleId × String)}
    (h : Gathering place limit (bytesUnder paths earlier) s fs) (hpaths : s.target? = paths)
    (hleads : ∀ w ∈ writes, ∃ path, paths w.1 = some path ∧ fs.writable? path = some place)
    (hsmall : ∀ key, (bytesUnder paths (earlier ++ writes) key).length ≤ limit) :
    ∃ s' fs', (s.writeAndClose writes).run fs = ((s', .ok ()), fs') ∧ s'.openKeys = [] ∧
      ∀ key, bytesUnder paths (earlier ++ writes) key ≠ [] → fs'.IsShort place limit := by
  induction writes generalizing s fs earlier with
  | nil =>
      obtain ⟨s', fs', hrun, hclosed, hshort⟩ := h.toSharing.closeAll
      refine ⟨s', fs', hrun, hclosed, fun key hgiven => hshort fun hnone => ?_⟩
      rw [List.append_nil] at hgiven
      exact hgiven (h.fresh key (hnone ▸ List.not_mem_nil))
  | cons first writes ih =>
      obtain ⟨handle, record⟩ := first
      obtain ⟨path, htarget, hpath⟩ := hleads _ List.mem_cons_self
      rw [List.append_cons] at hsmall ⊢
      have hnow : ∀ key, (bytesUnder paths (earlier ++ [(handle, record)]) key).length ≤ limit := by
        intro key
        have hall := hsmall key
        rw [bytesUnder_append, List.length_append] at hall
        omega
      obtain ⟨s₁, fs₁, hwrite, hgathering, hpaths₁, honward⟩ :=
        h.write_next hpaths htarget hpath hnow
      have hleads₁ : ∀ w ∈ writes, ∃ path, paths w.1 = some path ∧
          fs₁.writable? path = some place := by
        intro w hw
        obtain ⟨other, hother, hplace⟩ := hleads w (List.mem_cons_of_mem _ hw)
        exact ⟨other, hother, honward.filled.writable hplace⟩
      obtain ⟨s', fs', hrest, hclosed⟩ := ih hgathering hpaths₁ hleads₁ hsmall
      refine ⟨s', fs', ?_, hclosed⟩
      unfold FileSink.writeAndClose
      rw [FileTask.bind_eq, run_bind_of_run hwrite]
      exact hrest

/-- Records for paths of one key are delivered in order. -/
theorem Serves.writeAndClose {records : List String} (h : Serves before key place records s fs)
    (hpaths : s.target? = paths) (hleads : ∀ w ∈ writes, ∃ path, paths w.1 = some path ∧
      Path.key path = key ∧ fs.writable? path = some place ∧ Path.endsWithSlash path = false)
    (hrun : (s.writeAndClose writes).MayRun place fs (s', .ok ()) fs') :
    Serves before key place (records ++ writes.map Prod.snd) s' fs' := by
  induction writes generalizing s fs records with
  | nil =>
      rw [List.map_nil, List.append_nil]
      exact (h.closePaths hrun).1
  | cons first writes ih =>
      obtain ⟨handle, record⟩ := first
      obtain ⟨path, htarget, hkey, hpath, hplain⟩ := hleads _ List.mem_cons_self
      unfold FileSink.writeAndClose at hrun
      obtain ⟨⟨s₁, result⟩, fs₁, hwrite, hrun⟩ := mayRun_bind_iff.mp hrun
      rw [← hpaths] at htarget
      obtain ⟨hserves, htargets, -⟩ := h.write_own htarget hkey hpath hplain hwrite
      cases result with
      | error e => cases (mayRun_done_iff.mp hrun).1
      | ok =>
          have hpaths₁ : s₁.target? = paths := (target?_of_targets htargets).trans hpaths
          have hleads₁ : ∀ w ∈ writes, ∃ path, paths w.1 = some path ∧ Path.key path = key ∧
              fs₁.writable? path = some place ∧ Path.endsWithSlash path = false := by
            intro w hw
            obtain ⟨other, hother, hsame, hplace, hslash⟩ := hleads w (List.mem_cons_of_mem _ hw)
            exact ⟨other, hother, hsame, hwrite.onward.filled.writable hplace, hslash⟩
          have hrest := ih hserves hpaths₁ hleads₁ hrun
          rwa [List.append_assoc] at hrest

/-- The file holds every one of the records, whole and once, and nothing else. Without
records it is what it was. -/
def KeepsEvery (before after : FileSpace) (place : Location) (records : List String) : Prop :=
  ∃ order : List String, order.Perm records ∧ after.entry? place =
    if order = [] then before.entry? place else some (.regular (order.flatMap lineOf))

theorem lineOf_ne_nil (record : String) : lineOf record ≠ [] := by
  intro hnil
  have hfeed : Bytes.ofText "\n" ≠ [] := by decide
  exact hfeed (List.append_eq_nil_iff.mp hnil).2

/-- What a key is given and what the others are given is everything. -/
theorem length_bytesUnder_add (paths : HandleId → Option String)
    (writes : List (HandleId × String)) (key : Path.Key) :
    (bytesUnder paths writes key).length +
        ((writes.filter fun w => !decide ((paths w.1).map Path.key = some key)).flatMap
          fun w => lineOf w.2).length =
      ((writes.map Prod.snd).flatMap lineOf).length := by
  have hsplit := (List.filter_append_perm
    (fun w => decide ((paths w.1).map Path.key = some key)) writes).flatMap_right
      fun w => lineOf w.2
  rw [bytesUnder, ← List.length_append, ← List.flatMap_append, hsplit.length_eq, List.flatMap_map]

theorem bytesUnder_lt (h : ∃ w ∈ writes, (paths w.1).map Path.key ≠ some key) :
    (bytesUnder paths writes key).length < ((writes.map Prod.snd).flatMap lineOf).length := by
  obtain ⟨w, hw, hother⟩ := h
  have hmem : w ∈ writes.filter fun w => !decide ((paths w.1).map Path.key = some key) :=
    List.mem_filter.mpr ⟨hw, by simpa using hother⟩
  rw [← length_bytesUnder_add paths writes key]
  apply Nat.lt_add_of_pos_right
  apply List.length_pos_iff.mpr
  intro hnil
  exact lineOf_ne_nil w.2 (List.flatMap_eq_nil_iff.mp hnil w hmem)

/-- Records that all go to one key are kept. -/
theorem writeAndClose_keeps (hnew : s.writers = [] ∧ s.created = [])
    (hleads : ∀ w ∈ writes, ∃ path, s.target? w.1 = some path ∧ Path.key path = key ∧
      before.writable? path = some place ∧ Path.endsWithSlash path = false) :
    ∃ s' after, (s.writeAndClose writes).run before = ((s', .ok ()), after) ∧
      KeepsEvery before after place (writes.map Prod.snd) := by
  have hpaths : ∀ w ∈ writes, ∃ path, s.target? w.1 = some path ∧
      before.writable? path = some place := by
    intro w hw
    obtain ⟨path, htarget, -, hpath, -⟩ := hleads w hw
    exact ⟨path, htarget, hpath⟩
  have hsmall : ∀ key, (bytesUnder s.target? ([] ++ writes) key).length ≤
      ((writes.map Prod.snd).flatMap lineOf).length := by
    intro key
    rw [List.nil_append, ← length_bytesUnder_add s.target? writes key]
    exact Nat.le_add_right ..
  obtain ⟨s', after, hrun, hclosed, -⟩ :=
    Gathering.writeAndClose (gathering_new place _ before hnew) rfl hpaths hsmall
  refine ⟨s', after, hrun, ?_⟩
  have hmay := mayRun_run (s.writeAndClose writes) place before
  rw [hrun] at hmay
  have hserves := (serves_new before key place hnew).writeAndClose rfl hleads hmay
  have hunder : s'.under key = [] := by
    rw [under, List.map_eq_nil_iff.mp hclosed]
    rfl
  exact ⟨_, .refl _, hserves.delivered.entry hunder⟩

/-- Of records that go to several keys some bytes are lost. -/
theorem writeAndClose_loses (hnew : s.writers = [] ∧ s.created = [])
    (hleads : ∀ w ∈ writes, ∃ path, s.target? w.1 = some path ∧ before.writable? path = some place)
    (hkeys : ∀ key, ∃ w ∈ writes, (s.target? w.1).map Path.key ≠ some key) (hsome : writes ≠ []) :
    ∃ s' after, (s.writeAndClose writes).run before = ((s', .ok ()), after) ∧
      after.IsShort place (((writes.map Prod.snd).flatMap lineOf).length - 1) := by
  have hsmall : ∀ key, (bytesUnder s.target? ([] ++ writes) key).length ≤
      ((writes.map Prod.snd).flatMap lineOf).length - 1 := by
    intro key
    have hlt := bytesUnder_lt (hkeys key)
    rw [List.nil_append]
    omega
  obtain ⟨s', after, hrun, -, hshort⟩ :=
    Gathering.writeAndClose (gathering_new place _ before hnew) rfl hleads hsmall
  obtain ⟨w, hw⟩ := List.exists_mem_of_ne_nil writes hsome
  obtain ⟨path, htarget, -⟩ := hleads w hw
  refine ⟨s', after, hrun, hshort (Path.key path) fun hnil => ?_⟩
  have hmem : w ∈ writes.filter fun w => (s.target? w.1).map Path.key = some (Path.key path) :=
    List.mem_filter.mpr ⟨hw, by simp [htarget]⟩
  exact lineOf_ne_nil w.2 (List.flatMap_eq_nil_iff.mp hnil w hmem)

theorem not_keepsEvery_of_isShort {after : FileSpace} {records : List String}
    (hsome : records ≠ []) (hshort : after.IsShort place ((records.flatMap lineOf).length - 1)) :
    ¬ KeepsEvery before after place records := by
  rintro ⟨order, hperm, hentry⟩
  have horder : order ≠ [] := fun hnil => hsome (List.nil_perm.mp (hnil ▸ hperm))
  obtain ⟨content, hcontent, hlength⟩ := hshort
  rw [if_neg horder, hcontent] at hentry
  have hsame : content = order.flatMap lineOf := by simpa using hentry
  have hall := (hperm.flatMap_right lineOf).length_eq
  have hpos : 0 < (order.flatMap lineOf).length := by
    obtain ⟨record, hrecord⟩ := List.exists_mem_of_ne_nil order horder
    refine List.length_pos_iff.mpr fun hnil => ?_
    exact lineOf_ne_nil record (List.flatMap_eq_nil_iff.mp hnil record hrecord)
  rw [hsame] at hlength
  omega

/-- The path under which a file is written leads to the file, if it is short enough to be
looked up. -/
theorem writable_outputPath {workDir : String} (hdir : before.IsWorkDir workDir)
    (hpath : before.writable? path = some place)
    (hlookup : refusal? (outputPath workDir path) = none) :
    before.writable? (outputPath workDir path) = some place ∧
      Path.isRooted (outputPath workDir path) = true := by
  rcases outputPath_spec workDir path with htarget | ⟨hempty, houtput⟩
  · exact ⟨writable_absolute hdir htarget hlookup hpath,
      Path.isRooted_absolute hdir.rooted htarget⟩
  · rw [houtput, hempty] at hlookup
    cases hlookup

section TwoPaths

variable {first second : HandleId} {p q : String}

/-- Writes to two handles go to one key if the paths have one key or one handle is written. -/
theorem exists_common_key (hfirst : paths first = some p) (hsecond : paths second = some q)
    (hwrites : ∀ w ∈ writes, w.1 = first ∨ w.1 = second)
    (hone : Path.key p = Path.key q ∨ (∀ w ∈ writes, w.1 = first) ∨ ∀ w ∈ writes, w.1 = second) :
    ∃ key, ∀ w ∈ writes, ∃ path ∈ [p, q], paths w.1 = some path ∧ Path.key path = key := by
  rcases hone with hsame | hfirsts | hseconds
  · refine ⟨Path.key p, fun w hw => ?_⟩
    rcases hwrites w hw with h | h
    · exact ⟨p, by simp, h ▸ hfirst, rfl⟩
    · exact ⟨q, by simp, h ▸ hsecond, hsame.symm⟩
  · exact ⟨Path.key p, fun w hw => ⟨p, by simp, hfirsts w hw ▸ hfirst, rfl⟩⟩
  · exact ⟨Path.key q, fun w hw => ⟨q, by simp, hseconds w hw ▸ hsecond, rfl⟩⟩

/-- If paths of two keys are written, then no key is that of every write. -/
theorem exists_other_key {u v : HandleId × String} (hu : u ∈ writes) (hv : v ∈ writes)
    (hup : paths u.1 = some p) (hvq : paths v.1 = some q) (hkeys : Path.key p ≠ Path.key q)
    (key : Path.Key) : ∃ w ∈ writes, (paths w.1).map Path.key ≠ some key := by
  by_cases hkey : Path.key p = key
  · refine ⟨v, hv, ?_⟩
    rw [hvq, ← hkey]
    simpa using Ne.symm hkeys
  · refine ⟨u, hu, ?_⟩
    rw [hup]
    simpa using hkey

end TwoPaths

/-- Whatever two handles write to one file is taken. Every record is kept exactly if the
paths of the handles have one key or only one of the handles is written; otherwise the file
is too short for the records. Paths that never go up have one key. -/
theorem every_record_kept_iff {workDir a b : String} (hdir : before.IsWorkDir workDir)
    (ha : before.writable? a = some place) (hb : before.writable? b = some place)
    (hlookup : ∀ path ∈ [a, b], refusal? (outputPath workDir path) = none)
    {first second : HandleId} (hne : first ≠ second)
    (hwrites : ∀ w ∈ writes, w.1 = first ∨ w.1 = second) :
    ∃ s after, (((({ workDir } : FileSink).register first a).register second b).writeAndClose
        writes).run before = ((s, .ok ()), after) ∧
      (KeepsEvery before after place (writes.map Prod.snd) ↔
        Path.key (outputPath workDir a) = Path.key (outputPath workDir b) ∨
          (∀ w ∈ writes, w.1 = first) ∨ ∀ w ∈ writes, w.1 = second) ∧
      (¬ KeepsEvery before after place (writes.map Prod.snd) → ∃ content,
        after.entry? place = some (.regular content) ∧
          content.length < ((writes.map Prod.snd).flatMap lineOf).length) ∧
      (".." ∉ Path.segments (outputPath workDir a) →
        ".." ∉ Path.segments (outputPath workDir b) →
          KeepsEvery before after place (writes.map Prod.snd)) := by
  obtain ⟨hpathA, hrootA⟩ := writable_outputPath hdir ha (hlookup a (by simp))
  obtain ⟨hpathB, hrootB⟩ := writable_outputPath hdir hb (hlookup b (by simp))
  have hplainA := plain_of_writable hrootA hpathA
  have hplainB := plain_of_writable hrootB hpathB
  let s₀ : FileSink := (({ workDir } : FileSink).register first a).register second b
  have hfirst : s₀.target? first = some (outputPath workDir a) := by
    rw [target?_register, if_neg hne, target?_register, if_pos rfl]
    rfl
  have hsecond : s₀.target? second = some (outputPath workDir b) := by
    rw [target?_register, if_pos rfl]
    rfl
  have hleads : ∀ w ∈ writes, ∃ path, s₀.target? w.1 = some path ∧
      before.writable? path = some place := by
    intro w hw
    rcases hwrites w hw with h | h
    · exact ⟨_, h ▸ hfirst, hpathA⟩
    · exact ⟨_, h ▸ hsecond, hpathB⟩
  have hnew : s₀.writers = [] ∧ s₀.created = [] := ⟨rfl, rfl⟩
  by_cases hone : Path.key (outputPath workDir a) = Path.key (outputPath workDir b) ∨
      (∀ w ∈ writes, w.1 = first) ∨ ∀ w ∈ writes, w.1 = second
  · obtain ⟨key, hkey⟩ := exists_common_key hfirst hsecond hwrites hone
    have hplain : ∀ path ∈ [outputPath workDir a, outputPath workDir b],
        before.writable? path = some place ∧ Path.endsWithSlash path = false := by
      simp [hpathA, hpathB, hplainA, hplainB]
    obtain ⟨s, after, hrun, hkeeps⟩ := writeAndClose_keeps hnew fun w hw => by
      obtain ⟨path, hpath, htarget, hsame⟩ := hkey w hw
      exact ⟨path, htarget, hsame, hplain path hpath⟩
    exact ⟨s, after, hrun, ⟨fun _ => hone, fun _ => hkeeps⟩, fun hnot => absurd hkeeps hnot,
      fun _ _ => hkeeps⟩
  · obtain ⟨hkeys, htwo⟩ := not_or.mp hone
    obtain ⟨hfirsts, hseconds⟩ := not_or.mp htwo
    obtain ⟨u, hu, hother⟩ : ∃ w ∈ writes, w.1 ≠ second := by simpa using hseconds
    obtain ⟨v, hv, hother'⟩ : ∃ w ∈ writes, w.1 ≠ first := by simpa using hfirsts
    have hufirst : s₀.target? u.1 = some (outputPath workDir a) :=
      (hwrites u hu).resolve_right hother ▸ hfirst
    have hvsecond : s₀.target? v.1 = some (outputPath workDir b) :=
      (hwrites v hv).resolve_left hother' ▸ hsecond
    have hsplit := exists_other_key hu hv hufirst hvsecond hkeys
    obtain ⟨s, after, hrun, hshort⟩ :=
      writeAndClose_loses hnew hleads hsplit (List.ne_nil_of_mem hu)
    have hlost : ¬ KeepsEvery before after place (writes.map Prod.snd) :=
      not_keepsEvery_of_isShort (by simpa using List.ne_nil_of_mem hu) hshort
    refine ⟨s, after, hrun, ⟨fun hkeeps => absurd hkeeps hlost, fun h => absurd h hone⟩,
      fun _ => ?_, fun hupA hupB => ?_⟩
    · obtain ⟨content, hentry, hlength⟩ := hshort
      have hall := bytesUnder_lt (hsplit (Path.key (outputPath workDir a)))
      exact ⟨content, hentry, by omega⟩
    · exact absurd (key_eq_of_writable hrootA hrootB hupA hupB hpathA hpathB) hkeys

/-- Two spellings that go up in the same way. -/
theorem every_record_kept_iff_same_way_up :
    let before : FileSpace := { entries := [(["d"], .directory), (["o"], .regular (.ofText "old"))] }
    let s := (({ workDir := "/" } : FileSink).register 0 "d//../o").register 1 "/d/./../o"
    ∃ s' after, (s.writeAndClose [(0, "first"), (1, "second"), (0, "third")]).run before =
        ((s', .ok ()), after) ∧
      KeepsEvery before after ["o"] ["first", "second", "third"] := by
  intro before s
  have hdir : before.IsWorkDir "/" := ⟨by decide, by decide +kernel⟩
  have ha : before.writable? "d//../o" = some ["o"] := by decide +kernel
  have hb : before.writable? "/d/./../o" = some ["o"] := by decide +kernel
  have hlookup : ∀ path ∈ ["d//../o", "/d/./../o"], refusal? (outputPath "/" path) = none := by
    decide +kernel
  have hne : (0 : HandleId) ≠ 1 := by decide
  have hwrites : ∀ w ∈ ([(0, "first"), (1, "second"), (0, "third")] : List (HandleId × String)),
      w.1 = 0 ∨ w.1 = 1 := by decide
  have hkeys : Path.key (outputPath "/" "d//../o") = Path.key (outputPath "/" "/d/./../o") := by
    decide +kernel
  obtain ⟨s', after, hrun, hkeeps, -⟩ := every_record_kept_iff hdir ha hb hlookup hne hwrites
  exact ⟨s', after, hrun, hkeeps.mpr (.inl hkeys)⟩

/-- A way through a directory and back up again has a key of its own, so one of two records
is overwritten. -/
theorem spellings_of_one_file_lose_a_record :
    let before : FileSpace := { entries := [(["d"], .directory)] }
    let s := (({ workDir := "/" } : FileSink).register 0 "o").register 1 "d/../o"
    before.writable? "o" = some ["o"] ∧ before.writable? "d/../o" = some ["o"] ∧
      ∃ s' after, (s.writeAndClose [(0, "first"), (1, "second")]).run before =
          ((s', .ok ()), after) ∧
        ¬ KeepsEvery before after ["o"] ["first", "second"] := by
  intro before s
  have hfirst : s.target? 0 = some "/o" := by decide +kernel
  have hsecond : s.target? 1 = some "/d/../o" := by decide +kernel
  have hleads : ∀ w ∈ [(0, "first"), (1, "second")], ∃ path, s.target? w.1 = some path ∧
      before.writable? path = some ["o"] := by
    simp only [List.forall_mem_cons, hfirst, hsecond]
    exact ⟨⟨_, rfl, by decide +kernel⟩, ⟨_, rfl, by decide +kernel⟩, by simp⟩
  have hkeys : Path.key "/o" ≠ Path.key "/d/../o" := by decide +kernel
  have hsplit : ∀ key, ∃ w ∈ [(0, "first"), (1, "second")],
      (s.target? w.1).map Path.key ≠ some key :=
    exists_other_key (u := (0, "first")) (v := (1, "second")) (by simp) (by simp) hfirst hsecond
      hkeys
  obtain ⟨s', after, hrun, hshort⟩ := writeAndClose_loses ⟨rfl, rfl⟩ hleads hsplit (by simp)
  refine ⟨by decide +kernel, by decide +kernel, s', after, hrun, ?_⟩
  exact not_keepsEvery_of_isShort (by simp) hshort

end FileSink
end RuleDesk
