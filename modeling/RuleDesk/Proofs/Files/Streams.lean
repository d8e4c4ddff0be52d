import RuleDesk.Files.BufferedWriter
import RuleDesk.Files.LineReader
import RuleDesk.Proofs.Files.ByteLines
import RuleDesk.Proofs.Files.OpenFiles

/-!
# Readers and writers on files

A reader gives the lines of what it holds and of what its file still has, however
that is cut into chunks. A writer and its file hold together what has been written,
and the file holds all of it once the writer is given up.
-/
namespace RuleDesk

open FileTask FileSpace

variable {fs : FileSpace} {file : FileId} {place : Location}

namespace LineReader

/-- The bytes that the reader has not given out: those that wait, and the rest of its
file. -/
structure Left (r : LineReader) (fs : FileSpace) (file : FileId) (place : Location)
    (bytes : Bytes) : Prop where
  source : r.source = some file
  rest : ∃ rest, fs.Remains file place rest ∧ r.waiting ++ rest = bytes

theorem Left.of_same {r : LineReader} {bytes : Bytes} {fs' : FileSpace}
    (h : r.Left fs file place bytes) (hopened : fs'.opened[file]? = fs.opened[file]?)
    (hentry : fs'.entry? place = fs.entry? place) : r.Left fs' file place bytes := by
  obtain ⟨rest, hremains, hbytes⟩ := h.rest
  exact ⟨h.source, rest, hremains.of_same hopened hentry, hbytes⟩

theorem chunk_pos : 0 < chunk := by decide

theorem length_drop_chunk {rest : Bytes} (h : rest ≠ []) :
    (rest.drop chunk).length < rest.length := by
  have hpos := chunk_pos
  have hlength := List.length_pos_iff.mpr h
  rw [List.length_drop]
  omega

/-- The bytes that are left go when the file has no more of them. -/
theorem takeRest_snd {r : LineReader} (h : r.waiting.cutLine? = none) :
    r.takeRest.2 = r.waiting.toLines.head? := by
  rw [Bytes.cutLine?_eq_none h, takeRest]
  cases r.waiting <;> rfl

theorem tail_toLines {r : LineReader} (h : r.waiting.cutLine? = none) :
    r.waiting.toLines.tail = [] := by
  rw [Bytes.cutLine?_eq_none h]
  cases r.waiting <;> rfl

theorem next_run {r : LineReader} {bytes rest : Bytes} {chunks : Nat}
    (hsource : r.source = some file) (hremains : fs.Remains file place rest)
    (hbytes : r.waiting ++ rest = bytes) (hchunks : rest.length < chunks) :
    ∃ r' fs' left, (r.next chunks).run fs = ((r', .ok bytes.toLines.head?), fs') ∧
      r'.Left fs' file place left ∧ left.toLines = bytes.toLines.tail ∧
      left.length ≤ bytes.length ∧ SameBut file [] fs fs' := by
  induction chunks generalizing r fs rest with
  | zero => omega
  | succ chunks ih =>
      unfold LineReader.next
      rw [hsource]
      cases hcut : r.waiting.cutLine? with
      | some cut =>
          obtain ⟨line, waiting⟩ := cut
          obtain ⟨hwaiting, hmore, -⟩ := Bytes.cutLine?_eq_some hcut
          obtain ⟨-, -, hlines⟩ := Bytes.cutLine?_eq_some (hmore rest)
          rw [hbytes] at hlines
          refine ⟨⟨waiting, some file⟩, fs, waiting ++ rest, ?_, ⟨rfl, rest, hremains, rfl⟩, ?_,
            ?_, .refl ..⟩
          · rw [hlines]
            rfl
          · rw [hlines, List.tail_cons]
          · rw [← hbytes, hwaiting]
            simp only [List.length_append]
            omega
      | none =>
          obtain ⟨fs₁, hread, hremains₁, hsame₁⟩ := hremains.read chunk
          simp only [FileTask.bind_eq]
          rw [run_bind_of_run ((run_read file chunk fs).trans hread)]
          by_cases hend : rest = []
          · subst hend
            rw [List.append_nil] at hbytes
            subst hbytes
            refine ⟨r.takeRest.1, fs₁, [], ?_, ⟨hsource, [], ?_, rfl⟩, ?_, Nat.zero_le _, hsame₁⟩
            · rw [← takeRest_snd hcut]
              rfl
            · simpa using hremains₁
            · rw [tail_toLines hcut]
              rfl
          · have hgiven : (rest.take chunk).isEmpty = false := by
              simp [hend, Nat.ne_of_gt chunk_pos]
            have hbytes₁ : r.waiting ++ rest.take chunk ++ rest.drop chunk = bytes := by
              rw [List.append_assoc, List.take_append_drop, hbytes]
            have hchunks₁ : (rest.drop chunk).length < chunks := by
              have hshorter := length_drop_chunk hend
              omega
            obtain ⟨r', fs', left, hrun, hleft, hlines, hlength, hsame⟩ :=
              @ih fs₁ ⟨r.waiting ++ rest.take chunk, some file⟩ _ rfl hremains₁ hbytes₁ hchunks₁
            refine ⟨r', fs', left, ?_, hleft, hlines, hlength, hsame₁.trans hsame⟩
            simp only [hgiven, Bool.false_eq_true, if_false]
            exact hrun

/-- With enough chunks the first line is given, and the others are left. -/
theorem Left.next {r : LineReader} {bytes : Bytes} (h : r.Left fs file place bytes)
    {chunks : Nat} (hchunks : bytes.length < chunks) :
    ∃ r' fs' left, (r.next chunks).run fs = ((r', .ok bytes.toLines.head?), fs') ∧
      r'.Left fs' file place left ∧ left.toLines = bytes.toLines.tail ∧
      left.length ≤ bytes.length ∧ SameBut file [] fs fs' := by
  obtain ⟨rest, hremains, hbytes⟩ := h.rest
  refine next_run h.source hremains hbytes ?_
  rw [← hbytes, List.length_append] at hchunks
  omega

end LineReader

namespace BufferedWriter

variable {w : BufferedWriter} {bytes : Bytes}

/-- Whatever has been sent to an open file, the next piece is taken and counts as sent. -/
def Accepts (file : FileId) (Sent : Bytes → FileSpace → Prop) : Prop :=
  ∀ sent fs, Sent sent fs → ∀ more, ∃ fs', fs.write file more = (.ok (), fs') ∧
    Sent (sent ++ more) fs'

/-- What has been sent and the bytes that wait make up what has been written. -/
def Stands (w : BufferedWriter) (Sent : Bytes → FileSpace → Prop) (fs : FileSpace)
    (bytes : Bytes) : Prop :=
  ∃ sent, Sent sent fs ∧ sent ++ w.pending = bytes

variable {Sent : Bytes → FileSpace → Prop}

theorem Stands.flush (haccepts : Accepts w.file Sent) (h : w.Stands Sent fs bytes) :
    ∃ fs', w.flush.run fs = (({ w with pending := [] }, .ok ()), fs') ∧ Sent bytes fs' := by
  obtain ⟨sent, hsent, rfl⟩ := h
  unfold BufferedWriter.flush
  cases hpending : w.pending with
  | nil =>
      have hw : w = { w with pending := [] } := by rw [← hpending]
      refine ⟨fs, ?_, by simpa using hsent⟩
      rw [← hw]
      rfl
  | cons b pending =>
      obtain ⟨fs', hwrite, hsent'⟩ := haccepts sent fs hsent (b :: pending)
      refine ⟨fs', ?_, hsent'⟩
      simp only [List.isEmpty_cons, Bool.false_eq_true, if_false, FileTask.bind_eq]
      rw [run_bind_of_run ((run_write w.file _ fs).trans hwrite)]
      rfl

theorem Stands.put (haccepts : Accepts w.file Sent) (h : w.Stands Sent fs bytes) {more : Bytes}
    (hroom : w.pending = [] ∨ w.pending.length + more.length ≤ capacity) :
    ∃ w' fs', (w.place more).run fs = ((w', .ok ()), fs') ∧ w'.file = w.file ∧
      w'.Stands Sent fs' (bytes ++ more) := by
  obtain ⟨sent, hsent, rfl⟩ := h
  unfold BufferedWriter.place
  by_cases hsmall : more.length < capacity
  · rw [if_pos hsmall]
    exact ⟨{ w with pending := w.pending ++ more }, fs, rfl, rfl, sent, hsent, by simp⟩
  · have hempty : w.pending = [] := by
      rcases hroom with hempty | hroom
      · exact hempty
      · exact List.length_eq_zero_iff.mp (by omega)
    obtain ⟨fs', hwrite, hsent'⟩ := haccepts sent fs hsent more
    rw [if_neg hsmall]
    refine ⟨w, fs', ?_, rfl, sent ++ more, hsent', by simp [hempty]⟩
    simp only [FileTask.bind_eq]
    rw [run_bind_of_run ((run_write w.file _ fs).trans hwrite)]
    rfl

/-- A piece goes behind what has been written, by way of the buffer or past it. -/
theorem Stands.write (haccepts : Accepts w.file Sent) (h : w.Stands Sent fs bytes)
    (more : Bytes) : ∃ w' fs', (w.write more).run fs = ((w', .ok ()), fs') ∧ w'.file = w.file ∧
      w'.Stands Sent fs' (bytes ++ more) := by
  unfold BufferedWriter.write
  by_cases hroom : w.pending.length + more.length ≤ capacity
  · rw [if_pos hroom]
    exact h.put haccepts (.inr hroom)
  · obtain ⟨fs₁, hflush, hsent⟩ := h.flush haccepts
    let flushed : BufferedWriter := { w with pending := [] }
    have hflushed : flushed.Stands Sent fs₁ bytes := ⟨bytes, hsent, List.append_nil bytes⟩
    have hempty : flushed.pending = [] := rfl
    obtain ⟨w', fs', hput, hfile, hstands⟩ :=
      @Stands.put fs₁ flushed bytes Sent haccepts hflushed more (.inl hempty)
    refine ⟨w', fs', ?_, hfile, hstands⟩
    rw [if_neg hroom, FileTask.bind_eq, run_bind_of_run hflush]
    exact hput

theorem Stands.release (haccepts : Accepts w.file Sent) (h : w.Stands Sent fs bytes) :
    ∃ fs', w.release.run fs = (.ok (), fs') ∧ Sent bytes fs' := by
  obtain ⟨fs', hflush, hsent⟩ := h.flush haccepts
  refine ⟨fs', ?_, hsent⟩
  unfold BufferedWriter.release
  rw [FileTask.bind_eq, run_bind_of_run hflush]
  rfl

/-- The file at the place and the bytes that wait make up what has been written. -/
def Holds (w : BufferedWriter) (fs : FileSpace) (place : Location) (bytes : Bytes) : Prop :=
  ∃ content, fs.AtEnd w.file place content ∧ content ++ w.pending = bytes

theorem Holds.of_same {fs' : FileSpace} (h : w.Holds fs place bytes)
    (hopened : fs'.opened[w.file]? = fs.opened[w.file]?)
    (hentry : fs'.entry? place = fs.entry? place) : w.Holds fs' place bytes := by
  obtain ⟨content, hend, hbytes⟩ := h
  exact ⟨content, hend.of_same hopened hentry, hbytes⟩

/-- What is sent to the end of a file goes to no other one. -/
theorem accepts_atEnd (file : FileId) (place : Location) (origin : FileSpace) :
    Accepts file fun content fs => fs.AtEnd file place content ∧ SameBut file [place] origin fs := by
  intro content fs hsent more
  obtain ⟨fs', hwrite, hend, hsame⟩ := hsent.1.write more
  exact ⟨fs', hwrite, hend, hsent.2.trans hsame⟩

theorem Holds.stands (h : w.Holds fs place bytes) : w.Stands
    (fun content fs' => fs'.AtEnd w.file place content ∧ SameBut w.file [place] fs fs') fs bytes := by
  obtain ⟨content, hend, hbytes⟩ := h
  exact ⟨content, ⟨hend, .refl ..⟩, hbytes⟩

theorem Holds.release (h : w.Holds fs place bytes) :
    ∃ fs', w.release.run fs = (.ok (), fs') ∧ fs'.entry? place = some (.regular bytes) ∧
      SameBut w.file [place] fs fs' := by
  obtain ⟨fs', hrun, hend, hsame⟩ := h.stands.release (accepts_atEnd w.file place fs)
  exact ⟨fs', hrun, hend.entry, hsame⟩

end BufferedWriter
end RuleDesk
