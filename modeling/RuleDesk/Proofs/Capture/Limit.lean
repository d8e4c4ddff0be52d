import RuleDesk.Proofs.Capture.Trace

/-!
# Replays with a limit

A limit cuts the capture off behind the line that holds the last record it allows. The
replay is that of the lines in front of the cut, and what stands behind the cut, texts or
not, has no part in it.
-/
namespace RuleDesk.Replay

/-- Whether a line is a text that holds a record. -/
def holdsRecord (line : Bytes) : Bool :=
  (lineText? line).any isRecord

/-- The lines up to the one with the `n`-th record; all of them if they hold fewer. -/
def upTo : Nat → List Bytes → List Bytes
  | 0, _ => []
  | _ + 1, [] => []
  | n + 1, line :: lines => line :: upTo (if holdsRecord line then n else n + 1) lines

section Cut

variable {n : Nat} {lines front : List Bytes}

@[simp] theorem upTo_zero (lines : List Bytes) : upTo 0 lines = [] := by
  cases lines <;> rfl

@[simp] theorem upTo_nil (n : Nat) : upTo n [] = [] := by
  cases n <;> rfl

theorem upTo_begins (n : Nat) (lines : List Bytes) : upTo n lines <+: lines := by
  induction lines generalizing n with
  | nil => simp
  | cons line lines ih =>
      cases n with
      | zero => exact List.nil_prefix
      | succ n => exact (List.prefix_cons_inj line).mpr (ih _)

theorem countP_upTo (n : Nat) (lines : List Bytes) :
    (upTo n lines).countP holdsRecord = min n (lines.countP holdsRecord) := by
  induction lines generalizing n with
  | nil => simp
  | cons line lines ih =>
      cases n with
      | zero => simp [upTo]
      | succ n =>
          rw [upTo, List.countP_cons, List.countP_cons, ih]
          split <;> omega

theorem upTo_of_countP_lt (h : lines.countP holdsRecord < n) : upTo n lines = lines := by
  induction lines generalizing n with
  | nil => simp
  | cons line lines ih =>
      cases n with
      | zero => cases h
      | succ n =>
          rw [List.countP_cons] at h
          rw [upTo, ih]
          split <;> simp_all

/-- What stands behind enough records does not move the cut. -/
theorem upTo_append (h : n ≤ front.countP holdsRecord) (rest : List Bytes) :
    upTo n (front ++ rest) = upTo n front := by
  induction front generalizing n with
  | nil =>
      obtain rfl : n = 0 := by simpa using h
      simp
  | cons line front ih =>
      cases n with
      | zero => rfl
      | succ n =>
          rw [List.countP_cons] at h
          rw [List.cons_append, upTo, upTo, ih]
          split <;> simp_all

theorem upTo_shortest (hfront : front <+: lines) (h : n ≤ front.countP holdsRecord) :
    upTo n lines <+: front := by
  obtain ⟨rest, rfl⟩ := hfront
  rw [upTo_append h]
  exact upTo_begins n front

/-- Lines that agree up to the cut have it in the same place. -/
theorem upTo_eq_of_begins (h : n ≤ lines.countP holdsRecord) {others : List Bytes}
    (hfront : upTo n lines <+: others) : upTo n others = upTo n lines := by
  have hcount : n ≤ (upTo n lines).countP holdsRecord := by
    rw [countP_upTo]
    exact Nat.le_min.mpr ⟨Nat.le_refl n, h⟩
  obtain ⟨later, hlater⟩ := upTo_begins n lines
  obtain ⟨rest, rfl⟩ := hfront
  rw [upTo_append hcount, ← upTo_append hcount later, hlater]

end Cut

variable {ρ : Type} [RecordSink ρ] {table : RoutingTable}

theorem counts_singleton_records (line : String) :
    (counts table [line]).records = if isRecord line then 1 else 0 := by
  simp [counts, List.countP_cons]

/-- With room for `n` more records, the lines up to the `n`-th one are handled. -/
theorem takeLines_limit (source : String) (n : Nat) (lines : List Bytes) (sink : ρ)
    (stats : ReplayStats) :
    takeLines source table (some (stats.records + n)) lines sink stats =
      takeLines source table none (upTo n lines) sink stats := by
  induction lines generalizing n sink stats with
  | nil => rw [upTo_nil, takeLines, takeLines]
  | cons line lines ih =>
      cases n with
      | zero => simp [upTo, takeLines, reached]
      | succ n =>
          rw [upTo, takeLines, takeLines]
          simp only [reached, Nat.not_le.mpr (Nat.lt_add_of_pos_right n.succ_pos), decide_false,
            Bool.false_eq_true, if_false]
          cases hline : lineText? line with
          | none => rfl
          | some text =>
              -- the room shrinks only where a record is counted, and so does the cut
              have hroom : stats.records + (n + 1) = (stats.add (counts table [text])).records +
                  if holdsRecord line then n else n + 1 := by
                simp only [ReplayStats.add, counts_singleton_records, holdsRecord, hline,
                  Option.any_some]
                split <;> omega
              simp only [takeLine_eq, bind_onOk_assoc, FileTask.done_bind, onOk_ok, hroom, ih]

/-- A replay with a limit is the unlimited replay of whole lines from the front of the
capture: of the fewest that hold as many records as the limit allows, or of all lines if
they hold fewer. Another capture that begins with these lines is replayed in the same way. -/
theorem replay_limit_eq (capture : Bytes) (source : String) (table : RoutingTable) (sink : ρ)
    (limit : Nat) :
    let lines := capture.toLines
    let front := upTo limit lines
    front <+: lines ∧
      (limit ≤ lines.countP holdsRecord → front.countP holdsRecord = limit ∧
        ∀ other, other <+: lines → limit ≤ other.countP holdsRecord → front <+: other) ∧
      (lines.countP holdsRecord < limit → front = lines) ∧
      replayBytes capture source table sink (some limit) =
        replayBytes front.flatten source table sink none ∧
      (limit ≤ lines.countP holdsRecord → ∀ other : Bytes, front <+: other.toLines →
        replayBytes other source table sink (some limit) =
          replayBytes capture source table sink (some limit)) := by
  intro lines front
  have hlimited (capture : Bytes) : replayBytes capture source table sink (some limit) =
      takeLines source table none (upTo limit capture.toLines) sink {} := by
    rw [replayBytes_eq, ← takeLines_limit]
    simp only [Nat.zero_add]
  refine ⟨upTo_begins limit lines, fun henough => ⟨?_, fun other => upTo_shortest⟩,
    upTo_of_countP_lt, ?_, fun henough other hother => ?_⟩
  · rw [countP_upTo, Nat.min_eq_left henough]
  · rw [hlimited, replayBytes_eq, Bytes.toLines_flatten (upTo_begins limit lines)]
  · rw [hlimited, hlimited, upTo_eq_of_begins henough hother]

/-- The limit is reached in front of a line that is no text. -/
theorem replay_limit_eq_before_bad_line :
    let table : RoutingTable := ⟨[("1", [0, 1])]⟩
    let front := Bytes.ofText
      "\x7b\"data\": 5, \"matching_rules\": [\x7b\"id\": \"1\"\x7d]\x7d\n \nno record\n[7, [[\"1\"]]]\n"
    let capture := front ++ [255, 10]
    let replay (capture : Bytes) (limit? : Option Nat) :=
      replayBytes capture "capture" table ({} : Recorder) limit?
    2 ≤ capture.toLines.countP holdsRecord ∧
      replay capture (some 2) = replay front none ∧
      replay front (some 2) = replay capture (some 2) ∧
      (replay capture (some 2)).refused =
        ({ writes := [(0, "5"), (1, "5"), (0, "7"), (1, "7")] }, .ok ⟨2, 4, 1⟩) ∧
      (replay capture none).refused =
        ({ writes := [(0, "5"), (1, "5"), (0, "7"), (1, "7")] },
          .error (.capture "capture" .notText)) := by
  intro table front capture replay
  have henough : 2 ≤ capture.toLines.countP holdsRecord := by decide +kernel
  have hcut : upTo 2 capture.toLines = front.toLines := by decide +kernel
  have hlimit : (replay capture (some 2)).refused =
      ({ writes := [(0, "5"), (1, "5"), (0, "7"), (1, "7")] }, .ok ⟨2, 4, 1⟩) := by
    decide +kernel
  have hwhole : (replay capture none).refused =
      ({ writes := [(0, "5"), (1, "5"), (0, "7"), (1, "7")] },
        .error (.capture "capture" .notText)) := by decide +kernel
  obtain ⟨-, -, -, hlimited, hothers⟩ :=
    replay_limit_eq capture "capture" table ({} : Recorder) 2
  rw [hcut, Bytes.flatten_toLines] at hlimited
  exact ⟨henough, hlimited, hothers henough front (hcut ▸ List.prefix_rfl), hlimit, hwhole⟩

end RuleDesk.Replay
