import RuleDesk.Proofs.Capture.Trace
import RuleDesk.Proofs.Json.Printing
import Mathlib.Tactic.ByContra

/-!
# Replaying what a replay has written

A replay writes the data of a record as one line, whatever the line was like that held the record.
As long as the data has no floats, that line can be made a capture of again: its data is the same.
-/
namespace RuleDesk

/-- A blank is nothing in front of a token, or not allowed there. -/
theorem Json.Lexer.start_of_blank {c : Char} (hc : isBlank c = true) :
    start c = some ([], .between) ∨ start c = none := by
  have hother : ∀ d : Char, isBlank d = false → c ≠ d := by
    rintro d hd rfl
    rw [hd] at hc
    cases hc
  unfold start
  split
  · exact .inl rfl
  · have hnumber : ¬((c.isDigit || decide (c = '-')) = true) := by
      simp [not_digit_of_blank hc, hother '-' rfl]
    rw [if_neg (hother '[' rfl), if_neg (hother ']' rfl), if_neg (hother '\x7b' rfl),
      if_neg (hother '\x7d' rfl), if_neg (hother ':' rfl), if_neg (hother ',' rfl),
      if_neg (hother '"' rfl), if_neg hnumber, not_lower_of_blank hc]
    exact .inr rfl

theorem Json.Lexer.run_of_blank {cs : List Char} (hcs : ∀ c ∈ cs, isBlank c = true) :
    run [] .between cs = some [] ∨ run [] .between cs = none := by
  induction cs with
  | nil => exact .inl rfl
  | cons c cs ih =>
      rw [List.forall_mem_cons] at hcs
      rw [run, step]
      obtain hstart | hstart := start_of_blank hcs.1
      · rw [hstart]
        exact ih hcs.2
      · rw [hstart]
        exact .inr rfl

namespace CaptureRecord

theorem parse?_of_blank {line : String} (h : Text.isBlankText line = true) :
    parse? line = none := by
  have hblank : ∀ c ∈ line.toList, isBlank c = true := by simpa [Text.isBlankText] using h
  have htree : Json.Tree.parse? line = none := by
    obtain hrun | hrun := Json.Lexer.run_of_blank hblank
    · rw [Json.Tree.parse?, Json.tokens?, hrun]
      rfl
    · rw [Json.Tree.parse?, Json.tokens?, hrun]
      rfl
  rw [parse?, htree]
  rfl

/-- The data of a record is read with room for one level less than its line. -/
theorem exists_tree_of_parse? {line : String} {record : CaptureRecord}
    (h : parse? line = some record) :
    ∃ t, Json.Value.ofTree? (Json.depthLimit - 1) t = some record.data := by
  unfold parse? at h
  obtain ⟨tree, -, h⟩ := Option.bind_eq_some_iff.mp h
  obtain ⟨fields, -, h⟩ := Option.bind_eq_some_iff.mp h
  split at h
  · next data =>
      obtain ⟨value, hvalue, h⟩ := Option.bind_eq_some_iff.mp h
      obtain rfl := Option.some.inj h
      exact ⟨data, hvalue⟩
  · next data matched =>
      obtain ⟨value, hvalue, h⟩ := Option.bind_eq_some_iff.mp h
      obtain ⟨ids, -, h⟩ := Option.bind_eq_some_iff.mp h
      obtain rfl := Option.some.inj h
      exact ⟨data, hvalue⟩
  · cases h

/-- A line with nothing but data is read as a record of the data that matched no rule. -/
theorem parse?_data {v : Json.Value} (h : v.Rereads (Json.depthLimit - 1)) :
    parse? ("\x7b\"data\": " ++ v.text ++ "\x7d") = some { data := v } := by
  obtain ⟨t, hspells, ht⟩ := h
  obtain ⟨key, hname, hkey⟩ := Json.exists_spells_quote "data"
  have hquote : Json.quote "data" = "\"data\"" := by decide
  have hopen : Json.Lexer.start '\x7b' = some ([.openObject], .between) := rfl
  have hcolon : Json.Lexer.start ':' = some ([.colon], .between) := rfl
  have hspace : Json.Lexer.start ' ' = some ([], .between) := rfl
  have hclose : Json.Spells ['\x7d'] [.closeObject] := Json.spells_punctuation rfl (by decide)
  have hvalue := hspells.append hclose (Json.ends_cons rfl rfl []) (by simp)
  have hmember := hkey.append (.cons hcolon (by decide) (.cons hspace (by decide) hvalue))
    (Json.ends_cons rfl rfl _) (by simp)
  have hline := Json.Spells.cons hopen (by decide) hmember
  have htree : Json.Tree.parse? ("\x7b\"data\": " ++ v.text ++ "\x7d") =
      some (.object [(key, t)]) := by
    apply Json.Spells.parse?
    rw [Json.Tree.tokens, Json.Tree.laterMembers]
    rw [hquote] at hline
    simpa using hline
  have hfields : (Json.Tree.object [(key, t)]).fields? ["data", "matching_rules"] =
      some [some t, none] := by
    simp [Json.Tree.fields?, Json.namedMembers?, hname, Json.fieldOnce?]
  rw [parse?, htree]
  simp [hfields, ht]

end CaptureRecord

section Lines

variable {record : String}

/-- A record without a line feed is one line of its file, wherever lines begin in it. -/
theorem FileSink.toLines_lineOf (h : '\n' ∉ record.toList) {front : Bytes}
    (hfront : front = [] ∨ ∃ earlier, front = earlier ++ [10]) (back : Bytes) :
    (front ++ lineOf record ++ back).toLines = front.toLines ++ lineOf record :: back.toLines := by
  have hfeed : Bytes.ofText "\n" = [10] := by rfl
  have hrecord : 10 ∉ Bytes.ofText record := Bytes.lineFeed_not_mem_encode h
  have hline : (lineOf record ++ back).toLines = lineOf record :: back.toLines := by
    rw [lineOf, hfeed, List.append_assoc, List.singleton_append, Bytes.toLines_append hrecord]
  obtain rfl | ⟨earlier, rfl⟩ := hfront
  · exact hline
  · rw [List.append_assoc, List.append_assoc, List.singleton_append, Bytes.toLines_append_feed,
      hline]

/-- Nothing of a record without control characters is taken for the end of its line. -/
theorem Replay.lineText?_lineOf (h : ∀ c ∈ record.toList, 0x20 ≤ c.toNat) :
    lineText? (FileSink.lineOf record) = some record := by
  have hreturn : record.toList.getLast? ≠ some '\r' := fun hlast =>
    absurd (h '\r' (List.mem_of_getLast? hlast)) (by decide)
  have hline : FileSink.lineOf record =
      record.toList.flatMap String.utf8EncodeChar ++ [10] := rfl
  rw [hline, lineText?_ended, Text.dropReturn, if_neg hreturn, String.ofList_toList]

end Lines

namespace CaptureRecord

/-- A line that holds a record without floats in its data: what a replay writes of it, to each of
the record's handles, is the text of the data, which is one line of any file and is read from it as
it is. And as the data of a line of its own it is read as the same data again, with no matched
rules, and has the same text. -/
theorem printed_data_reads_back {line : String} {record : CaptureRecord}
    (hparse : parse? line = some record)
    (hintegers : ∀ n ∈ record.data.numbers, n.isInteger = true) :
    let printed := record.data.text
    (∀ table : RoutingTable, Replay.trace table [line] =
        (table.targets record.matched).map fun handle => (handle, printed)) ∧
      '\n' ∉ printed.toList ∧
      (∀ front back : Bytes, (front = [] ∨ ∃ earlier, front = earlier ++ [10]) →
        (front ++ FileSink.lineOf printed ++ back).toLines =
          front.toLines ++ FileSink.lineOf printed :: back.toLines) ∧
      Replay.lineText? (FileSink.lineOf printed) = some printed ∧
      ∃ again, parse? ("\x7b\"data\": " ++ printed ++ "\x7d") = some again ∧
        again.matched = [] ∧ again.data = record.data ∧ again.data.text = printed := by
  intro printed
  obtain ⟨t, ht⟩ := exists_tree_of_parse? hparse
  have hreread := (Json.Value.fits_of_ofTree? ht).rereads hintegers
  have hprintable : ∀ c ∈ printed.toList, 0x20 ≤ c.toNat := by
    obtain ⟨_, hspells, -⟩ := hreread
    exact hspells.printable
  have hfeed : '\n' ∉ printed.toList := fun hmem => absurd (hprintable '\n' hmem) (by decide)
  refine ⟨fun table => ?_, hfeed,
    fun front back hfront => FileSink.toLines_lineOf hfeed hfront back,
    Replay.lineText?_lineOf hprintable, _, parse?_data hreread, rfl, rfl, rfl⟩
  have hblank : Text.isBlankText line = false := by
    by_contra hblank
    rw [parse?_of_blank (Bool.not_eq_false _ ▸ hblank)] at hparse
    cases hparse
  simp [Replay.trace, Replay.records, Replay.record?, hblank, hparse, RoutingTable.targets_eq,
    printed]

/-- A record in the form of an array, with names that are repeated and out of order, escapes, and
the least and the greatest integer. -/
theorem printed_data_reads_back_awkward :
    let line := "[\x7b\"b\": 1, \"a\\u000a\": \"\\ud83d\\ude00\\u0001\\/\", \"b\": " ++
      "[18446744073709551615, -9223372036854775808, null, \x7b\x7d]\x7d, [[\"7\"]]]"
    let printed := "\x7b\"a\\n\":\"😀\\u0001/\",\"b\":" ++
      "[18446744073709551615,-9223372036854775808,null,\x7b\x7d]\x7d"
    ∃ record, parse? line = some record ∧
      (∀ n ∈ record.data.numbers, n.isInteger = true) ∧ record.data.text = printed ∧
      record.matched = ["7"] ∧
      ∃ again, parse? ("\x7b\"data\": " ++ printed ++ "\x7d") = some again ∧
        again.matched = [] ∧ again.data = record.data ∧ again.data.text = printed := by
  intro line printed
  have hheld : (parse? line).any (fun record => record.data.numbers.all (·.isInteger) &&
      record.data.text == printed && record.matched == ["7"]) = true := by
    decide +kernel
  cases hparse : parse? line with
  | none =>
      rw [hparse] at hheld
      cases hheld
  | some record =>
      rw [hparse, Option.any_some] at hheld
      simp only [Bool.and_eq_true, List.all_eq_true, beq_iff_eq] at hheld
      obtain ⟨⟨hintegers, hprinted⟩, hmatched⟩ := hheld
      obtain ⟨-, -, -, -, hagain⟩ := printed_data_reads_back hparse hintegers
      rw [hprinted] at hagain
      exact ⟨record, rfl, hintegers, hprinted, hmatched, hagain⟩

end CaptureRecord
end RuleDesk
