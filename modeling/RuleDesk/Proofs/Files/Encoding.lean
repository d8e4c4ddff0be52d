import RuleDesk.Capture.Replay
import RuleDesk.Proofs.Files.ByteLines
import RuleDesk.Text.Lines
import Mathlib.Data.List.Basic

/-!
# Texts in bytes

Bytes are a text exactly if they are its encoding. A byte below 128 in an encoding
stands for its character alone, so the line feeds of the bytes are those of the
text, and the lines of the bytes, without their ends, are the lines of the text.
-/
namespace RuleDesk
namespace Bytes

@[simp] theorem ofText_ofList (cs : List Char) :
    ofText (String.ofList cs) = cs.flatMap String.utf8EncodeChar := by
  rw [ofText, String.toList_ofList]

@[simp] theorem ofText_append (s t : String) : ofText (s ++ t) = ofText s ++ ofText t := by
  simp [ofText]

theorem toByteArray_ofText (s : String) : (ofText s).toByteArray = s.toByteArray :=
  String.utf8Encode_toList

theorem text?_ofText (s : String) : text? (ofText s) = some s := by
  unfold text? String.fromUTF8?
  rw [toByteArray_ofText]
  exact dif_pos s.isValidUTF8

theorem text?_eq_some_iff {b : Bytes} {s : String} : text? b = some s ↔ b = ofText s := by
  constructor
  · intro h
    unfold text? String.fromUTF8? at h
    split at h
    · have hbytes : b.toByteArray = (ofText s).toByteArray := by
        rw [toByteArray_ofText, ← Option.some.inj h]
        rfl
      have hlists := congrArg (fun bytes => bytes.data.toList) hbytes
      simpa only [List.toList_data_toByteArray] using hlists
    · cases h
  · rintro rfl
    exact text?_ofText s

/-- A small byte is a character of its own. -/
theorem toNat_of_mem_encodeChar {c : Char} {b : UInt8} (hb : b.toNat < 128)
    (h : b ∈ String.utf8EncodeChar c) : c.toNat = b.toNat := by
  have hsize : c.toNat = c.val.toNat := rfl
  unfold String.utf8EncodeChar at h
  dsimp only at h
  split at h
  · simp only [List.mem_singleton] at h
    subst h
    rw [UInt8.toNat_ofNat', hsize]
    omega
  · exfalso
    split at h
    · simp only [List.mem_cons, List.not_mem_nil, or_false] at h
      rcases h with rfl | rfl <;> rw [UInt8.toNat_ofNat'] at hb <;> omega
    · split at h
      · simp only [List.mem_cons, List.not_mem_nil, or_false] at h
        rcases h with rfl | rfl | rfl <;> rw [UInt8.toNat_ofNat'] at hb <;> omega
      · simp only [List.mem_cons, List.not_mem_nil, or_false] at h
        rcases h with rfl | rfl | rfl | rfl <;> rw [UInt8.toNat_ofNat'] at hb <;> omega

theorem eq_of_mem_encodeChar {c d : Char} {b : UInt8} (hd : String.utf8EncodeChar d = [b])
    (hb : b.toNat < 128) (h : b ∈ String.utf8EncodeChar c) : c = d := by
  have hc := toNat_of_mem_encodeChar hb h
  have hsame := toNat_of_mem_encodeChar hb (hd ▸ List.mem_singleton_self b)
  exact Char.toNat_inj.mp (hc.trans hsame.symm)

theorem lineFeed_not_mem_encode {cs : List Char} (h : '\n' ∉ cs) :
    10 ∉ cs.flatMap String.utf8EncodeChar := by
  intro hmem
  obtain ⟨c, hc, hbyte⟩ := List.mem_flatMap.mp hmem
  obtain rfl := @eq_of_mem_encodeChar c '\n' 10 rfl (by decide) hbyte
  exact h hc

/-- The last byte is a carriage return if the last character is. -/
theorem getLast?_encode_eq_return {cs : List Char} :
    (cs.flatMap String.utf8EncodeChar).getLast? = some 13 ↔ cs.getLast? = some '\r' := by
  rcases List.eq_nil_or_concat cs with rfl | ⟨front, last, rfl⟩
  · simp
  · rw [List.concat_eq_append, List.flatMap_append, List.flatMap_singleton,
      List.getLast?_append_of_ne_nil _ String.utf8EncodeChar_ne_nil, List.getLast?_concat]
    constructor
    · intro h
      rw [@eq_of_mem_encodeChar last '\r' 13 rfl (by decide) (List.mem_of_getLast? h)]
    · intro h
      rw [Option.some.inj h]
      rfl

theorem dropReturn_encode (cs : List Char) :
    (if (cs.flatMap String.utf8EncodeChar).getLast? = some 13
      then (cs.flatMap String.utf8EncodeChar).dropLast
      else cs.flatMap String.utf8EncodeChar) =
      ofText (String.ofList (Text.dropReturn cs)) := by
  rw [ofText_ofList, Text.dropReturn]
  by_cases hreturn : cs.getLast? = some '\r'
  · obtain ⟨front, rfl⟩ := List.getLast?_eq_some_iff.mp hreturn
    have hencoded : String.utf8EncodeChar '\r' = [13] := rfl
    rw [if_pos (getLast?_encode_eq_return.mpr hreturn), if_pos hreturn, List.dropLast_concat,
      List.flatMap_append, List.flatMap_singleton, hencoded, List.dropLast_concat]
  · rw [if_neg (mt getLast?_encode_eq_return.mp hreturn), if_neg hreturn]

end Bytes

namespace Replay

open Bytes

/-- A line with its line feed. -/
theorem lineText?_ended (cs : List Char) :
    lineText? (cs.flatMap String.utf8EncodeChar ++ [10]) =
      some (String.ofList (Text.dropReturn cs)) := by
  unfold lineText?
  simp only [List.getLast?_concat, if_true, List.dropLast_concat]
  rw [dropReturn_encode, text?_ofText]

/-- The last line may lack its line feed, and then a carriage return at its end stays. -/
theorem lineText?_open {cs : List Char} (h : '\n' ∉ cs) :
    lineText? (cs.flatMap String.utf8EncodeChar) = some (String.ofList cs) := by
  have hlast : (cs.flatMap String.utf8EncodeChar).getLast? ≠ some 10 := fun hlast =>
    lineFeed_not_mem_encode h (List.mem_of_getLast? hlast)
  unfold lineText?
  simp only [if_neg hlast]
  rw [← ofText_ofList, text?_ofText]

theorem lineText?_pieces (cs : List Char) :
    (toLines (cs.flatMap String.utf8EncodeChar)).map lineText? =
      (Text.linesOfPieces (cs.splitOn '\n')).map some := by
  by_cases hfeed : '\n' ∈ cs
  · obtain ⟨first, later, hsplit, hfirst⟩ := List.eq_append_cons_of_mem hfeed
    have hshorter : later.length < cs.length := by simp [hsplit]; omega
    have hencoded : cs.flatMap String.utf8EncodeChar =
        first.flatMap String.utf8EncodeChar ++ 10 :: later.flatMap String.utf8EncodeChar := by
      rw [hsplit, List.flatMap_append, List.flatMap_cons]
      rfl
    have hpieces : Text.linesOfPieces (cs.splitOn '\n') =
        String.ofList (Text.dropReturn first) :: Text.linesOfPieces (later.splitOn '\n') := by
      rw [hsplit, List.splitOn_append_cons_self_of_not_mem hfirst]
      obtain ⟨piece, pieces, hcons⟩ := List.exists_cons_of_ne_nil (List.splitOn_ne_nil '\n' later)
      rw [hcons, Text.linesOfPieces]
      simp
    rw [hencoded, toLines_append (lineFeed_not_mem_encode hfirst), List.map_cons,
      lineText?_ended, hpieces, List.map_cons, lineText?_pieces later]
  · rw [toLines_of_not_mem (lineFeed_not_mem_encode hfeed), List.splitOn_eq_singleton hfeed,
      Text.linesOfPieces]
    cases cs with
    | nil => rfl
    | cons c cs =>
        have hnonempty : ((c :: cs).flatMap String.utf8EncodeChar).isEmpty = false := by simp
        simp only [hnonempty, List.isEmpty_cons, Bool.false_eq_true, if_false, List.map_cons,
          List.map_nil, lineText?_open hfeed]
termination_by cs.length

/-- The lines of encoded bytes are the lines of the text. -/
theorem map_lineText?_toLines {content : Bytes} {text : String}
    (h : content.text? = some text) :
    content.toLines.map lineText? = (Text.lines text).map some := by
  rw [text?_eq_some_iff.mp h, ofText, Text.lines, lineText?_pieces]

end Replay
end RuleDesk
