import RuleDesk.Proofs.Json.Lexing
import RuleDesk.Json.Syntax

/-!
# The tokens of a structure

A structure has the tokens of its parts between those of its brackets and commas. The reader makes
it of them again, in whatever array or object it is in the middle of.
-/
namespace RuleDesk.Json

namespace Tree

mutual

/-- The tokens of a structure without blanks. -/
def tokens : Tree → List Token
  | .null => [.null]
  | .bool b => [.bool b]
  | .number l => [.number l]
  | .string s => [.string s]
  | .array [] => [.openArray, .closeArray]
  | .array (item :: items) => .openArray :: (tokens item ++ laterItems items)
  | .object [] => [.openObject, .closeObject]
  | .object ((key, value) :: members) =>
    .openObject :: .string key :: .colon :: (tokens value ++ laterMembers members)

/-- The tokens behind an item of an array, its end included. -/
def laterItems : List Tree → List Token
  | [] => [.closeArray]
  | item :: items => .comma :: (tokens item ++ laterItems items)

/-- The tokens behind a member of an object, its end included. -/
def laterMembers : List (RawText × Tree) → List Token
  | [] => [.closeObject]
  | (key, value) :: members =>
    .comma :: .string key :: .colon :: (tokens value ++ laterMembers members)

end

end Tree

namespace TreeReader

/-- Where a value is due, any token but the end of an array is taken as one. -/
theorem step_value {r : TreeReader} (hr : r.awaiting = .value ∨ r.awaiting = .valueOrClose)
    {token : Token} (htoken : token ≠ .closeArray) : r.step token = r.takeValue token := by
  obtain ⟨frames, awaiting⟩ := r
  obtain rfl | rfl := hr
  · rfl
  · exact if_neg htoken

mutual

/-- A value is read where one is due and put where it belongs. -/
theorem run_tokens (t : Tree) (r : TreeReader)
    (hr : r.awaiting = .value ∨ r.awaiting = .valueOrClose) (rest : List Token) :
    r.run (t.tokens ++ rest) = (put t r.openFrames).bind (·.run rest) := by
  match t with
  | .null =>
      rw [Tree.tokens, List.singleton_append, run, step_value hr (by simp)]
      rfl
  | .bool b =>
      rw [Tree.tokens, List.singleton_append, run, step_value hr (by simp)]
      rfl
  | .number l =>
      rw [Tree.tokens, List.singleton_append, run, step_value hr (by simp)]
      rfl
  | .string s =>
      rw [Tree.tokens, List.singleton_append, run, step_value hr (by simp)]
      rfl
  | .array [] =>
      rw [Tree.tokens, List.cons_append, run, step_value hr (by simp)]
      rfl
  | .array (item :: items) =>
      rw [Tree.tokens, List.cons_append, run, step_value hr (by simp), List.append_assoc]
      change TreeReader.run ⟨.array [] :: r.openFrames, .valueOrClose⟩ _ = _
      rw [run_tokens item _ (.inr rfl)]
      exact run_laterItems items [item] r.openFrames rest
  | .object [] =>
      rw [Tree.tokens, List.cons_append, run, step_value hr (by simp)]
      rfl
  | .object ((key, value) :: members) =>
      rw [Tree.tokens, List.cons_append, run, step_value hr (by simp), List.cons_append,
        List.cons_append, List.append_assoc]
      change TreeReader.run ⟨.member [] key :: r.openFrames, .value⟩ _ = _
      rw [run_tokens value _ (.inl rfl)]
      exact run_laterMembers members [(key, value)] r.openFrames rest

theorem run_laterItems (items done : List Tree) (outer : List Frame) (rest : List Token) :
    run ⟨.array done :: outer, .commaOrClose⟩ (Tree.laterItems items ++ rest) =
      (put (.array (done.reverse ++ items)) outer).bind (·.run rest) := by
  match items with
  | [] =>
      rw [Tree.laterItems, List.append_nil]
      rfl
  | item :: items =>
      rw [Tree.laterItems, List.cons_append, List.append_assoc]
      change TreeReader.run ⟨.array done :: outer, .value⟩ _ = _
      rw [run_tokens item _ (.inl rfl)]
      have hlater := run_laterItems items (item :: done) outer rest
      rw [List.reverse_cons, List.append_assoc, List.singleton_append] at hlater
      exact hlater

theorem run_laterMembers (members done : List (RawText × Tree)) (outer : List Frame)
    (rest : List Token) :
    run ⟨.object done :: outer, .commaOrClose⟩ (Tree.laterMembers members ++ rest) =
      (put (.object (done.reverse ++ members)) outer).bind (·.run rest) := by
  match members with
  | [] =>
      rw [Tree.laterMembers, List.append_nil]
      rfl
  | (key, value) :: members =>
      rw [Tree.laterMembers, List.cons_append, List.cons_append, List.cons_append,
        List.append_assoc]
      change TreeReader.run ⟨.member done key :: outer, .value⟩ _ = _
      rw [run_tokens value _ (.inl rfl)]
      have hlater := run_laterMembers members ((key, value) :: done) outer rest
      rw [List.reverse_cons, List.append_assoc, List.singleton_append] at hlater
      exact hlater

end

end TreeReader

/-- A text that spells a structure is read as it. -/
theorem Spells.parse? {text : String} {t : Tree} (h : Spells text.toList t.tokens) :
    Tree.parse? text = some t := by
  have htokens : tokens? text = some t.tokens := by
    have hrun := h.run [] [] (by simp [Ends])
    simp only [List.append_nil] at hrun
    rw [tokens?, hrun]
    simp [Lexer.run, Lexer.finish]
  have hread : TreeReader.run {} t.tokens = some ⟨[], .nothing t⟩ := by
    have hrun := TreeReader.run_tokens t {} (.inl rfl) []
    rw [List.append_nil] at hrun
    rw [hrun]
    rfl
  rw [Tree.parse?, htokens]
  simp [hread]

end RuleDesk.Json
