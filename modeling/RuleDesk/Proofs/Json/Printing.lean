import RuleDesk.Proofs.Json.Strings
import RuleDesk.Proofs.Json.Structure
import RuleDesk.Proofs.Json.Values
import RuleDesk.Proofs.Text.Joined
import Mathlib.Data.List.Forall2

/-!
# Values that are printed

The text of a value without floats spells a structure, and reading makes the value of it again if
the value fits. So what was read and printed is read as the same value.
-/
namespace RuleDesk.Json

namespace Value

mutual

/-- The numbers in a value from left to right. -/
def numbers : Value → List Number
  | null => []
  | bool _ => []
  | number n => [n]
  | string _ => []
  | array items => numbersOfItems items
  | object members => numbersOfMembers members

def numbersOfItems : List Value → List Number
  | [] => []
  | item :: rest => numbers item ++ numbersOfItems rest

def numbersOfMembers : List (String × Value) → List Number
  | [] => []
  | (_, value) :: rest => numbers value ++ numbersOfMembers rest

end

theorem numbersOfItems_eq (items : List Value) : numbersOfItems items = items.flatMap numbers := by
  induction items with
  | nil => rfl
  | cons item items ih => rw [numbersOfItems, ih, List.flatMap_cons]

theorem numbersOfMembers_eq (members : List (String × Value)) :
    numbersOfMembers members = members.flatMap fun m => m.2.numbers := by
  induction members with
  | nil => rfl
  | cons m members ih => rw [numbersOfMembers, ih, List.flatMap_cons]

theorem texts_eq_map (items : List Value) : texts items = items.map text := by
  induction items with
  | nil => rfl
  | cons item items ih => rw [texts, ih, List.map_cons]

theorem memberTexts_eq_map (members : List (String × Value)) :
    memberTexts members = members.map fun m => quote m.1 ++ ":" ++ m.2.text := by
  induction members with
  | nil => rfl
  | cons m members ih => rw [memberTexts, ih, List.map_cons]

/-- What stands behind the first of some parts, up to the end of all of them. -/
def laterText (texts : List (List Char)) (last : Char) : List Char :=
  texts.flatMap (',' :: ·) ++ [last]

/-- The characters of a member. -/
def memberText (m : String × Value) : List Char :=
  (quote m.1).toList ++ ':' :: m.2.text.toList

theorem toList_text_array (item : Value) (items : List Value) :
    (array (item :: items)).text.toList =
      '[' :: (item.text.toList ++ laterText (items.map fun v => v.text.toList) ']') := by
  rw [text, texts_eq_map, List.map_cons, String.toList_append, String.toList_append,
    toList_joined]
  simp [laterText, List.flatMap_map]

theorem toList_text_object (m : String × Value) (members : List (String × Value)) :
    (object (m :: members)).text.toList =
      '\x7b' :: (memberText m ++ laterText (members.map memberText) '\x7d') := by
  rw [text, memberTexts_eq_map, List.map_cons, String.toList_append, String.toList_append,
    toList_joined]
  simp [laterText, memberText, List.flatMap_map]

end Value

namespace Tree

/-- The tokens of a member. -/
def memberTokens (m : RawText × Tree) : List Token :=
  .string m.1 :: .colon :: m.2.tokens

/-- The tokens behind the first of some parts, up to the end of all of them. -/
def laterTokens (parts : List (List Token)) (last : Token) : List Token :=
  parts.flatMap (.comma :: ·) ++ [last]

theorem laterItems_eq (items : List Tree) :
    laterItems items = laterTokens (items.map tokens) .closeArray := by
  induction items with
  | nil => rfl
  | cons item items ih => simp [laterItems, ih, laterTokens]

theorem laterMembers_eq (members : List (RawText × Tree)) :
    laterMembers members = laterTokens (members.map memberTokens) .closeObject := by
  induction members with
  | nil => rfl
  | cons m members ih => simp [laterMembers, ih, laterTokens, memberTokens]

theorem tokens_array (item : Tree) (items : List Tree) :
    (array (item :: items)).tokens =
      .openArray :: (item.tokens ++ laterTokens (items.map tokens) .closeArray) := by
  rw [tokens, laterItems_eq]

theorem tokens_object (m : RawText × Tree) (members : List (RawText × Tree)) :
    (object (m :: members)).tokens =
      .openObject :: (memberTokens m ++ laterTokens (members.map memberTokens) .closeObject) := by
  rw [tokens, laterMembers_eq]
  rfl

end Tree

section Parts

variable {texts : List (List Char)} {parts : List (List Token)} {last : Char} {token : Token}

theorem ends_laterText (hends : Ends [last]) (texts : List (List Char)) :
    Ends (Value.laterText texts last) := by
  cases texts with
  | nil => exact hends
  | cons text texts => exact ends_cons rfl rfl _

theorem laterText_ne_nil (texts : List (List Char)) (last : Char) :
    Value.laterText texts last ≠ [] := by
  simp [Value.laterText]

theorem spells_later (h : List.Forall₂ Spells texts parts) (hends : Ends [last])
    (hlast : Spells [last] [token]) :
    Spells (Value.laterText texts last) (Tree.laterTokens parts token) := by
  induction h with
  | nil => exact hlast
  | @cons text part texts parts hpart _ ih =>
      have hrest := hpart.append ih (ends_laterText hends texts) (laterText_ne_nil texts last)
      have hcomma : Lexer.start ',' = some ([.comma], .between) := rfl
      have hwhole := Spells.cons hcomma (by decide) hrest
      simpa [Value.laterText, Tree.laterTokens] using hwhole

end Parts

theorem spells_member {name : String} {value : Value} {key : RawText} {t : Tree}
    (hkey : Spells (quote name).toList [.string key]) (hvalue : Spells value.text.toList t.tokens) :
    Spells (Value.memberText (name, value)) (Tree.memberTokens (key, t)) := by
  have hcolon : Lexer.start ':' = some ([.colon], .between) := rfl
  exact hkey.append (.cons hcolon (by decide) hvalue) (ends_cons rfl rfl _) (by simp)

namespace Value

/-- The text of a value spells a structure of which the value is read. -/
def Rereads (room : Nat) (v : Value) : Prop :=
  ∃ t : Tree, Spells v.text.toList t.tokens ∧ ofTree? room t = some v

theorem exists_items {room : Nat} {items : List Value} (h : ∀ item ∈ items, Rereads room item) :
    ∃ trees, List.Forall₂ (fun v t => Spells v.text.toList t.tokens) items trees ∧
      ofTrees? room trees = some items := by
  induction items with
  | nil => exact ⟨[], .nil, rfl⟩
  | cons item items ih =>
      rw [List.forall_mem_cons] at h
      obtain ⟨t, hspells, ht⟩ := h.1
      obtain ⟨trees, hothers, htrees⟩ := ih h.2
      refine ⟨t :: trees, .cons hspells hothers, ?_⟩
      simp [ofTrees?, ht, htrees]

theorem exists_members {room : Nat} {members : List (String × Value)}
    (h : ∀ m ∈ members, Rereads room m.2) :
    ∃ trees, List.Forall₂ (fun m t => Spells (memberText m) (Tree.memberTokens t)) members trees ∧
      ofMembers? room trees = some members := by
  induction members with
  | nil => exact ⟨[], .nil, rfl⟩
  | cons m members ih =>
      rw [List.forall_mem_cons] at h
      obtain ⟨t, hspells, ht⟩ := h.1
      obtain ⟨key, hname, hkey⟩ := exists_spells_quote m.1
      obtain ⟨trees, hothers, htrees⟩ := ih h.2
      refine ⟨(key, t) :: trees, .cons (spells_member hkey hspells) hothers, ?_⟩
      simp [ofMembers?, hname, ht, htrees]

theorem rereads_array {room : Nat} {items : List Value} (h : ∀ item ∈ items, Rereads room item) :
    Rereads (room + 1) (array items) := by
  obtain ⟨trees, hspells, htrees⟩ := exists_items h
  have hread : ofTree? (room + 1) (.array trees) = some (array items) := by
    simp [ofTree?, htrees]
  have hopen : Lexer.start '[' = some ([.openArray], .between) := rfl
  have hclose : Spells [']'] [.closeArray] := spells_punctuation rfl (by decide)
  have hends : Ends [']'] := ends_cons rfl rfl []
  refine ⟨.array trees, ?_, hread⟩
  cases hspells with
  | nil => exact .cons hopen (by decide) hclose
  | cons hitem hothers =>
      have hlater := List.forall₂_map_left_iff.mpr (List.forall₂_map_right_iff.mpr hothers)
      have hinside := hitem.append (spells_later hlater hends hclose)
        (ends_laterText hends _) (laterText_ne_nil _ _)
      rw [toList_text_array, Tree.tokens_array]
      exact .cons hopen (by decide) hinside

theorem rereads_object {room : Nat} {members : List (String × Value)} (hordered : Ordered members)
    (h : ∀ m ∈ members, Rereads room m.2) : Rereads (room + 1) (object members) := by
  obtain ⟨trees, hspells, htrees⟩ := exists_members h
  have hread : ofTree? (room + 1) (.object trees) = some (object members) := by
    simp [ofTree?, htrees, hordered.sortMembers_eq]
  have hopen : Lexer.start '\x7b' = some ([.openObject], .between) := rfl
  have hclose : Spells ['\x7d'] [.closeObject] := spells_punctuation rfl (by decide)
  have hends : Ends ['\x7d'] := ends_cons rfl rfl []
  refine ⟨.object trees, ?_, hread⟩
  cases hspells with
  | nil => exact .cons hopen (by decide) hclose
  | cons hmember hothers =>
      have hlater := List.forall₂_map_left_iff.mpr (List.forall₂_map_right_iff.mpr hothers)
      have hinside := hmember.append (spells_later hlater hends hclose)
        (ends_laterText hends _) (laterText_ne_nil _ _)
      rw [toList_text_object, Tree.tokens_object]
      exact .cons hopen (by decide) hinside

/-- A value that fits and has no floats is read again from its text. -/
theorem Fits.rereads {room : Nat} {v : Value} (h : v.Fits room)
    (hintegers : ∀ n ∈ v.numbers, n.isInteger = true) : Rereads room v := by
  induction h with
  | null => exact ⟨.null, spells_word (by decide) (by decide) rfl, rfl⟩
  | bool b =>
      refine ⟨.bool b, ?_, rfl⟩
      cases b
      · exact spells_word (by decide) (by decide) rfl
      · exact spells_word (by decide) (by decide) rfl
  | @number room n hrange =>
      cases n with
      | integer n =>
          refine ⟨.number (.ofInt n), spells_integer n, ?_⟩
          rw [ofTree?, ofLiteral?_ofInt hrange]
          rfl
      | real x => cases hintegers _ (List.mem_singleton_self _)
  | @string room s =>
      obtain ⟨units, hs, hspells⟩ := exists_spells_quote s
      refine ⟨.string units, hspells, ?_⟩
      rw [ofTree?, hs]
      rfl
  | @array room items _ ih =>
      rw [numbers, numbersOfItems_eq] at hintegers
      exact rereads_array fun item hitem => ih item hitem fun n hn =>
        hintegers n (List.mem_flatMap_of_mem hitem hn)
  | @object room members hordered _ ih =>
      rw [numbers, numbersOfMembers_eq] at hintegers
      exact rereads_object hordered fun m hm => ih m hm fun n hn =>
        hintegers n (List.mem_flatMap_of_mem hm hn)

end Value
end RuleDesk.Json
