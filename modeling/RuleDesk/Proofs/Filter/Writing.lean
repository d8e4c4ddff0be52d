import RuleDesk.Proofs.Filter.Reading
import RuleDesk.Proofs.Text.Joined
import Mathlib.Data.List.Forall2

/-!
# Texts of one item

A text that stands for one item is read as that item wherever an atom may end behind it.
A run is such a text, and so are texts of items between parentheses, one space apart.
-/
namespace RuleDesk.Sexp

/-- The text stands for one item, in front of whatever ends an atom. -/
def Spells (text : List Char) (e : Sexp) : Prop :=
  ∀ (s : List Char) (items : List Sexp), EndsAtom s → Items s items →
    Items (text ++ s) (e :: items)

/-- Texts behind the first one are each announced by a space. -/
theorem toList_intercalate_cons (head : String) (tail : List String) :
    (" ".intercalate (head :: tail)).toList =
      head.toList ++ tail.flatMap fun t => ' ' :: t.toList := by
  rw [toList_joined]
  rfl

theorem endsAtom_spaced (texts : List String) :
    EndsAtom (texts.flatMap fun t => ' ' :: t.toList) := by
  cases texts with
  | nil => simp [EndsAtom]
  | cons => simp [EndsAtom, isBlank]

section Texts

variable {texts : List String} {items : List Sexp}

theorem items_spaced (h : List.Forall₂ (fun t e => Spells t.toList e) texts items) :
    Items (texts.flatMap fun t => ' ' :: t.toList) items := by
  induction h with
  | nil => exact .nil
  | @cons _ _ texts _ hitem _ ih =>
      exact .blank (by decide) (hitem _ _ (endsAtom_spaced texts) ih)

theorem items_intercalate (h : List.Forall₂ (fun t e => Spells t.toList e) texts items) :
    Items (" ".intercalate texts).toList items := by
  cases h with
  | nil => exact .nil
  | @cons _ _ texts _ hitem hothers =>
      rw [toList_intercalate_cons]
      exact hitem _ _ (endsAtom_spaced texts) (items_spaced hothers)

theorem Spells.group (h : List.Forall₂ (fun t e => Spells t.toList e) texts items)
    (hne : items ≠ []) :
    Spells ("(" ++ " ".intercalate texts ++ ")").toList (.group items) := by
  intro s later _ hs
  have hgroup := Items.group (items_intercalate h) hne hs
  simpa using hgroup

end Texts

theorem Spells.run {w t : List Char} (hw : Run w t) (hne : t ≠ []) :
    Spells w (.atom (String.ofList t)) := by
  have hrun : w ≠ [] := by
    intro hnil
    rw [hnil] at hw
    cases hw
    exact hne rfl
  exact fun _ _ hends hs => .atom hw hrun hends hs

theorem Spells.parse {text : String} {e : Sexp} (h : Spells text.toList e) :
    parse text = .ok e := by
  have hitems : Items text.toList [e] := by
    simpa using h [] [] (by simp [EndsAtom]) .nil
  have hreads := Reads.items hitems (by simp) .nothing
  rw [List.append_nil] at hreads
  exact read_reads hreads

end RuleDesk.Sexp
