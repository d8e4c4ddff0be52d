import RuleDesk.Filter.Sexp
import RuleDesk.Proofs.Text.Characters

/-!
# Steps of the structure reader

One equation for each kind of character outside quoted spans, and what an open
group gathers while its items are read.
-/
namespace RuleDesk.Sexp

/-- A character that stands for itself outside quoted spans. -/
def isOrdinary (c : Char) : Bool :=
  c != '\\' && !isQuote c && c != '(' && c != ')' && !isBlank c

theorem isOrdinary_iff {c : Char} : isOrdinary c = true ↔
    c ≠ '\\' ∧ isQuote c = false ∧ c ≠ '(' ∧ c ≠ ')' ∧ isBlank c = false := by
  simp [isOrdinary, and_assoc]

section Steps

variable (r : Reader) (rest : List Char)

@[simp] theorem read_nil : read r none [] = r.finish := by
  rw [read.eq_def]

@[simp] theorem read_escaped (c : Char) :
    read r none ('\\' :: c :: rest) = read (r.take c) none rest := by
  rw [read.eq_def]
  simp

theorem read_open : read r none ('(' :: rest) = read (r.openGroup ('(' :: rest)) none rest := by
  rw [read.eq_def]
  simp [isQuote]

theorem read_close : read r none (')' :: rest) =
    (r.closeGroup (')' :: rest)).bind fun r => read r none rest := by
  rw [read.eq_def]
  simp only [isQuote]
  cases r.closeGroup (')' :: rest) <;> rfl

theorem read_blank {c : Char} (hc : isBlank c = true) :
    read r none (c :: rest) = read r.flush none rest := by
  rw [read.eq_def]
  simp [ne_backslash_of_blank hc, not_quote_of_blank hc, ne_parenthesis_of_blank hc, hc]

theorem read_ordinary {c : Char} (hc : isOrdinary c = true) :
    read r none (c :: rest) = read (r.take c) none rest := by
  rw [isOrdinary_iff] at hc
  rw [read.eq_def]
  simp [hc]

end Steps

namespace Reader

/-- The reader inside a group that was opened at `start` and holds `items`, the last
one first. -/
def inside (r : Reader) (start : List Char) (items : List Sexp) : Reader :=
  { r with groups := ⟨start, items⟩ :: r.groups, atom := [] }

/-- The reader right behind an item: an atom is still open there. -/
def after (r : Reader) : Sexp → Reader
  | .atom t => { r with atom := t.toList.reverse }
  | .group items => r.push (.group items)

theorem flush_of_atom_nil {r : Reader} (hr : r.atom = []) : r.flush = r := by
  simp [flush, hr]

@[simp] theorem push_atom (r : Reader) (item : Sexp) : (r.push item).atom = r.atom := by
  unfold push
  split <;> rfl

@[simp] theorem inside_atom (r : Reader) (start : List Char) (items : List Sexp) :
    (r.inside start items).atom = [] := rfl

@[simp] theorem push_inside (r : Reader) (start : List Char) (items : List Sexp) (item : Sexp) :
    (r.inside start items).push item = r.inside start (item :: items) := rfl

theorem openGroup_eq_inside {r : Reader} (hr : r.atom = []) (start : List Char) :
    r.openGroup start = r.inside start [] := by
  simp [openGroup, inside, flush_of_atom_nil hr, hr]

/-- Whatever ends an atom makes an item of it. -/
theorem flush_after {r : Reader} (hr : r.atom = []) {item : Sexp} (hitem : item ≠ .atom "") :
    (r.after item).flush = r.push item := by
  cases item with
  | atom t =>
      have ht : (r.after (.atom t)).atom.isEmpty = false := by
        simpa [after, List.isEmpty_eq_false_iff] using fun h => hitem (by rw [h])
      rw [flush, ht]
      simp only [after, List.reverse_reverse, String.ofList_toList, Bool.false_eq_true, if_false]
      rw [← hr]
  | group items => exact flush_of_atom_nil (by simpa [after] using hr)

/-- A group with items closes to one item of the reader around it. -/
theorem closeGroup_of_flush {r s : Reader} (hr : r.atom = []) {start : List Char}
    {items : List Sexp} (hitems : items ≠ []) (hs : s.flush = r.inside start items)
    (close : List Char) :
    s.closeGroup close = .ok (r.push (.group items.reverse)) := by
  have hempty : items.isEmpty = false := by simpa using hitems
  simp only [closeGroup, hs, inside, hempty, Bool.false_eq_true, if_false]
  rw [← hr]

end Reader
end RuleDesk.Sexp
