/-!
# Texts that are joined

What stands behind the first of some joined texts is each of the others behind a separator. So a
text of joined parts is taken apart from its front, part by part.
-/
namespace RuleDesk

theorem toList_joined (separator head : String) (tail : List String) :
    (separator.intercalate (head :: tail)).toList =
      head.toList ++ tail.flatMap fun text => separator.toList ++ text.toList := by
  induction tail generalizing head with
  | nil => simp
  | cons text tail ih =>
      rw [String.intercalate_cons_cons, String.toList_append, String.toList_append, ih]
      simp

end RuleDesk
