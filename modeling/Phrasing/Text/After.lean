/-!
# Text after a front

The text that remains when a front is taken off.  A text is its front followed by what remains, and
there is at most one remainder.
-/

namespace Phrasing.Text

/-- What remains of a list of characters after a front. -/
def remainder? : List Char → List Char → Option (List Char)
  | [], whole => some whole
  | _ :: _, [] => none
  | expected :: front, found :: whole => if expected = found then remainder? front whole else none

/-- What remains of a text after a front. -/
def after? (front whole : String) : Option String :=
  (remainder? front.toList whole.toList).map String.ofList

theorem remainder?_eq_some_iff {front whole rest : List Char} :
    remainder? front whole = some rest ↔ whole = front ++ rest := by
  induction front generalizing whole with
  | nil => simp [remainder?, eq_comm]
  | cons expected front induction =>
      cases whole with
      | nil => simp [remainder?]
      | cons found whole =>
          by_cases equal : expected = found
          · simp [remainder?, equal, induction]
          · simp [remainder?, equal, eq_comm]

theorem after?_eq_some_iff {front whole rest : String} :
    after? front whole = some rest ↔ whole = front ++ rest := by
  simp only [after?, Option.map_eq_some_iff, remainder?_eq_some_iff]
  constructor
  · rintro ⟨characters, split, rfl⟩
    apply String.toList_inj.mp
    simp [split]
  · rintro rfl
    exact ⟨rest.toList, by simp, by simp⟩

end Phrasing.Text
