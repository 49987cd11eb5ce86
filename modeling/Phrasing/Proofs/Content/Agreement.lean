import Mathlib.Data.List.Forall2
import Phrasing.Proofs.Content.Folding
import Phrasing.Proofs.Content.Writes

/-!
# Sequences of writes that agree

A floating-point number is written by its bit pattern, after the two zeros and all the patterns of
values that are not numbers were folded.  Apart from that nothing is lost: two sequences of writes
have the same bytes exactly when they are equally long and agree write by write.
-/

namespace Phrasing

/-- Two writes are of one sort and have the same argument, or arguments that are folded into one if
these are the bit patterns of floating-point numbers. -/
inductive Write.Agrees : Write → Write → Prop
  | tag (code : UInt8) : Agrees (.tag code) (.tag code)
  | bool (value : Bool) : Agrees (.bool value) (.bool value)
  | int (value : Int64) : Agrees (.int value) (.int value)
  | word (value : UInt64) : Agrees (.word value) (.word value)
  | float {left right : UInt64} (folded : Number.foldedBits left = Number.foldedBits right) :
      Agrees (.float (.ofBits left)) (.float (.ofBits right))
  | text (value : String) : Agrees (.text value) (.text value)
  | length (count : Nat) : Agrees (.length count) (.length count)
  | hash (value : ContentHash) : Agrees (.hash value) (.hash value)

theorem Write.agrees_float_iff {left right : Float} :
    Agrees (.float left) (.float right) ↔ Number.unsigned left = Number.unsigned right := by
  constructor
  · intro agrees
    cases agrees with
    | float folded => exact Number.unsigned_ofBits_eq_iff.mpr folded
  · intro same
    rw [← Number.ofBits_toBits left, ← Number.ofBits_toBits right] at same ⊢
    exact .float (Number.unsigned_ofBits_eq_iff.mp same)

theorem Write.agrees_iff {left right : Write} :
    left.Agrees right ↔ left.canonical = right.canonical := by
  constructor
  · intro agrees
    cases agrees with
    | float folded => exact congrArg Write.float (Number.unsigned_ofBits_eq_iff.mpr folded)
    | _ => rfl
  · intro same
    cases left <;> cases right <;> try cases same
    case float.float => exact agrees_float_iff.mpr (Write.float.inj same)
    all_goals constructor

theorem Encoding.canonical_eq_iff {left right : Encoding} :
    left.canonical = right.canonical ↔ List.Forall₂ Write.Agrees left right := by
  have agrees_eq : Write.Agrees = fun left right => left.canonical = right.canonical :=
    funext₂ fun _ _ => propext Write.agrees_iff
  rw [agrees_eq, canonical, canonical, ← List.forall₂_eq_eq_eq, List.forall₂_map_left_iff,
    List.forall₂_map_right_iff]

/-- Two sequences of writes whose lengths fit into words have the same bytes exactly when they are
equally long and agree write by write. -/
theorem Encoding.bytes_eq_iff_agree {left right : Encoding} (left_fits : left.Fits)
    (right_fits : right.Fits) : left.bytes = right.bytes ↔ List.Forall₂ Write.Agrees left right :=
  (bytes_eq_iff left_fits right_fits).trans canonical_eq_iff

/-- A number given by its bit pattern, and two texts. -/
private def labelled (bits : UInt64) (first second : String) : Encoding :=
  [.float (.ofBits bits), .text first, .text second]

/-- Which of the values that are not numbers was written does not show, and where a text ends does. -/
theorem Encoding.bytes_eq_iff_agree_labelled :
    (labelled 0x7ff0000000000001 "ab" "c").bytes = (labelled 0xfff8000000000000 "ab" "c").bytes ∧
      (labelled 0x7ff0000000000001 "ab" "c").bytes ≠ (labelled 0x7ff0000000000001 "a" "bc").bytes := by
  constructor
  · refine (bytes_eq_iff_agree (by decide) (by decide)).mpr ?_
    exact .cons (.float (by decide)) (.cons (.text "ab") (.cons (.text "c") .nil))
  · intro same
    obtain _ | ⟨-, _ | ⟨texts, -⟩⟩ := (bytes_eq_iff_agree (by decide) (by decide)).mp same
    exact absurd (Write.text.inj (Write.agrees_iff.mp texts)) (by decide)

end Phrasing
