/-!
# Numbers up to the sign of zero

Two numbers are the same when they are numerically equal: both zeros are the same number, and the
one value that is not a number is the same as nothing, itself included.  Numbers that are the same
share one bit pattern, and conversely.
-/

namespace Phrasing.Number

/-- The bit pattern of the value that is not a number. -/
def undefinedBits : UInt64 :=
  0x7ff8000000000000

/-- The bit pattern that stands for a number, with both zeros folded into one.  Nothing is left to fold
of the values that are not numbers: `Float.ofBits` makes one of them all (`canonicalBits_ofBits`). -/
def canonicalBits (number : Float) : UInt64 :=
  if number.toBits = 0x8000000000000000 then 0 else number.toBits

/-- Numeric equality. -/
def same (left right : Float) : Bool :=
  left.toBits != undefinedBits && canonicalBits left == canonicalBits right

theorem same_iff {left right : Float} :
    same left right = true ↔
      left.toBits ≠ undefinedBits ∧ canonicalBits left = canonicalBits right := by
  simp [same]

/-- Numbers without a signed zero among them are equal when they are the same. -/
theorem eq_of_same {left right : Float} (left_unsigned : left.toBits ≠ 0x8000000000000000)
    (right_unsigned : right.toBits ≠ 0x8000000000000000) (equal : same left right = true) :
    left = right := by
  obtain ⟨-, bits⟩ := same_iff.mp equal
  rw [canonicalBits, if_neg left_unsigned, canonicalBits, if_neg right_unsigned] at bits
  obtain ⟨⟨left, left_valid⟩⟩ := left
  obtain ⟨⟨right, right_valid⟩⟩ := right
  obtain rfl : left = right := bits
  rfl

end Phrasing.Number
