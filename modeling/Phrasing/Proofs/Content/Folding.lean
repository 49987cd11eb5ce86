import Mathlib
import Phrasing.Proofs.Expansion.Sameness

/-!
# Bit patterns that are folded

A floating-point number is made from its bit pattern, and all the patterns of values that are not
numbers make one value.  So a number is written as its pattern after these, and the two zeros, were
folded, and two numbers are the same exactly when they compare as equal.  No single module of Mathlib
brings the laws of packing and unpacking numbers, so all of it is imported here.
-/

namespace Phrasing.Number

open Float.Model Float.Model.UnpackedFloat

/-- Whether a bit pattern stands for a value that is not a number: all bits of the exponent are set,
and some bit of the fraction is. -/
def isUndefined (bits : UInt64) : Bool :=
  bits.toNat / 2 ^ 52 % 2 ^ 11 = 2 ^ 11 - 1 && bits.toNat % 2 ^ 52 ≠ 0

/-- A bit pattern with both zeros folded into one, and with all values that are not numbers folded into
one. -/
def foldedBits (bits : UInt64) : UInt64 :=
  if bits = 0x8000000000000000 then 0 else if isUndefined bits then undefinedBits else bits

theorem isNaNBits_eq (bits : UInt64) :
    @isNaNBits .binary64 bits.toBitVec = isUndefined bits := by
  have exponent : (@unpackExponent .binary64 bits.toBitVec).toNat =
      bits.toNat / 2 ^ 52 % 2 ^ 11 := by
    rw [unpackExponent_def, BitVec.extractLsb'_toNat, Nat.shiftRight_eq_div_pow]
    rfl
  have fraction : (@unpackMantissa .binary64 bits.toBitVec).toNat =
      bits.toNat % 2 ^ 52 := by
    rw [unpackMantissa_def, BitVec.extractLsb'_toNat]
    rfl
  rw [isNaNBits, isUndefined, ← exponent, ← fraction, Bool.eq_iff_iff]
  simp only [← BitVec.toNat_inj, ne_eq]
  simp

theorem toBits_ofBits (bits : UInt64) :
    (Float.ofBits bits).toBits = if isUndefined bits then undefinedBits else bits := by
  have packed := @pack_unpack .binary64 bits.toBitVec (by decide)
  rw [isNaNBits_eq] at packed
  change UInt64.ofBitVec (pack .binary64 (unpack .binary64 bits.toBitVec)) = _
  rw [packed]
  split
  · decide
  · rfl

theorem ofBits_toBits (number : Float) : Float.ofBits number.toBits = number := by
  obtain ⟨⟨bits, valid⟩⟩ := number
  have packed := pack_unpack_of_valid valid
  simp only [Float.ofBits, Float.toBits, Float.Model.ofBits, Float.Model.pack, packed]

theorem canonicalBits_ofBits (bits : UInt64) : canonicalBits (.ofBits bits) = foldedBits bits := by
  rw [canonicalBits, toBits_ofBits, foldedBits]
  by_cases undefined : isUndefined bits = true
  · have unsigned : bits ≠ 0x8000000000000000 := by
      rintro rfl
      revert undefined
      decide
    rw [if_pos undefined, if_neg unsigned, if_neg (by decide)]
  · rw [if_neg undefined]

theorem unsigned_ofBits_eq_iff {left right : UInt64} :
    unsigned (.ofBits left) = unsigned (.ofBits right) ↔ foldedBits left = foldedBits right := by
  rw [← canonicalBits_ofBits, ← canonicalBits_ofBits]
  constructor
  · intro same
    rw [← toBits_unsigned, ← toBits_unsigned, same]
  · exact unsigned_eq_of_canonicalBits

/-- Numbers are the same exactly when floating-point comparison calls them equal. -/
theorem same_eq_beq (left right : Float) : same left right = (left == right) := by
  obtain ⟨⟨left, left_valid⟩⟩ := left
  obtain ⟨⟨right, right_valid⟩⟩ := right
  have compared : (unpack .binary64 left.toBitVec).beq (unpack .binary64 right.toBitVec) = true ↔
      left ≠ undefinedBits ∧ right ≠ undefinedBits ∧
        (left = right ∨ left = 0 ∧ right = 0x8000000000000000 ∨
          left = 0x8000000000000000 ∧ right = 0) := by
    have undefined : packedNaN .binary64 = undefinedBits.toBitVec := by decide
    have zero : packedZero .binary64 .positive = (0 : UInt64).toBitVec := by decide
    have signed : packedZero .binary64 .negative = (0x8000000000000000 : UInt64).toBitVec := by
      decide
    have packed := @unpack_beq_unpack_iff .binary64 _ _ left_valid right_valid (by decide)
    rw [undefined, zero, signed] at packed
    simp only [ne_eq, ← UInt64.toBitVec_inj]
    exact packed
  rw [Bool.eq_iff_iff, same_iff]
  refine Iff.trans ?_ compared.symm
  have undefined_unsigned : undefinedBits ≠ 0x8000000000000000 := by decide
  have undefined_positive : undefinedBits ≠ 0 := by decide
  simp only [canonicalBits, Float.toBits]
  grind

end Phrasing.Number
