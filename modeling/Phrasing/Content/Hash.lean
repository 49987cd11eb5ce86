/-!
# Content hashes

A content hash stands for the byte string it was computed from.  The library never relies on two
byte strings having different hashes: a hash only nominates a stored result, and equality of the
inputs decides.  The digest is therefore a parameter, a `Digest` instance.
-/

namespace Phrasing

/-- The `count` lowest bytes of `value`, least significant first. -/
def littleEndian : Nat → Nat → List UInt8
  | 0, _ => []
  | count + 1, value => UInt8.ofNat value :: littleEndian count (value / 256)

@[simp]
theorem length_littleEndian (count value : Nat) : (littleEndian count value).length = count := by
  induction count generalizing value with
  | zero => rfl
  | succ count induction => simp [littleEndian, induction]

/-- Byte strings of a fixed width determine the numbers that fit into it. -/
theorem littleEndian_injective {count left right : Nat} (left_fits : left < Nat.pow 256 count)
    (right_fits : right < Nat.pow 256 count)
    (same : littleEndian count left = littleEndian count right) : left = right := by
  induction count generalizing left right with
  | zero => simp at left_fits right_fits; omega
  | succ count induction =>
      simp only [littleEndian, List.cons.injEq] at same
      have low : left % 256 = right % 256 := by
        have := congrArg UInt8.toNat same.1
        simpa using this
      have high : left / 256 = right / 256 := by
        apply induction _ _ same.2
        · rw [Nat.div_lt_iff_lt_mul (by decide)]; simpa [Nat.pow_succ] using left_fits
        · rw [Nat.div_lt_iff_lt_mul (by decide)]; simpa [Nat.pow_succ] using right_fits
      omega

/-- The eight bytes of a word, least significant first. -/
def wordBytes (word : UInt64) : List UInt8 :=
  littleEndian 8 word.toNat

@[simp]
theorem length_wordBytes (word : UInt64) : (wordBytes word).length = 8 :=
  length_littleEndian 8 word.toNat

theorem wordBytes_inj {left right : UInt64} : wordBytes left = wordBytes right ↔ left = right := by
  constructor
  · intro same
    have fits (word : UInt64) : word.toNat < Nat.pow 256 8 := word.toNat_lt
    exact UInt64.toNat_inj.mp (littleEndian_injective (fits left) (fits right) same)
  · rintro rfl
    rfl

/-- One lower-case hexadecimal digit. -/
def hexDigit (value : Nat) : Char :=
  if value < 10 then Char.ofNat (48 + value) else Char.ofNat (87 + value)

/-- The two hexadecimal digits of a byte. -/
def hexByte (byte : UInt8) : List Char :=
  [hexDigit (byte.toNat / 16), hexDigit (byte.toNat % 16)]

/-- A 128-bit digest, as its low and its high word. -/
structure ContentHash where
  /-- The low word, whose bytes come first. -/
  low : UInt64
  /-- The high word. -/
  high : UInt64
  deriving DecidableEq

namespace ContentHash

/-- The sixteen bytes of a hash. -/
def bytes (hash : ContentHash) : List UInt8 :=
  wordBytes hash.low ++ wordBytes hash.high

@[simp]
theorem length_bytes (hash : ContentHash) : hash.bytes.length = 16 := by
  simp [bytes]

theorem bytes_inj {left right : ContentHash} : left.bytes = right.bytes ↔ left = right := by
  constructor
  · intro same
    obtain ⟨low, high⟩ := List.append_inj same (by simp)
    cases left
    cases right
    simp_all [wordBytes_inj]
  · rintro rfl
    rfl

/-- The written form of a hash: its bytes in hexadecimal. -/
def text (hash : ContentHash) : String :=
  String.ofList (hash.bytes.flatMap hexByte)

/-- The abbreviated form of a hash: its first two bytes. -/
def brief (hash : ContentHash) : String :=
  "ContentHash(" ++ String.ofList ((hash.bytes.take 2).flatMap hexByte) ++ "..)"

end ContentHash

/-- A way to compute content hashes. -/
class Digest where
  /-- The hash of a byte string. -/
  digest : List UInt8 → ContentHash

export Digest (digest)

end Phrasing
