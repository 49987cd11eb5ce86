import Phrasing.Content.Hash

/-!
# The XXH3 digest

The 128-bit variant of XXH3 with seed zero and the default secret.  Inputs are treated in six
classes by length: empty, up to 3, up to 8, up to 16, up to 128 and up to 240 bytes have formulas
of their own, and anything longer is folded stripe by stripe into eight lanes.  All arithmetic is
modulo `2 ^ 64`.
-/

namespace Phrasing.Xxh3

/-- The 192 bytes of the default secret. -/
def secret : ByteArray := ⟨#[
  0xb8, 0xfe, 0x6c, 0x39, 0x23, 0xa4, 0x4b, 0xbe, 0x7c, 0x01, 0x81, 0x2c, 0xf7, 0x21, 0xad, 0x1c,
  0xde, 0xd4, 0x6d, 0xe9, 0x83, 0x90, 0x97, 0xdb, 0x72, 0x40, 0xa4, 0xa4, 0xb7, 0xb3, 0x67, 0x1f,
  0xcb, 0x79, 0xe6, 0x4e, 0xcc, 0xc0, 0xe5, 0x78, 0x82, 0x5a, 0xd0, 0x7d, 0xcc, 0xff, 0x72, 0x21,
  0xb8, 0x08, 0x46, 0x74, 0xf7, 0x43, 0x24, 0x8e, 0xe0, 0x35, 0x90, 0xe6, 0x81, 0x3a, 0x26, 0x4c,
  0x3c, 0x28, 0x52, 0xbb, 0x91, 0xc3, 0x00, 0xcb, 0x88, 0xd0, 0x65, 0x8b, 0x1b, 0x53, 0x2e, 0xa3,
  0x71, 0x64, 0x48, 0x97, 0xa2, 0x0d, 0xf9, 0x4e, 0x38, 0x19, 0xef, 0x46, 0xa9, 0xde, 0xac, 0xd8,
  0xa8, 0xfa, 0x76, 0x3f, 0xe3, 0x9c, 0x34, 0x3f, 0xf9, 0xdc, 0xbb, 0xc7, 0xc7, 0x0b, 0x4f, 0x1d,
  0x8a, 0x51, 0xe0, 0x4b, 0xcd, 0xb4, 0x59, 0x31, 0xc8, 0x9f, 0x7e, 0xc9, 0xd9, 0x78, 0x73, 0x64,
  0xea, 0xc5, 0xac, 0x83, 0x34, 0xd3, 0xeb, 0xc3, 0xc5, 0x81, 0xa0, 0xff, 0xfa, 0x13, 0x63, 0xeb,
  0x17, 0x0d, 0xdd, 0x51, 0xb7, 0xf0, 0xda, 0x49, 0xd3, 0x16, 0x55, 0x26, 0x29, 0xd4, 0x68, 0x9e,
  0x2b, 0x16, 0xbe, 0x58, 0x7d, 0x47, 0xa1, 0xfc, 0x8f, 0xf8, 0xb8, 0xd1, 0x7a, 0xd0, 0x31, 0xce,
  0x45, 0xcb, 0x3a, 0x8f, 0x95, 0x16, 0x04, 0x28, 0xaf, 0xd7, 0xfb, 0xca, 0xbb, 0x4b, 0x40, 0x7e]⟩

/-- The first 32-bit multiplier. -/
def shortPrime1 : UInt64 := 0x9E3779B1

/-- The second 32-bit multiplier. -/
def shortPrime2 : UInt64 := 0x85EBCA77

/-- The third 32-bit multiplier. -/
def shortPrime3 : UInt64 := 0xC2B2AE3D

/-- The first 64-bit multiplier. -/
def longPrime1 : UInt64 := 0x9E3779B185EBCA87

/-- The second 64-bit multiplier. -/
def longPrime2 : UInt64 := 0xC2B2AE3D27D4EB4F

/-- The third 64-bit multiplier. -/
def longPrime3 : UInt64 := 0x165667B19E3779F9

/-- The fourth 64-bit multiplier. -/
def longPrime4 : UInt64 := 0x85EBCA77C2B2AE63

/-- The fifth 64-bit multiplier. -/
def longPrime5 : UInt64 := 0x27D4EB2F165667C5

/-- The byte at an offset, zero outside the data. -/
def byteAt (data : ByteArray) (offset : Nat) : UInt64 :=
  if inside : offset < data.size then (data.get offset inside).toUInt64 else 0

/-- The little-endian 32-bit word at an offset. -/
def shortAt (data : ByteArray) (offset : Nat) : UInt64 :=
  byteAt data offset ||| byteAt data (offset + 1) <<< 8 ||| byteAt data (offset + 2) <<< 16 |||
    byteAt data (offset + 3) <<< 24

/-- The little-endian 64-bit word at an offset. -/
def wordAt (data : ByteArray) (offset : Nat) : UInt64 :=
  shortAt data offset ||| shortAt data (offset + 4) <<< 32

/-- The full product of two words, as its low and its high word. -/
def product (left right : UInt64) : UInt64 × UInt64 :=
  let exact := left.toNat * right.toNat
  (UInt64.ofNat exact, UInt64.ofNat (exact >>> 64))

/-- The two halves of a full product, combined. -/
def fold (left right : UInt64) : UInt64 :=
  let halves := product left right
  halves.1 ^^^ halves.2

/-- A word with its bits from `amount` on folded into the lower ones. -/
def xorShift (word amount : UInt64) : UInt64 :=
  word ^^^ (word >>> amount)

/-- The lower 32 bits of a word. -/
def lowHalf (word : UInt64) : UInt64 :=
  word &&& 0xffffffff

/-- A 32-bit word with its bytes in reverse. -/
def reverseShort (word : UInt64) : UInt64 :=
  let byte := fun (shift : UInt64) => (word >>> shift) &&& (0xff : UInt64)
  byte 0 <<< 24 ||| byte 8 <<< 16 ||| byte 16 <<< 8 ||| byte 24

/-- A word with its bytes in reverse. -/
def reverseWord (word : UInt64) : UInt64 :=
  reverseShort (lowHalf word) <<< 32 ||| reverseShort (word >>> 32)

/-- The final mixing of medium and long inputs. -/
def avalanche (word : UInt64) : UInt64 :=
  xorShift (xorShift word 37 * 0x165667919E3779F9) 32

/-- The final mixing of inputs of at most three bytes. -/
def strongAvalanche (word : UInt64) : UInt64 :=
  xorShift (xorShift (xorShift word 33 * longPrime2) 29 * longPrime3) 32

/-- The hash of the empty input. -/
def empty : ContentHash :=
  ⟨strongAvalanche (wordAt secret 64 ^^^ wordAt secret 72),
    strongAvalanche (wordAt secret 80 ^^^ wordAt secret 88)⟩

/-- The hash of one to three bytes. -/
def upTo3 (data : ByteArray) : ContentHash :=
  let size := data.size
  let low := byteAt data 0 <<< 16 ||| byteAt data (size / 2) <<< 24 ||| byteAt data (size - 1) |||
    UInt64.ofNat size <<< 8
  let swapped := reverseShort low
  let high := lowHalf (swapped <<< 13 ||| swapped >>> 19)
  ⟨strongAvalanche (low ^^^ (shortAt secret 0 ^^^ shortAt secret 4)),
    strongAvalanche (high ^^^ (shortAt secret 8 ^^^ shortAt secret 12))⟩

/-- The hash of four to eight bytes. -/
def upTo8 (data : ByteArray) : ContentHash :=
  let size := data.size
  let input := shortAt data 0 + shortAt data (size - 4) <<< 32
  let halves := product (input ^^^ (wordAt secret 16 ^^^ wordAt secret 24))
    (longPrime1 + UInt64.ofNat size <<< 2)
  let high := halves.2 + halves.1 <<< 1
  let low := halves.1 ^^^ (high >>> 3)
  ⟨xorShift (xorShift low 35 * 0x9FB21C651E98DF25) 28, avalanche high⟩

/-- The hash of nine to sixteen bytes. -/
def upTo16 (data : ByteArray) : ContentHash :=
  let size := data.size
  let first := wordAt data 0
  let last := wordAt data (size - 8)
  let halves := product (first ^^^ last ^^^ (wordAt secret 32 ^^^ wordAt secret 40)) longPrime1
  let keyed := last ^^^ (wordAt secret 48 ^^^ wordAt secret 56)
  let high := halves.2 + (keyed + lowHalf keyed * (shortPrime2 - 1))
  let low := (halves.1 + UInt64.ofNat (size - 1) <<< 54) ^^^ reverseWord high
  let mixed := product low longPrime2
  ⟨avalanche mixed.1, avalanche (mixed.2 + high * longPrime2)⟩

/-- Sixteen bytes of input folded with sixteen bytes of the secret. -/
def mix16 (data : ByteArray) (offset key : Nat) : UInt64 :=
  fold (wordAt data offset ^^^ wordAt secret key) (wordAt data (offset + 8) ^^^ wordAt secret (key + 8))

/-- Two 16-byte pieces of input mixed into the accumulated words. -/
def mix32 (data : ByteArray) (accumulated : ContentHash) (first second key : Nat) : ContentHash :=
  ⟨(accumulated.low + mix16 data first key) ^^^
      (wordAt data second + wordAt data (second + 8)),
    (accumulated.high + mix16 data second (key + 16)) ^^^
      (wordAt data first + wordAt data (first + 8))⟩

/-- The last step for inputs of 17 to 240 bytes. -/
def finishMedium (size : Nat) (accumulated : ContentHash) : ContentHash :=
  ⟨avalanche (accumulated.low + accumulated.high),
    0 - avalanche (accumulated.low * longPrime1 + accumulated.high * longPrime4 +
      UInt64.ofNat size * longPrime2)⟩

/-- The hash of 17 to 128 bytes, mixed from the middle outwards. -/
def upTo128 (data : ByteArray) : ContentHash :=
  let size := data.size
  let rounds := (size - 1) / 32
  finishMedium size <| (List.range (rounds + 1)).foldr
    (fun round accumulated =>
      mix32 data accumulated (16 * round) (size - 16 * (round + 1)) (32 * round))
    ⟨UInt64.ofNat size * longPrime1, 0⟩

/-- The hash of 129 to 240 bytes. -/
def upTo240 (data : ByteArray) : ContentHash :=
  let size := data.size
  let opening := (List.range 4).foldl
    (fun accumulated round => mix32 data accumulated (32 * round) (32 * round + 16) (32 * round))
    ⟨UInt64.ofNat size * longPrime1, 0⟩
  let middle := (List.range (size / 32 - 4)).foldl
    (fun accumulated round =>
      mix32 data accumulated (128 + 32 * round) (144 + 32 * round) (3 + 32 * round))
    (⟨avalanche opening.low, avalanche opening.high⟩ : ContentHash)
  finishMedium size (mix32 data middle (size - 16) (size - 32) 103)

/-- The eight running words of a long input. -/
structure Lanes where
  /-- Lane 0. -/
  a : UInt64
  /-- Lane 1. -/
  b : UInt64
  /-- Lane 2. -/
  c : UInt64
  /-- Lane 3. -/
  d : UInt64
  /-- Lane 4. -/
  e : UInt64
  /-- Lane 5. -/
  f : UInt64
  /-- Lane 6. -/
  g : UInt64
  /-- Lane 7. -/
  h : UInt64

namespace Lanes

/-- The lanes before any input. -/
def initial : Lanes :=
  ⟨shortPrime3, longPrime1, longPrime2, longPrime3, longPrime4, shortPrime2, longPrime5, shortPrime1⟩

/-- The product of the halves of a keyed word. -/
def crossed (word key : UInt64) : UInt64 :=
  let keyed := word ^^^ key
  lowHalf keyed * (keyed >>> 32)

/-- One 64-byte stripe added to the lanes; each lane also receives its neighbour's word. -/
def accumulate (data : ByteArray) (lanes : Lanes) (offset key : Nat) : Lanes :=
  let word := fun lane => wordAt data (offset + 8 * lane)
  let term := fun lane => crossed (word lane) (wordAt secret (key + 8 * lane))
  ⟨lanes.a + word 1 + term 0, lanes.b + word 0 + term 1, lanes.c + word 3 + term 2,
    lanes.d + word 2 + term 3, lanes.e + word 5 + term 4, lanes.f + word 4 + term 5,
    lanes.g + word 7 + term 6, lanes.h + word 6 + term 7⟩

/-- The scrambling of one lane between blocks. -/
def scrambleLane (lane : UInt64) (index : Nat) : UInt64 :=
  (xorShift lane 47 ^^^ wordAt secret (128 + 8 * index)) * shortPrime1

/-- The scrambling of all lanes between blocks of sixteen stripes. -/
def scramble (lanes : Lanes) : Lanes :=
  ⟨scrambleLane lanes.a 0, scrambleLane lanes.b 1, scrambleLane lanes.c 2, scrambleLane lanes.d 3,
    scrambleLane lanes.e 4, scrambleLane lanes.f 5, scrambleLane lanes.g 6, scrambleLane lanes.h 7⟩

/-- The first `count` stripes of a block. -/
def stripes (data : ByteArray) (lanes : Lanes) (offset count : Nat) : Lanes :=
  (List.range count).foldl
    (fun lanes stripe => lanes.accumulate data (offset + 64 * stripe) (8 * stripe)) lanes

/-- The lanes combined into one word. -/
def merge (lanes : Lanes) (key : Nat) (start : UInt64) : UInt64 :=
  avalanche (start +
    fold (lanes.a ^^^ wordAt secret key) (lanes.b ^^^ wordAt secret (key + 8)) +
    fold (lanes.c ^^^ wordAt secret (key + 16)) (lanes.d ^^^ wordAt secret (key + 24)) +
    fold (lanes.e ^^^ wordAt secret (key + 32)) (lanes.f ^^^ wordAt secret (key + 40)) +
    fold (lanes.g ^^^ wordAt secret (key + 48)) (lanes.h ^^^ wordAt secret (key + 56)))

end Lanes

/-- The hash of more than 240 bytes. -/
def long (data : ByteArray) : ContentHash :=
  let size := data.size
  let blocks := (size - 1) / 1024
  let full := (List.range blocks).foldl
    (fun lanes block => (lanes.stripes data (1024 * block) 16).scramble) Lanes.initial
  let rest := full.stripes data (1024 * blocks) ((size - 1 - 1024 * blocks) / 64)
  let lanes := rest.accumulate data (size - 64) 121
  ⟨lanes.merge 11 (UInt64.ofNat size * longPrime1),
    lanes.merge 117 (~~~(UInt64.ofNat size * longPrime2))⟩

/-- The XXH3-128 hash of a byte string. -/
def hash (data : ByteArray) : ContentHash :=
  let size := data.size
  if size = 0 then empty
  else if size ≤ 3 then upTo3 data
  else if size ≤ 8 then upTo8 data
  else if size ≤ 16 then upTo16 data
  else if size ≤ 128 then upTo128 data
  else if size ≤ 240 then upTo240 data
  else long data

/-- Content hashes computed with XXH3. -/
instance : Digest where
  digest bytes := hash ⟨bytes.toArray⟩

end Phrasing.Xxh3
