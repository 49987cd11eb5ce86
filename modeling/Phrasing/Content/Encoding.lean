import Phrasing.Content.Hash
import Phrasing.Number.Canonical

/-!
# Canonical encodings

An encoding is a sequence of tagged writes.  Every write opens with a byte that names its sort, and
text carries its length, so the bytes of an encoding determine its writes, up to the sign of zero.
-/

namespace Phrasing

/-- The UTF-8 bytes of a text. -/
def utf8 (text : String) : List UInt8 :=
  text.toUTF8.data.toList

/-- One item of an encoding. -/
inductive Write where
  /-- A discriminant chosen by the writer. -/
  | tag (code : UInt8)
  /-- A truth value. -/
  | bool (value : Bool)
  /-- A signed integer. -/
  | int (value : Int64)
  /-- An unsigned integer. -/
  | word (value : UInt64)
  /-- A floating-point number. -/
  | float (value : Float)
  /-- A text. -/
  | text (value : String)
  /-- The number of items of a collection that follows. -/
  | length (count : Nat)
  /-- The hash of a part that was encoded before. -/
  | hash (value : ContentHash)

/-- The bytes of one write. -/
def Write.bytes : Write → List UInt8
  | .tag code => [0x01, code]
  | .bool value => [0x02, if value then 1 else 0]
  | .int value => 0x03 :: wordBytes value.toUInt64
  | .float value => 0x04 :: wordBytes (Number.canonicalBits value)
  | .text value => 0x05 :: (wordBytes (UInt64.ofNat value.utf8ByteSize) ++ utf8 value)
  | .length count => 0x06 :: wordBytes (UInt64.ofNat count)
  | .word value => 0x07 :: wordBytes value
  | .hash value => 0x08 :: value.bytes

/-- A sequence of writes. -/
abbrev Encoding := List Write

namespace Encoding

/-- The bytes of an encoding. -/
def bytes (encoding : Encoding) : List UInt8 :=
  encoding.flatMap Write.bytes

@[simp]
theorem bytes_nil : bytes [] = [] :=
  rfl

@[simp]
theorem bytes_cons (write : Write) (rest : Encoding) :
    bytes (write :: rest) = write.bytes ++ bytes rest :=
  rfl

@[simp]
theorem bytes_append (left right : Encoding) : bytes (left ++ right) = bytes left ++ bytes right :=
  List.flatMap_append

/-- The hash of an encoding. -/
def hash [Digest] (encoding : Encoding) : ContentHash :=
  digest encoding.bytes

end Encoding

end Phrasing
