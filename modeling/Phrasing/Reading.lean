import Phrasing.Value.Written

/-!
# Readings

A reading is one interpretation of an input: the fragments read so far, the rest of the input, a
result and a score.  Once the input has run out in the middle of a literal, a reading goes on as a
completion, whose further fragments are suggestions.
-/

namespace Phrasing

/-- A piece of the text of a reading. -/
structure Fragment where
  /-- The text. -/
  text : String
  /-- Whether the text was found in the input; otherwise it is suggested. -/
  isMatched : Bool
  deriving DecidableEq

/-- One interpretation of an input. -/
structure Reading where
  /-- The rest of the input; missing once the reading is a completion. -/
  text : Option String
  /-- The pieces read so far. -/
  fragments : List Fragment
  /-- The result. -/
  result : Value
  /-- The product of the scores met on the way. -/
  score : Float

namespace Reading

/-- The reading from which an input is read. -/
def ofInput (input : String) : Reading :=
  { text := some input, fragments := [], result := .null, score := 1.0 }

/-- Whether the whole input was read and nothing suggested. -/
def isComplete (reading : Reading) : Bool :=
  reading.text = some ""

/-- Whether the reading goes beyond the input. -/
def isSuggestion (reading : Reading) : Bool :=
  reading.text.isNone

/-- Whether the reading accounts for the whole input. -/
def isAccepted (reading : Reading) : Bool :=
  reading.isComplete || reading.isSuggestion

/-- The reading with another result. -/
def withResult (reading : Reading) (result : Value) : Reading :=
  { reading with result }

/-- The text of all fragments. -/
def phrase (reading : Reading) : String :=
  String.join (reading.fragments.map Fragment.text)

/-- Whether two readings are the same. -/
def same (left right : Reading) : Bool :=
  left.text == right.text && left.fragments == right.fragments && left.result == right.result &&
    Number.same left.score right.score

instance : BEq Reading :=
  ⟨same⟩

/-- The JSON form of a reading. -/
def toJson (reading : Reading) : Json :=
  .object [("text", .option .text reading.text),
    ("words", .list (fun fragment =>
      .object [("text", .text fragment.text), ("input", .bool fragment.isMatched)])
      reading.fragments),
    ("result", reading.result.toJson), ("score", Number.toJson reading.score)]

end Reading

end Phrasing
