import Phrasing.Value.Canonical

/-!
# Inputs of callbacks

What an observation and a description depend on: kind, props and children of an element, and for a
description its data as well.  Each sort of inputs has a fingerprint of its own.
-/

namespace Phrasing

/-- The inputs of an observation. -/
structure ObserveInputs where
  /-- The kind of the element. -/
  kind : Kind
  /-- Its props. -/
  props : Props
  /-- Its children. -/
  children : List Element

/-- The inputs of a description. -/
structure DescribeInputs where
  /-- The kind of the element. -/
  kind : Kind
  /-- Its props. -/
  props : Props
  /-- Its children. -/
  children : List Element
  /-- Its derived data. -/
  data : Option Value

/-- Whether two values that may be missing are the same. -/
def Value.sameOption : Option Value → Option Value → Bool
  | none, none => true
  | some left, some right => Value.same left right
  | _, _ => false

namespace ObserveInputs

/-- The inputs that an element gives. -/
def ofElement (element : Element) : ObserveInputs :=
  { kind := element.kind, props := element.props, children := element.children }

instance : BEq ObserveInputs where
  beq left right :=
    left.kind == right.kind && Value.sameFields left.props right.props &&
      Element.sameChildren left.children right.children

/-- The encoding of the inputs. -/
def encoding (inputs : ObserveInputs) : Encoding :=
  .tag 0x6f :: Element.contentEncoding inputs.kind inputs.props inputs.children

/-- The fingerprint of the inputs. -/
def fingerprint [Digest] (inputs : ObserveInputs) : ContentHash :=
  inputs.encoding.hash

end ObserveInputs

namespace DescribeInputs

/-- The inputs that an element with its data gives. -/
def ofElement (element : Element) (data : Option Value) : DescribeInputs :=
  { kind := element.kind, props := element.props, children := element.children, data }

instance : BEq DescribeInputs where
  beq left right :=
    left.kind == right.kind && Value.sameFields left.props right.props &&
      Element.sameChildren left.children right.children && Value.sameOption left.data right.data

/-- The encoding of the inputs. -/
def encoding (inputs : DescribeInputs) : Encoding :=
  .tag 0x64 :: (Element.contentEncoding inputs.kind inputs.props inputs.children ++
    Value.optionEncoding inputs.data)

/-- The fingerprint of the inputs. -/
def fingerprint [Digest] (inputs : DescribeInputs) : ContentHash :=
  inputs.encoding.hash

end DescribeInputs

end Phrasing
