import Phrasing.Content.Encoding
import Phrasing.Value.Basic
import Phrasing.Value.Fields

/-!
# Canonical encodings of values and elements

Every value has an encoding whose writes open with the sort of the value.  Lists and maps carry
their length, and an element is represented by the hash of its own encoding, so encoding a node
never walks the trees below its children.
-/

namespace Phrasing

/-- The encoding of a kind. -/
def Kind.encoding : Kind → Encoding
  | .primitive builtIn => [.tag 0x10, .tag builtIn.code]
  | .custom type => [.tag 0x11, .word type.id, .text type.name]

/-- The encoding of an element, the hash of its content. -/
def Element.encoding (element : Element) : Encoding :=
  [.hash element.contentHash]

mutual

/-- The encoding of a value. -/
def Value.encoding : Value → Encoding
  | .null => [.tag 0]
  | .bool value => [.tag 1, .bool value]
  | .int value => [.tag 2, .int value]
  | .float value => [.tag 3, .float value]
  | .text value => [.tag 4, .text value]
  | .list items => .tag 5 :: .length items.length :: Value.itemsEncoding items
  | .map fields => .tag 6 :: .length fields.length :: Value.fieldsEncoding fields
  | .element node => .tag 7 :: node.encoding

/-- The encodings of the items of a list, one after another. -/
def Value.itemsEncoding : List Value → Encoding
  | [] => []
  | item :: rest => Value.encoding item ++ Value.itemsEncoding rest

/-- The encodings of the fields of a map, one after another. -/
def Value.fieldsEncoding : List (String × Value) → Encoding
  | [] => []
  | (key, value) :: rest => .text key :: (Value.encoding value ++ Value.fieldsEncoding rest)

end

/-- The encoding of props. -/
def Props.encoding (props : Props) : Encoding :=
  .length props.length :: Value.fieldsEncoding props

/-- The encoding of a list of elements. -/
def Element.listEncoding (elements : List Element) : Encoding :=
  .length elements.length :: elements.flatMap Element.encoding

/-- The encoding of a value that may be missing. -/
def Value.optionEncoding : Option Value → Encoding
  | none => [.tag 0x20]
  | some value => .tag 0x21 :: value.encoding

namespace Element

/-- The encoding of the content of a node. -/
def contentEncoding (kind : Kind) (props : Props) (children : List Element) : Encoding :=
  kind.encoding ++ Props.encoding props ++ listEncoding children

variable [Digest]

/-- A node with the hash of its content. -/
def make (id : NodeId) (kind : Kind) (props : Props) (children : List Element) : Element :=
  .node id kind props children (contentEncoding kind props children).hash

/-- A node of a declared type, without props and children. -/
def ofType (id : NodeId) (type : NodeType) : Element :=
  make id (.custom type) [] []

/-- A literal. -/
def literal (id : NodeId) (text : String) : Element :=
  make id (.primitive .literal) [("text", .text text)] []

/-- A sequence. -/
def sequence (id : NodeId) (children : List Element) : Element :=
  make id (.primitive .sequence) [] children

/-- A choice. -/
def choice (id : NodeId) (children : List Element) : Element :=
  make id (.primitive .choice) [] children

/-- An optional element. -/
def optional (id : NodeId) (child : Element) : Element :=
  make id (.primitive .optional) [] [child]

/-- A repeated element. -/
def repeated (id : NodeId) (child : Element) : Element :=
  make id (.primitive .repeat) [] [child]

/-- A node like this one, with a prop set. -/
def withProp (id : NodeId) (element : Element) (key : String) (value : Value) : Element :=
  make id element.kind (Fields.insert key value element.props) element.children

/-- A node like this one, with a child added at the end. -/
def withChild (id : NodeId) (element child : Element) : Element :=
  make id element.kind element.props (element.children ++ [child])

end Element

end Phrasing
