import Phrasing.Content.Hash
import Phrasing.Number.Canonical

/-!
# Values and elements

Values are the dynamic data of a grammar: props, derived data and parse results.  Elements are its
nodes: a kind, props and ordered children.  A value can hold an element, so the two types are
declared together.

Every element carries the identity of its node and the hash of its content.  Two elements are the
same when they share a node, or when hash, kind, props and children agree; the first clause only
matters for content that differs from itself, such as a prop that is not a number.
-/

namespace Phrasing

/-- The built-in kinds of elements. -/
inductive Primitive where
  /-- Matches its text. -/
  | literal
  /-- Matches its children in order. -/
  | sequence
  /-- Matches any one of its children. -/
  | choice
  /-- Matches its child or nothing. -/
  | optional
  /-- Matches its child several times. -/
  | repeat
  deriving DecidableEq

namespace Primitive

/-- The name of a primitive. -/
def name : Primitive → String
  | .literal => "literal"
  | .sequence => "sequence"
  | .choice => "choice"
  | .optional => "optional"
  | .repeat => "repeat"

/-- The code of a primitive in encodings. -/
def code : Primitive → UInt8
  | .literal => 1
  | .sequence => 2
  | .choice => 3
  | .optional => 4
  | .repeat => 5

/-- The primitive of a name. -/
def ofName? (name : String) : Option Primitive :=
  [literal, sequence, choice, optional, .repeat].find? fun builtIn => builtIn.name = name

end Primitive

/-- A node type declared by the user of the library.  What it can do is up to a vocabulary. -/
structure NodeType where
  /-- The number that tells node types of one name apart. -/
  id : UInt64
  /-- The name, for messages. -/
  name : String
  deriving DecidableEq

/-- The kind of an element. -/
inductive Kind where
  /-- A built-in kind. -/
  | primitive (builtIn : Primitive)
  /-- A node type of the user. -/
  | custom (type : NodeType)
  deriving DecidableEq

/-- The name of a kind. -/
def Kind.name : Kind → String
  | .primitive builtIn => builtIn.name
  | .custom type => type.name

/-- The identity of a node. -/
abbrev NodeId := Nat

mutual

/-- A dynamically typed value. -/
inductive Value where
  /-- The absent value. -/
  | null
  /-- A truth value. -/
  | bool (value : Bool)
  /-- A signed integer. -/
  | int (value : Int64)
  /-- A floating-point number. -/
  | float (value : Float)
  /-- A text. -/
  | text (value : String)
  /-- An ordered list. -/
  | list (items : List Value)
  /-- A map from texts, in ascending order of its keys. -/
  | map (fields : List (String × Value))
  /-- An element. -/
  | element (node : Element)

/-- A node of a grammar. -/
inductive Element where
  /-- A node with its identity, kind, props, children and content hash. -/
  | node (id : NodeId) (kind : Kind) (props : List (String × Value)) (children : List Element)
    (hash : ContentHash)

end

instance : Inhabited Value :=
  ⟨.null⟩

/-- Named values, in ascending order of their names. -/
abbrev Props := List (String × Value)

mutual

/-- Whether two values are the same. -/
def Value.same : Value → Value → Bool
  | .null, .null => true
  | .bool left, .bool right => left == right
  | .int left, .int right => left == right
  | .float left, .float right => Number.same left right
  | .text left, .text right => left == right
  | .list left, .list right => Value.sameItems left right
  | .map left, .map right => Value.sameFields left right
  | .element left, .element right => Element.same left right
  | _, _ => false

/-- Whether two lists of values are the same. -/
def Value.sameItems : List Value → List Value → Bool
  | [], [] => true
  | left :: lefts, right :: rights => Value.same left right && Value.sameItems lefts rights
  | _, _ => false

/-- Whether two maps have the same keys with the same values. -/
def Value.sameFields : List (String × Value) → List (String × Value) → Bool
  | [], [] => true
  | (key, left) :: lefts, (other, right) :: rights =>
      key == other && Value.same left right && Value.sameFields lefts rights
  | _, _ => false

/-- Whether two elements are the same. -/
def Element.same : Element → Element → Bool
  | .node id kind props children hash, .node otherId otherKind otherProps otherChildren otherHash =>
      id == otherId ||
        (hash == otherHash && kind == otherKind && Value.sameFields props otherProps &&
          Element.sameChildren children otherChildren)

/-- Whether two lists of elements are the same. -/
def Element.sameChildren : List Element → List Element → Bool
  | [], [] => true
  | left :: lefts, right :: rights =>
      Element.same left right && Element.sameChildren lefts rights
  | _, _ => false

end

instance : BEq Value :=
  ⟨Value.same⟩

instance : BEq Element :=
  ⟨Element.same⟩

namespace Element

/-- The identity of the node. -/
def id : Element → NodeId
  | .node id _ _ _ _ => id

/-- The kind. -/
def kind : Element → Kind
  | .node _ kind _ _ _ => kind

/-- The props. -/
def props : Element → Props
  | .node _ _ props _ _ => props

/-- The children. -/
def children : Element → List Element
  | .node _ _ _ children _ => children

/-- The hash of kind, props and children, computed when the node was made. -/
def contentHash : Element → ContentHash
  | .node _ _ _ _ hash => hash

/-- The name of the kind. -/
def kindName (element : Element) : String :=
  element.kind.name

/-- The value of one prop. -/
def prop? (element : Element) (key : String) : Option Value :=
  element.props.lookup key

/-- The primitive, if the kind is built in. -/
def primitive? (element : Element) : Option Primitive :=
  match element.kind with
  | .primitive builtIn => some builtIn
  | .custom _ => none

/-- Whether two elements share a node. -/
def sharesNode (left right : Element) : Bool :=
  left.id == right.id

end Element

namespace Value

/-- Whether a value is absent. -/
def isNull : Value → Bool
  | .null => true
  | _ => false

/-- The truth value that a value is. -/
def bool? : Value → Option Bool
  | .bool value => some value
  | _ => none

/-- The integer that a value is. -/
def int? : Value → Option Int64
  | .int value => some value
  | _ => none

/-- The number that a value is, with an integer rounded to the nearest floating-point number. -/
def number? : Value → Option Float
  | .float value => some value
  | .int value => some (Float.ofInt value.toInt)
  | _ => none

/-- The text that a value is. -/
def text? : Value → Option String
  | .text value => some value
  | _ => none

/-- The items of a list. -/
def list? : Value → Option (List Value)
  | .list items => some items
  | _ => none

/-- The fields of a map. -/
def map? : Value → Option Props
  | .map fields => some fields
  | _ => none

/-- The element that a value is. -/
def element? : Value → Option Element
  | .element node => some node
  | _ => none

end Value

/-- Data that can be given where a value is expected. -/
class ToValue (α : Type) where
  /-- The value that stands for the data. -/
  toValue : α → Value

export ToValue (toValue)

instance : ToValue Value := ⟨fun value => value⟩

instance : ToValue Bool := ⟨.bool⟩

instance : ToValue Int64 := ⟨.int⟩

instance : ToValue Int32 := ⟨fun value => .int value.toInt64⟩

instance : ToValue Float := ⟨.float⟩

instance : ToValue String := ⟨.text⟩

instance : ToValue Element := ⟨.element⟩

instance {α : Type} [ToValue α] : ToValue (Option α) where
  toValue
    | none => .null
    | some data => toValue data

end Phrasing
