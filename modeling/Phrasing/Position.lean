import Phrasing.Json.Basic

/-!
# Positions

A position leads from the root of an expanded tree to one of its nodes, through children and
through descriptions.  Positions order into branches: the ancestors of a position are exactly the
positions it starts with.
-/

namespace Phrasing

/-- One step from a node to a node below it. -/
inductive Segment where
  /-- To the child at an index. -/
  | child (index : UInt32)
  /-- To the tree that describes the node. -/
  | expansion
  deriving DecidableEq

/-- A place in an expanded tree, from the root down. -/
structure Position where
  /-- The steps from the root down. -/
  segments : List Segment
  deriving DecidableEq

namespace Segment

/-- The written form of a step. -/
def text : Segment → String
  | .child index => toString index.toNat
  | .expansion => "@"

/-- The JSON form of a step. -/
def toJson : Segment → Json
  | .child index => .object [("Child", .nat index.toNat)]
  | .expansion => .text "Expansion"

/-- The index that a JSON number gives, if it is one of at most 32 bits. -/
def indexOfJson? : Json → Option UInt32
  | .number literal =>
      if literal.toList.all Char.isDigit then
        match literal.toNat? with
        | some value => if value < UInt32.size then some (UInt32.ofNat value) else none
        | none => none
      else none
  | _ => none

/-- The step that a JSON document stands for. -/
def ofJson? : Json → Option Segment
  | .text "Expansion" => some .expansion
  | .object [("Expansion", .null)] => some .expansion
  | .object [("Child", index)] => (indexOfJson? index).map .child
  | _ => none

end Segment

namespace Position

/-- The position of the root. -/
def root : Position :=
  ⟨[]⟩

/-- The position of a child. -/
def child (position : Position) (index : Nat) : Position :=
  ⟨position.segments ++ [.child (UInt32.ofNat index)]⟩

/-- The position of the tree that describes the node here. -/
def expansion (position : Position) : Position :=
  ⟨position.segments ++ [.expansion]⟩

/-- The number of steps from the root. -/
def depth (position : Position) : Nat :=
  position.segments.length

/-- Whether `ancestor` is this position or lies above it. -/
def startsWith (position ancestor : Position) : Bool :=
  ancestor.segments.isPrefixOf position.segments

/-- This position and every position above it, deepest first. -/
def ancestors (position : Position) : List Position :=
  (List.range (position.depth + 1)).reverse.map fun depth => ⟨position.segments.take depth⟩

/-- The written form of a position. -/
def text (position : Position) : String :=
  match position.segments with
  | [] => "/"
  | segments => String.join (segments.map fun segment => "/" ++ segment.text)

/-- The form of a position in inspection text. -/
def inspect (position : Position) : String :=
  "NodePath(" ++ position.text ++ ")"

/-- The JSON form of a position. -/
def toJson (position : Position) : Json :=
  .list Segment.toJson position.segments

/-- The position that a JSON document stands for. -/
def ofJson? : Json → Option Position
  | .array items => (items.mapM Segment.ofJson?).map .mk
  | _ => none

end Position

end Phrasing
