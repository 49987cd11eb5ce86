import Phrasing.Value.Written

/-!
# Expansions

An expansion is an element tree in which every node carries its derived data, and every node with a
description carries the expansion of that description in place of its children.
-/

namespace Phrasing

/-- An expanded element tree. -/
inductive Expansion where
  /-- A node with its children expanded in place. -/
  | structural (element : Element) (data : Option Value) (children : List Expansion)
  /-- A node with the expansion of its description. -/
  | described (element : Element) (data : Option Value) (body : Expansion)

namespace Expansion

/-- The element at the root. -/
def element : Expansion → Element
  | .structural element _ _ => element
  | .described element _ _ => element

/-- The derived data of the root. -/
def data : Expansion → Option Value
  | .structural _ data _ => data
  | .described _ data _ => data

/-- The expanded children of the root, none if it is described. -/
def children : Expansion → List Expansion
  | .structural _ _ children => children
  | .described _ _ _ => []

/-- The expansion of the description of the root, if it has one. -/
def description? : Expansion → Option Expansion
  | .structural _ _ _ => none
  | .described _ _ body => some body

mutual

/-- The number of nodes. -/
def nodeCount : Expansion → Nat
  | .structural _ _ children => 1 + nodeCounts children
  | .described _ _ body => 1 + nodeCount body

/-- The number of nodes in several expansions. -/
def nodeCounts : List Expansion → Nat
  | [] => 0
  | first :: rest => nodeCount first + nodeCounts rest

end

/-- The first node that is not described, following descriptions from the root. -/
def innermost : Expansion → Expansion
  | .structural element data children => .structural element data children
  | .described _ _ body => innermost body

mutual

/-- The JSON form of an expansion. -/
def toJson : Expansion → Json
  | .structural element data children =>
      .object [("kind", .text element.kindName), ("props", .object (Value.fieldsToJson element.props)),
        ("data", .option Value.toJson data), ("children", .array (listToJson children))]
  | .described element data body =>
      .object [("kind", .text element.kindName), ("props", .object (Value.fieldsToJson element.props)),
        ("data", .option Value.toJson data), ("described", toJson body)]

/-- The JSON forms of several expansions. -/
def listToJson : List Expansion → List Json
  | [] => []
  | first :: rest => toJson first :: listToJson rest

end

end Expansion

end Phrasing
