import Phrasing.Inspection
import Phrasing.Json.Basic
import Phrasing.Number.Written
import Phrasing.Value.Basic

/-!
# Written forms of values and elements

The JSON form of a value is the bare datum, with a number that is not finite written as null.  The
inspection form names the sort of every value.  An element is shown by the name of its kind, its
props and its children; its identity and its hash are not part of any written form.
-/

namespace Phrasing

/-- The JSON form of a number. -/
def Number.toJson (number : Float) : Json :=
  if isFinite number then .number (documentStyle.write number) else .null

mutual

/-- The JSON form of a value. -/
def Value.toJson : Value → Json
  | .null => .null
  | .bool value => .bool value
  | .int value => .int value.toInt
  | .float value => Number.toJson value
  | .text value => .text value
  | .list items => .array (Value.itemsToJson items)
  | .map fields => .object (Value.fieldsToJson fields)
  | .element node => Element.toJson node

/-- The JSON forms of the items of a list. -/
def Value.itemsToJson : List Value → List Json
  | [] => []
  | item :: rest => Value.toJson item :: Value.itemsToJson rest

/-- The JSON forms of the fields of a map. -/
def Value.fieldsToJson : List (String × Value) → List (String × Json)
  | [] => []
  | (key, value) :: rest => (key, Value.toJson value) :: Value.fieldsToJson rest

/-- The JSON form of an element. -/
def Element.toJson : Element → Json
  | .node _ kind props children _ =>
      .object [("kind", .text kind.name), ("props", .object (Value.fieldsToJson props)),
        ("children", .array (Element.childrenToJson children))]

/-- The JSON forms of the children of an element. -/
def Element.childrenToJson : List Element → List Json
  | [] => []
  | child :: rest => Element.toJson child :: Element.childrenToJson rest

end

mutual

/-- The outline of a value. -/
def Value.outline : Value → Outline
  | .null => .atom "Null"
  | .bool value => .tagged "Bool" (.bool value)
  | .int value => .tagged "Int" (.atom (toString value.toInt))
  | .float value => .tagged "Float" (.atom (Number.inspect value))
  | .text value => .tagged "Str" (.text value)
  | .list items => .tagged "List" (.sequence (Value.itemsOutline items))
  | .map fields => .tagged "Map" (.mapping (Value.fieldsOutline fields))
  | .element node => .tagged "Element" (Element.outline node)

/-- The outlines of the items of a list. -/
def Value.itemsOutline : List Value → List Outline
  | [] => []
  | item :: rest => Value.outline item :: Value.itemsOutline rest

/-- The outlines of the fields of a map. -/
def Value.fieldsOutline : List (String × Value) → List (String × Outline)
  | [] => []
  | (key, value) :: rest => (key, Value.outline value) :: Value.fieldsOutline rest

/-- The outline of an element, in which empty props and children are left out. -/
def Element.outline : Element → Outline
  | .node _ kind props children _ =>
      .record "Element" false
        (("kind", .text kind.name) ::
          (if props.isEmpty then []
            else [("props", .mapping (Value.fieldsOutline props))]) ++
          (if children.isEmpty then []
            else [("children", .sequence (Element.childrenOutline children))]))

/-- The outlines of the children of an element. -/
def Element.childrenOutline : List Element → List Outline
  | [] => []
  | child :: rest => Element.outline child :: Element.childrenOutline rest

end

end Phrasing
