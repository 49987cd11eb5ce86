import Phrasing.Expansion.Fresh
import Phrasing.Traversal.Primitive

/-!
# Traversal

Traversal leads readings through an expansion.  A node type that visits decides on its own readings
and can hand nodes and elements back; any other node of a declared type is read as its description.
The count of steps that remain bounds how deep nodes are entered within each other.
-/

namespace Phrasing.Engine

variable {σ : Type}

/-- An outcome that does not depend on the world. -/
def outcome {ε α : Type} : Except ε α → EStateM ε σ α
  | .ok result => pure result
  | .error error => throw error

/-- The readings that go on from a reading with a primitive. -/
def readPrimitive (engine : Engine σ)
    (child : Expansion → Reading → Action σ EngineError (List Reading)) (builtIn : Primitive)
    (node : Expansion) (reading : Reading) : Action σ EngineError (List Reading) :=
  match builtIn with
  | .literal => do
      let literal ← outcome (Traversal.Literal.ofElement node.element)
      return literal.read reading
  | .sequence => do
      let slots ← outcome (node.children.mapM fun child => Traversal.Slot.ofElement child.element)
      Traversal.readSequence child (node.children.zip slots) (node.element.prop? "value") reading
  | .choice =>
      Traversal.readChoice child node.children (node.element.prop? "value") reading
  | .optional => do
      let only ← outcome (Traversal.onlyChild .optional node)
      let preferred ← outcome (Traversal.switch .optional node.element "preferred")
      Traversal.readOptional child only preferred reading
  | .repeat => do
      let only ← outcome (Traversal.onlyChild .repeat node)
      let bounds ← outcome (Traversal.Bounds.ofElement engine.config.maxRepeat node.element)
      Traversal.readRepeat (child only) bounds reading

variable [Digest]

/-- The expansion of an element that is not part of the compiled tree, remembered by its content. -/
def expandAdHoc (engine : Engine σ) (element : Element) : Action σ EngineError Expansion :=
  if engine.config.remember then do
    let found ← modifyGet fun (world : World σ) =>
      let (found, store) := world.store.lookupAdHoc element
      (found, { world with store })
    match found with
    | some expansion => return expansion
    | none =>
        let expansion ← engine.expandFresh element
        modify fun world => { world with store := world.store.storeAdHoc element expansion }
        return expansion
  else engine.expandFresh element

/-- The readings that go on from a reading with a node, with `room` steps of depth left. -/
def traverseAt (engine : Engine σ) :
    Nat → Expansion → Reading → Action σ EngineError (List Reading)
  | 0, node, _ => throw (.traversalTooDeep engine.config.maxDepth node.element.kindName)
  | room + 1, node, reading =>
      match node.element.kind with
      | .primitive builtIn => engine.readPrimitive (engine.traverseAt room) builtIn node reading
      | .custom type =>
          match (engine.vocabulary type).visit with
          | some visit =>
              surfacing type .visit (visit reading
                { data := node.data, props := node.element.props, node }
                { config := engine.config
                  traverse := fun element reading => do
                    let expansion ← engine.expandAdHoc element
                    engine.traverseAt room expansion reading
                  traverseExpanded := engine.traverseAt room })
          | none =>
              match node.description? with
              | some body => engine.traverseAt room body reading
              | none => throw (.missingCapability type.name .describe)

/-- The readings that go on from a reading with a node. -/
def traverse (engine : Engine σ) (node : Expansion) (reading : Reading) :
    Action σ EngineError (List Reading) :=
  engine.traverseAt (engine.config.maxDepth + 1) node reading

end Phrasing.Engine
