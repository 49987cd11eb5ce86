import Phrasing.Config
import Phrasing.Fault
import Phrasing.Reading
import Phrasing.Store.Basic

/-!
# Vocabularies

A vocabulary gives the node types of a grammar their capabilities.  Callbacks run in a world that
holds the memo store and whatever state the callbacks keep for themselves; that state survives
faults, so it can record every call.
-/

namespace Phrasing

/-- The state in which callbacks run. -/
structure World (σ : Type) where
  /-- The memo store. -/
  store : Store
  /-- What the callbacks keep for themselves. -/
  ambient : σ

/-- A computation in a world that may fail; what it did to the world remains when it fails. -/
abbrev Action (σ ε α : Type) := EStateM ε (World σ) α

/-- What an observation is given. -/
structure ObserveContext where
  /-- The props of the element. -/
  props : Props
  /-- Its children. -/
  children : List Element

/-- What a description is given. -/
structure DescribeContext where
  /-- The derived data of the node, if it observes anything. -/
  data : Option Value
  /-- The props of the element. -/
  props : Props
  /-- Its children. -/
  children : List Element

/-- What a visit is given. -/
structure VisitContext where
  /-- The derived data of the node. -/
  data : Option Value
  /-- The props of the element. -/
  props : Props
  /-- The expanded node. -/
  node : Expansion

/-- What a visit can ask of the engine. -/
structure Traverser (σ : Type) where
  /-- The configuration. -/
  config : Config
  /-- Reads with an element that is not part of the compiled tree. -/
  traverse : Element → Reading → Action σ EngineError (List Reading)
  /-- Reads with an expanded node. -/
  traverseExpanded : Expansion → Reading → Action σ EngineError (List Reading)

/-- Turns one value into another. -/
abbrev Transform (σ : Type) := Value → Action σ Fault Value

/-- What a node type can do. -/
structure Capabilities (σ : Type) where
  /-- Computes a raw value from props and children. -/
  observe : Option (ObserveContext → Action σ Fault Value) := none
  /-- Gives the tree that stands for a node. -/
  describe : Option (DescribeContext → Action σ Fault Element) := none
  /-- Produces the readings that go on from a reading. -/
  visit : Option (Reading → VisitContext → Traverser σ → Action σ Fault (List Reading)) := none

namespace Capabilities

variable {σ : Type}

/-- Whether a capability is present. -/
def has (capabilities : Capabilities σ) : Capability → Bool
  | .observe => capabilities.observe.isSome
  | .describe => capabilities.describe.isSome
  | .visit => capabilities.visit.isSome

/-- The outline of a node type with its capabilities. -/
def outline (capabilities : Capabilities σ) (type : NodeType) : Outline :=
  .record "NodeType" false
    [("id", .atom (toString type.id.toNat)), ("name", .text type.name),
      ("observe", .bool (capabilities.has .observe)),
      ("describe", .bool (capabilities.has .describe)),
      ("visit", .bool (capabilities.has .visit))]

end Capabilities

/-- The capabilities of every node type. -/
abbrev Vocabulary (σ : Type) := NodeType → Capabilities σ

/-- Runs a callback of a node type, so that its fault comes out as an error. -/
def surfacing {σ α : Type} (type : NodeType) (stage : Stage) (callback : EStateM Fault σ α) :
    EStateM EngineError σ α :=
  fun state =>
    match callback state with
    | .ok result state => .ok result state
    | .error fault state => .error (fault.surface type stage) state

/-- Runs a computation of the engine inside a callback, so that its error is passed on. -/
def passingOn {σ α : Type} (computation : EStateM EngineError σ α) : EStateM Fault σ α :=
  fun state =>
    match computation state with
    | .ok result state => .ok result state
    | .error error state => .error (.passedOn error) state

end Phrasing
