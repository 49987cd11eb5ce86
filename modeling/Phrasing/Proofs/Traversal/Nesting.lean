import Mathlib.Logic.Relation
import Phrasing.Compilation
import Phrasing.Proofs.Grammar.Nodes
import Phrasing.Proofs.Traversal.Noting

/-!
# Activities within activities

While the engine reads with a node, it reads with nodes below, visits hand nodes and elements back to
it, and elements are expanded, which runs further callbacks.  An activity calls another one if
everything before succeeds and the other one comes to run, in the world that is reached.  Whatever
fails does so alone, with an error of its own or as a callback reports a fault, or because an activity
fails that it calls.
-/

namespace Phrasing

open Relation Traversal

/-- A callback runs a computation of the engine after other things that succeed, and passes its error
on if it fails. -/
def PassesOn {τ α β : Type} (callback : EStateM Fault τ α) (start : τ)
    (computation : EStateM EngineError τ β) (later : τ) : Prop :=
  ∃ (γ : Type) (before : EStateM Fault τ γ) (result : γ) (rest : γ → EStateM Fault τ α)
    (next : β → EStateM Fault τ α),
    callback = before >>= rest ∧ before start = .ok result later ∧
      rest result = passingOn computation >>= next

theorem PassesOn.fails {τ α β : Type} {callback : EStateM Fault τ α} {start later after : τ}
    {computation : EStateM EngineError τ β} {error : EngineError}
    (passes : PassesOn callback start computation later)
    (failed : computation later = .error error after) :
    callback start = .error (.passedOn error) after := by
  obtain ⟨γ, before, result, rest, next, rfl, run, delegates⟩ := passes
  have passed : passingOn computation later = .error (.passedOn error) after := by
    rw [passingOn, failed]
  rw [bind_of_ok run, delegates, bind_of_error passed]

theorem passesOn_self {τ α : Type} (computation : EStateM EngineError τ α) (start : τ) :
    PassesOn (passingOn computation) start computation start :=
  ⟨Unit, pure (), (), fun _ => passingOn computation, pure, rfl, rfl, (bind_pure _).symm⟩

/-- What the visit of a node is given. -/
def Expansion.visitContext (node : Expansion) : VisitContext where
  data := node.data
  props := node.element.props
  node

/-- What the observation of an element is given. -/
def Element.observeContext (element : Element) : ObserveContext where
  props := element.props
  children := element.children

/-- What the description of an element with some data is given. -/
def Element.describeContext (element : Element) (data : Option Value) : DescribeContext where
  data
  props := element.props
  children := element.children

/-- Something that the engine does, in the world in which it begins. -/
inductive Activity (σ : Type) where
  /-- To read with a node, with `room` steps of depth left. -/
  | read (room : Nat) (node : Expansion) (reading : Reading) (world : World σ)
  /-- To read with an element that a visit hands over, with `room` steps of depth left. -/
  | traverse (room : Nat) (element : Element) (reading : Reading) (world : World σ)
  /-- To expand an element at a position, with `room` steps of depth left. -/
  | expand (room : Nat) (position : Position) (element : Element) (world : World σ)

namespace Engine

variable {σ : Type}

/-- The data of an element before it is expanded; primitives have none. -/
def dataOf (engine : Engine σ) (element : Element) : Action σ EngineError (Option Value) :=
  match element.kind with
  | .primitive _ => pure none
  | .custom type => engine.freshData type element

/-- The description of an element, with the node type that describes it, if there is one. -/
def describer? (engine : Engine σ) (element : Element) :
    Option (NodeType × (DescribeContext → Action σ Fault Element)) :=
  match element.kind with
  | .primitive _ => none
  | .custom type => (engine.vocabulary type).describe.map fun describe => (type, describe)

/-- What visits are given to ask of the engine, with `room` steps of depth left. -/
def traverser (engine : Engine σ) (room : Nat) : Traverser σ where
  config := engine.config
  traverse element reading := do
    let expansion ← engine.expandAdHoc element
    engine.traverseAt room expansion reading
  traverseExpanded := engine.traverseAt room

/-- What is remembered of an element by its content, and the world in which that has been found
out. -/
def recollect (engine : Engine σ) (element : Element) (world : World σ) : Option Expansion × World σ :=
  if engine.config.remember then
    let (found, store) := world.store.lookupAdHoc element
    (found, { world with store })
  else (none, world)

/-- An activity calls another one: it comes to run it, after other things that succeed. -/
inductive Calls (engine : Engine σ) : Activity σ → Activity σ → Prop
  /-- A primitive reads a child. -/
  | child {room : Nat} {node : Expansion} {reading : Reading} {world : World σ}
      {builtIn : Primitive} {read : ChildRead σ} (kind : node.element.kind = .primitive builtIn)
      (reads : read ∈ engine.childReads (engine.traverseAt room) builtIn node reading world) :
      Calls engine (.read (room + 1) node reading world)
        (.read room read.node read.reading read.world)
  /-- A node that does not visit is read as its description. -/
  | description {room : Nat} {node body : Expansion} {reading : Reading} {world : World σ}
      {type : NodeType} (kind : node.element.kind = .custom type)
      (unvisited : (engine.vocabulary type).visit = none)
      (described : node.description? = some body) :
      Calls engine (.read (room + 1) node reading world) (.read room body reading world)
  /-- A visit hands an element to the traverser, and passes its error on. -/
  | visitTraverse {room : Nat} {node : Expansion} {reading : Reading} {world : World σ}
      {type : NodeType} {visit : Reading → VisitContext → Traverser σ → Action σ Fault (List Reading)}
      {element : Element} {next : Reading} {later : World σ}
      (kind : node.element.kind = .custom type)
      (visits : (engine.vocabulary type).visit = some visit)
      (passes : PassesOn (visit reading node.visitContext (engine.traverser room)) world
        ((engine.traverser room).traverse element next) later) :
      Calls engine (.read (room + 1) node reading world) (.traverse room element next later)
  /-- A visit hands a node to the traverser, and passes its error on. -/
  | visitTraverseExpanded {room : Nat} {node : Expansion} {reading : Reading} {world : World σ}
      {type : NodeType} {visit : Reading → VisitContext → Traverser σ → Action σ Fault (List Reading)}
      {below : Expansion} {next : Reading} {later : World σ}
      (kind : node.element.kind = .custom type)
      (visits : (engine.vocabulary type).visit = some visit)
      (passes : PassesOn (visit reading node.visitContext (engine.traverser room)) world
        ((engine.traverser room).traverseExpanded below next) later) :
      Calls engine (.read (room + 1) node reading world) (.read room below next later)
  /-- An element that is handed over and not remembered is expanded. -/
  | expansion {room : Nat} {element : Element} {reading : Reading} {world later : World σ}
      (missing : engine.recollect element world = (none, later)) :
      Calls engine (.traverse room element reading world)
        (.expand (engine.config.maxDepth + 1) .root element later)
  /-- The expansion of an element that is handed over is read. -/
  | expanded {room : Nat} {element : Element} {reading : Reading} {world later : World σ}
      {expansion : Expansion} (run : engine.expandAdHoc element world = .ok expansion later) :
      Calls engine (.traverse room element reading world) (.read room expansion reading later)
  /-- A child of an element that is not described is expanded, after those before it. -/
  | expandChild {room : Nat} {position : Position} {element child : Element} {index : Nat}
      {world middle later : World σ} {data : Option Value} {expansions : List Expansion}
      (derived : engine.dataOf element world = .ok data middle)
      (plain : engine.describer? element = none)
      (present : element.children[index]? = some child)
      (earlier : (element.children.zipIdx.take index).mapM
        (fun entry => engine.freshAt room (position.child entry.2) entry.1) middle =
          .ok expansions later) :
      Calls engine (.expand (room + 1) position element world)
        (.expand room (position.child index) child later)
  /-- The description of an element is expanded. -/
  | expandDescription {room : Nat} {position : Position} {element output : Element}
      {world middle later : World σ} {type : NodeType}
      {describe : DescribeContext → Action σ Fault Element} {data : Option Value}
      (derived : engine.dataOf element world = .ok data middle)
      (describes : engine.describer? element = some (type, describe))
      (run : describe (element.describeContext data) middle = .ok output later) :
      Calls engine (.expand (room + 1) position element world)
        (.expand room position.expansion output later)

/-- A callback that an activity runs, of a node type and in a stage, reports a fault. -/
inductive Raises (engine : Engine σ) : Activity σ → NodeType → Stage → Fault → World σ → Prop
  /-- The visit of the node that is read. -/
  | visit {room : Nat} {node : Expansion} {reading : Reading} {world after : World σ}
      {type : NodeType} {visit : Reading → VisitContext → Traverser σ → Action σ Fault (List Reading)}
      {fault : Fault} (kind : node.element.kind = .custom type)
      (visits : (engine.vocabulary type).visit = some visit)
      (fails : visit reading node.visitContext (engine.traverser room) world =
        .error fault after) :
      Raises engine (.read (room + 1) node reading world) type .visit fault after
  /-- The source of the type of the element. -/
  | sourceFor {room : Nat} {position : Position} {element : Element} {world after : World σ}
      {type : NodeType} {source : Transform σ} {fault : Fault} (kind : element.kind = .custom type)
      (sources : engine.processor.sourceFor? type = some source)
      (fails : source (.element element) world = .error fault after) :
      Raises engine (.expand (room + 1) position element world) type .source fault after
  /-- The observation of the element. -/
  | observe {room : Nat} {position : Position} {element : Element} {world after : World σ}
      {type : NodeType} {observe : ObserveContext → Action σ Fault Value} {fault : Fault}
      (kind : element.kind = .custom type) (unsourced : engine.processor.sourceFor? type = none)
      (observes : (engine.vocabulary type).observe = some observe)
      (fails : observe element.observeContext world = .error fault after) :
      Raises engine (.expand (room + 1) position element world) type .observe fault after
  /-- The common source, after the observation. -/
  | source {room : Nat} {position : Position} {element : Element} {world middle after : World σ}
      {type : NodeType} {observe : ObserveContext → Action σ Fault Value} {observed : Value}
      {fault : Fault} (kind : element.kind = .custom type)
      (unsourced : engine.processor.sourceFor? type = none)
      (observes : (engine.vocabulary type).observe = some observe)
      (run : observe element.observeContext world = .ok observed middle)
      (fails : engine.processor.sourced observed middle = .error fault after) :
      Raises engine (.expand (room + 1) position element world) type .source fault after
  /-- The registration, after the observation and the common source. -/
  | register {room : Nat} {position : Position} {element : Element}
      {world middle later after : World σ} {type : NodeType}
      {observe : ObserveContext → Action σ Fault Value} {observed raw : Value} {fault : Fault}
      (kind : element.kind = .custom type) (unsourced : engine.processor.sourceFor? type = none)
      (observes : (engine.vocabulary type).observe = some observe)
      (run : observe element.observeContext world = .ok observed middle)
      (sourced : engine.processor.sourced observed middle = .ok raw later)
      (fails : engine.processor.registered raw later = .error fault after) :
      Raises engine (.expand (room + 1) position element world) type .register fault after
  /-- The description of the element, after its data are derived. -/
  | describe {room : Nat} {position : Position} {element : Element} {world middle after : World σ}
      {type : NodeType} {describe : DescribeContext → Action σ Fault Element} {data : Option Value}
      {fault : Fault} (derived : engine.dataOf element world = .ok data middle)
      (describes : engine.describer? element = some (type, describe))
      (fails : describe (element.describeContext data) middle = .error fault after) :
      Raises engine (.expand (room + 1) position element world) type .describe fault after

end Engine

/-- An activity fails. -/
def Activity.Fails {σ : Type} (engine : Engine σ) :
    Activity σ → EngineError → World σ → Prop
  | .read room node reading world, error, after =>
      engine.traverseAt room node reading world = .error error after
  | .traverse room element reading world, error, after =>
      (engine.traverser room).traverse element reading world = .error error after
  | .expand room position element world, error, after =>
      engine.freshAt room position element world = .error error after

/-- An error arises in an activity itself. -/
inductive Engine.Arises {σ : Type} (engine : Engine σ) :
    Activity σ → EngineError → World σ → Prop
  /-- A node is read below the limit on depth. -/
  | readTooDeep {node : Expansion} {reading : Reading} {world : World σ} :
      Arises engine (.read 0 node reading world)
        (.traversalTooDeep engine.config.maxDepth node.element.kindName) world
  /-- An element is expanded below the limit on depth. -/
  | expandTooDeep {position : Position} {element : Element} {world : World σ} :
      Arises engine (.expand 0 position element world)
        (.expansionTooDeep engine.config.maxDepth position) world
  /-- A node has neither a visit nor a description. -/
  | bare {room : Nat} {node : Expansion} {reading : Reading} {world : World σ} {type : NodeType}
      (kind : node.element.kind = .custom type) (unvisited : (engine.vocabulary type).visit = none)
      (undescribed : node.description? = none) :
      Arises engine (.read (room + 1) node reading world) (.missingCapability type.name .describe)
        world
  /-- A primitive is malformed. -/
  | malformed {room : Nat} {node : Expansion} {reading : Reading} {world after : World σ}
      {builtIn blamed : Primitive} {reason : String}
      (kind : node.element.kind = .primitive builtIn) :
      Arises engine (.read (room + 1) node reading world) (.malformed blamed reason) after
  /-- A callback reports a fault. -/
  | raised {activity : Activity σ} {type : NodeType} {stage : Stage} {fault : Fault}
      {after : World σ} (raises : engine.Raises activity type stage fault after) :
      Arises engine activity (fault.surface type stage) after

end Phrasing
