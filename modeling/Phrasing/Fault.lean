import Phrasing.Memo.Table
import Phrasing.Value.Basic

/-!
# Errors and faults

An engine error ends a compilation or the reading of an input.  A fault is what a callback reports;
a callback that calls the engine can pass an engine error on as a fault.  When a fault returns to
the engine, an error that was passed on comes out unchanged, and any other fault becomes one error
that names the node type and the stage.
-/

namespace Phrasing

/-- What a node type may be able to do. -/
inductive Capability where
  /-- To compute data from props and children. -/
  | observe
  /-- To give a tree that stands for the node. -/
  | describe
  /-- To produce readings of its own. -/
  | visit
  deriving DecidableEq

/-- The name of a capability. -/
def Capability.name : Capability → String
  | .observe => "observe"
  | .describe => "describe"
  | .visit => "visit"

/-- The capability of a name. -/
def Capability.ofName? (name : String) : Option Capability :=
  [observe, describe, visit].find? fun capability => capability.name = name

/-- The callback in which a fault arose. -/
inductive Stage where
  /-- The observation of a node. -/
  | observe
  /-- A source of data. -/
  | source
  /-- The registration of data. -/
  | register
  /-- The description of a node. -/
  | describe
  /-- The visit of a node. -/
  | visit
  deriving DecidableEq

/-- The name of a stage. -/
def Stage.name : Stage → String
  | .observe => "observe"
  | .source => "source"
  | .register => "register"
  | .describe => "describe"
  | .visit => "visit"

/-- The stage of a name. -/
def Stage.ofName? (name : String) : Option Stage :=
  [observe, source, register, describe, visit].find? fun stage => stage.name = name

mutual

/-- Why a compilation or a reading ended without a result. -/
inductive EngineError where
  /-- A node type lacks a capability that a tree requires of it. -/
  | missingCapability (type : String) (capability : Capability)
  /-- A callback reported a fault. -/
  | callback (type : String) (stage : Stage) (fault : Fault)
  /-- A primitive has props or children it cannot be read with. -/
  | malformed (builtIn : Primitive) (reason : String)
  /-- An expansion reached a position below the depth limit. -/
  | expansionTooDeep (limit : Nat) (position : Position)
  /-- Traversal entered more nodes within each other than the depth limit. -/
  | traversalTooDeep (limit : Nat) (kind : String)
  /-- A memo table broke its invariant. -/
  | table (error : Memo.TableError)

/-- What a callback reports in place of a result. -/
inductive Fault where
  /-- A failure of its own. -/
  | plain (message : String)
  /-- An engine error passed on. -/
  | passedOn (error : EngineError)

end

mutual

/-- The wording of an error. -/
def EngineError.message : EngineError → String
  | .missingCapability type capability =>
      s!"node type `{type}` is missing required capability `{capability.name}`"
  | .callback type stage fault =>
      s!"{stage.name} failed for node type `{type}`: " ++ Fault.message fault
  | .malformed builtIn reason => s!"malformed `{builtIn.name}` node: {reason}"
  | .expansionTooDeep limit position =>
      s!"expansion exceeded depth limit {limit} at {position.text}"
  | .traversalTooDeep limit kind =>
      s!"traversal exceeded depth limit {limit} at node `{kind}`"
  | .table error => error.message

/-- The wording of a fault. -/
def Fault.message : Fault → String
  | .plain message => message
  | .passedOn error => EngineError.message error

end

mutual

/-- The wordings of what caused an error, outermost first. -/
def EngineError.causes : EngineError → List String
  | .callback _ _ fault => Fault.message fault :: Fault.causes fault
  | .missingCapability .. => []
  | .malformed .. => []
  | .expansionTooDeep .. => []
  | .traversalTooDeep .. => []
  | .table _ => []

/-- The wordings of what caused a fault, outermost first. -/
def Fault.causes : Fault → List String
  | .plain _ => []
  | .passedOn error => EngineError.message error :: EngineError.causes error

end

instance : Inhabited Fault :=
  ⟨.plain ""⟩

instance : Inhabited EngineError :=
  ⟨.callback "" .observe default⟩

namespace Fault

/-- The engine error that was passed on, if any. -/
def nested? : Fault → Option EngineError
  | .plain _ => none
  | .passedOn error => some error

/-- The error that a fault of a callback comes out as. -/
def surface (type : NodeType) (stage : Stage) (fault : Fault) : EngineError :=
  match fault.nested? with
  | some error => error
  | none => .callback type.name stage fault

@[simp]
theorem surface_passedOn (type : NodeType) (stage : Stage) (error : EngineError) :
    (passedOn error).surface type stage = error :=
  rfl

end Fault

end Phrasing
