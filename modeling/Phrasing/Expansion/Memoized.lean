import Phrasing.Processor

/-!
# Memoized expansion

Expansion with a memo store in hand.  The data of a node are looked up by its position before they
are computed, and so is the expansion of a described node; a stored expansion is reused as a whole,
and everything stored below it counts as used.  What was stored before an error stays stored.  A
log tells which nodes had their callbacks run.
-/

namespace Phrasing

/-- What the callbacks of a node compute. -/
inductive Task where
  /-- Its data: observation, sources and registration. -/
  | data
  /-- Its description. -/
  | description
  deriving DecidableEq

/-- One event in the log of a compilation: the callbacks of a node are run. -/
structure Call where
  /-- The position of the node. -/
  position : Position
  /-- What they compute. -/
  task : Task
  deriving DecidableEq

/-- A compilation under way: the store it has taken out of the world, and the world. -/
structure Pass (σ : Type) where
  /-- The store taken out. -/
  store : Store
  /-- The world in which callbacks run. -/
  world : World σ
  /-- The log, oldest event first. -/
  calls : List Call := []

namespace Pass

variable {σ ε α : Type}

/-- Runs an action in the world of a pass. -/
def act (action : Action σ ε α) : EStateM ε (Pass σ) α :=
  fun pass =>
    match action pass.world with
    | .ok result world => .ok result { pass with world }
    | .error error world => .error error { pass with world }

/-- Runs the callbacks of a node, and logs that they are run. -/
def run (call : Call) (callbacks : Action σ ε α) : EStateM ε (Pass σ) α :=
  fun pass => act callbacks { pass with calls := pass.calls ++ [call] }

/-- Runs an operation on the observations. -/
def onObservations
    (operation : Memo.Table ObserveInputs Value →
      Except Memo.TableError (α × Memo.Table ObserveInputs Value)) :
    EStateM EngineError (Pass σ) α :=
  fun pass =>
    match operation pass.store.observations with
    | .ok (result, observations) => .ok result { pass with store := { pass.store with observations } }
    | .error error => .error (.table error) pass

/-- Runs an operation on the expansions. -/
def onExpansions
    (operation : Memo.Table DescribeInputs Expansion →
      Except Memo.TableError (α × Memo.Table DescribeInputs Expansion)) :
    EStateM EngineError (Pass σ) α :=
  fun pass =>
    match operation pass.store.expansions with
    | .ok (result, expansions) => .ok result { pass with store := { pass.store with expansions } }
    | .error error => .error (.table error) pass

/-- Marks everything at or below a position as used. -/
def keepSubtree (root : Position) : EStateM ε (Pass σ) Unit :=
  fun pass => .ok () { pass with store := pass.store.keepSubtree root }

end Pass

namespace Engine

variable {σ : Type} [Digest]

/-- The data of a node at a position, from the store if they are there. -/
def recallData (position : Position) (element : Element)
    (compute : EStateM EngineError (Pass σ) (Option Value)) :
    EStateM EngineError (Pass σ) (Option Value) := do
  let inputs := ObserveInputs.ofElement element
  match ← Pass.onObservations fun table => table.lookup position inputs.fingerprint inputs with
  | .hit data => return some data
  | _ => compute

/-- The data of a node at a position, computed and stored. -/
def computeData (position : Position) (element : Element)
    (derive : Element → Action σ EngineError Value) :
    EStateM EngineError (Pass σ) (Option Value) := do
  let inputs := ObserveInputs.ofElement element
  let data ← Pass.run ⟨position, .data⟩ (derive element)
  let _ ← Pass.onObservations fun table => table.store position inputs.fingerprint inputs data
  return some data

/-- The data of a node at a position, if its type has any. -/
def memoizedData (engine : Engine σ) (position : Position) (type : NodeType) (element : Element) :
    EStateM EngineError (Pass σ) (Option Value) :=
  match engine.processor.derivation? engine.vocabulary type with
  | none => pure none
  | some derive => recallData position element (computeData position element derive)

/-- The expansion of a described node at a position, reused as a whole if it is in the store. -/
def recallExpansion (position : Position) (element : Element) (data : Option Value)
    (compute : EStateM EngineError (Pass σ) Expansion) : EStateM EngineError (Pass σ) Expansion := do
  let inputs := DescribeInputs.ofElement element data
  match ← Pass.onExpansions fun table => table.lookup position inputs.fingerprint inputs with
  | .hit expansion =>
      Pass.keepSubtree position.expansion
      return expansion
  | _ => compute

/-- The expansion of a described node at a position, computed and stored. -/
def computeExpansion (position : Position) (type : NodeType) (element : Element)
    (data : Option Value) (describe : DescribeContext → Action σ Fault Element)
    (expand : Element → EStateM EngineError (Pass σ) Expansion) :
    EStateM EngineError (Pass σ) Expansion := do
  let inputs := DescribeInputs.ofElement element data
  let output ← Pass.run ⟨position, .description⟩ (surfacing type .describe
    (describe { data, props := element.props, children := element.children }))
  let body ← expand output
  let expansion := Expansion.described element data body
  let _ ← Pass.onExpansions fun table =>
    table.store position inputs.fingerprint inputs expansion
  return expansion

/-- The expansion of an element at a position with `room` steps of depth left. -/
def memoizedAt (engine : Engine σ) :
    Nat → Position → Element → EStateM EngineError (Pass σ) Expansion
  | 0, position, _ => throw (.expansionTooDeep engine.config.maxDepth position)
  | room + 1, position, element =>
      let children := element.children.zipIdx.mapM fun entry =>
        engine.memoizedAt room (position.child entry.2) entry.1
      match element.kind with
      | .primitive _ => do
          return .structural element none (← children)
      | .custom type => do
          let data ← engine.memoizedData position type element
          match (engine.vocabulary type).describe with
          | none => return .structural element data (← children)
          | some describe =>
              recallExpansion position element data
                (computeExpansion position type element data describe
                  (engine.memoizedAt room position.expansion))

/-- The expansion of an element, with what the store remembers. -/
def expandMemoized (engine : Engine σ) (root : Element) : EStateM EngineError (Pass σ) Expansion :=
  engine.memoizedAt (engine.config.maxDepth + 1) .root root

end Engine

end Phrasing
