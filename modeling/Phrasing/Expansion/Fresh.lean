import Phrasing.Processor

/-!
# Fresh expansion

Expansion walks an element tree top-down: a node with a description is replaced by the expansion
of that description, any other node is kept and its children are expanded in place.  Here everything
is computed anew.  The count of steps that remain bounds the depth of positions, so a node that
describes itself without end is cut off at the limit.
-/

namespace Phrasing.Engine

variable {σ : Type}

/-- The data of a node. -/
def freshData (engine : Engine σ) (type : NodeType) (element : Element) :
    Action σ EngineError (Option Value) :=
  match engine.processor.derivation? engine.vocabulary type with
  | none => pure none
  | some derive => some <$> derive element

/-- The expansion of an element at a position with `room` steps of depth left. -/
def freshAt (engine : Engine σ) : Nat → Position → Element → Action σ EngineError Expansion
  | 0, position, _ => throw (.expansionTooDeep engine.config.maxDepth position)
  | room + 1, position, element =>
      let children := element.children.zipIdx.mapM fun entry =>
        engine.freshAt room (position.child entry.2) entry.1
      match element.kind with
      | .primitive _ => do
          return .structural element none (← children)
      | .custom type => do
          let data ← engine.freshData type element
          match (engine.vocabulary type).describe with
          | none => return .structural element data (← children)
          | some describe =>
              let output ← surfacing type .describe
                (describe { data, props := element.props, children := element.children })
              return .described element data (← engine.freshAt room position.expansion output)

/-- The expansion of an element, computed anew. -/
def expandFresh (engine : Engine σ) (root : Element) : Action σ EngineError Expansion :=
  engine.freshAt (engine.config.maxDepth + 1) .root root

end Phrasing.Engine
