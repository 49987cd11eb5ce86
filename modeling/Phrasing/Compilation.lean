import Phrasing.Expansion.Memoized
import Phrasing.Traversal.Engine

/-!
# Compilation

A compilation expands a grammar once and gives a parser for it.  It takes the memo store out of the
world while it runs, so callbacks that compile in turn find an empty store, and puts it back in the
end, whether it succeeds or not.  A parser keeps its expansion; later compilations do not change it.
-/

namespace Phrasing

/-- A compiled grammar. -/
structure Parser (σ : Type) where
  /-- The engine it was compiled with. -/
  engine : Engine σ
  /-- Its expansion. -/
  root : Expansion

namespace Parser

variable {σ : Type}

/-- The outline of a parser. -/
def outline (parser : Parser σ) : Outline :=
  .record "Parser" true
    [("nodes", .atom (toString parser.root.nodeCount)),
      ("processor", parser.engine.processor.outline)]

/-- Every accepted reading of an input, in the order of discovery, up to the limit if there is
one. -/
def parse [Digest] (parser : Parser σ) (input : String) : Action σ EngineError (List Reading) := do
  let readings ← parser.engine.traverse parser.root (.ofInput input)
  let accepted := readings.filter Reading.isAccepted
  let limit := parser.engine.config.maxReadings
  return if limit = 0 then accepted else accepted.take limit

end Parser

namespace Engine

variable {σ : Type} [Digest]

/-- The expansion that a compilation gives, with the store in hand. -/
def expand (engine : Engine σ) (root : Element) : EStateM EngineError (Pass σ) Expansion := do
  if engine.config.remember then
    let expansion ← engine.expandMemoized root
    if engine.config.sweep then
      modify fun pass => { pass with store := pass.store.sweep.2 }
    return expansion
  else Pass.act (engine.expandFresh root)

/-- Compiles a grammar. -/
def compile (engine : Engine σ) (root : Element) : Action σ EngineError (Parser σ) :=
  fun world =>
    match engine.expand root { store := world.store.begin, world := { world with store := .empty } }
    with
    | .ok expansion pass => .ok { engine, root := expansion } { pass.world with store := pass.store }
    | .error error pass => .error error { pass.world with store := pass.store }

end Engine

end Phrasing
