import Mathlib.Logic.Relation
import Phrasing.Proofs.Store.ByContent
import Phrasing.Proofs.Traversal.Lockstep

/-!
# Effects of reading

Reading with an expansion has no effects of its own on the world: whatever happens to the world
happens in the expansion of elements that visits hand over, and in the visits themselves.
-/

namespace Phrasing

open Relation Traversal

section Effects

variable {ε τ α β : Type} {step : τ → τ → Prop}

/-- A computation takes every state to one that steps lead to, whether it fails or not. -/
def Stays (step : τ → τ → Prop) (computation : EStateM ε τ α) : Prop :=
  ∀ start, ReflTransGen step start (finalState (computation start))

theorem stays_pure (result : α) : Stays step (pure result : EStateM ε τ α) :=
  fun _ => .refl

theorem stays_throw (error : ε) : Stays step (throw error : EStateM ε τ α) :=
  fun _ => .refl

theorem Stays.bind {computation : EStateM ε τ α} {next : α → EStateM ε τ β}
    (first : Stays step computation) (rest : ∀ result, Stays step (next result)) :
    Stays step (computation >>= next) := by
  intro start
  have reached := first start
  cases run : computation start with
  | ok result state =>
      rw [run] at reached
      rw [bind_of_ok run]
      exact reached.trans (rest result state)
  | error error state =>
      rw [run] at reached
      rw [bind_of_error run]
      exact reached

theorem stays_lockstep :
    Lockstep fun (α : Type) (computation _ : EStateM ε τ α) => Stays step computation :=
  ⟨stays_pure, Stays.bind⟩

end Effects

theorem stays_surfacing {τ α : Type} {step : τ → τ → Prop} {type : NodeType} {stage : Stage}
    {callback : EStateM Fault τ α} (stays : Stays step callback) :
    Stays step (surfacing type stage callback) := by
  intro start
  have reached := stays start
  rw [surfacing]
  cases run : callback start with
  | ok result state => rwa [run] at reached
  | error fault state => rwa [run] at reached

namespace Engine

variable {σ : Type} {engine : Engine σ} {step : World σ → World σ → Prop}

theorem stays_outcome {ε α : Type} (result : Except ε α) :
    Stays step (outcome result : Action σ ε α) := by
  cases result with
  | ok result => exact stays_pure result
  | error error => exact stays_throw error

theorem stays_readPrimitive {child : Expansion → Reading → Action σ EngineError (List Reading)}
    (stays : ∀ node reading, Stays step (child node reading)) (builtIn : Primitive)
    (node : Expansion) (reading : Reading) :
    Stays step (engine.readPrimitive child builtIn node reading) :=
  stays_lockstep.readPrimitive (fun _ => stays_outcome _) engine engine rfl child child
    (fun below _ => stays below) builtIn reading

/-- A visit changes the world only by the given steps, as long as the traverser it is given does. -/
def VisitsStay (engine : Engine σ) (step : World σ → World σ → Prop) : Prop :=
  ∀ type visit, (engine.vocabulary type).visit = some visit → ∀ traverser : Traverser σ,
    (∀ element reading, Stays step (traverser.traverse element reading)) →
    (∀ node reading, Stays step (traverser.traverseExpanded node reading)) →
    ∀ reading context, Stays step (visit reading context traverser)

theorem stays_traverseAt (expansions : ∀ element, Stays step (engine.expandAdHoc element))
    (visits : engine.VisitsStay step) (room : Nat) (node : Expansion) (reading : Reading) :
    Stays step (engine.traverseAt room node reading) := by
  induction room generalizing node reading with
  | zero => exact stays_throw _
  | succ room induction =>
      rw [traverseAt]
      split
      · exact stays_readPrimitive induction _ node reading
      · split
        · next visit present =>
            exact stays_surfacing (visits _ visit present _
              (fun element later => (expansions element).bind fun _ => induction _ later)
              induction _ _)
        · split
          · exact induction _ reading
          · exact stays_throw _

/-- The callbacks of an expansion change the world only by the given steps. -/
structure CallbacksStay (engine : Engine σ) (step : World σ → World σ → Prop) : Prop where
  /-- Observations do. -/
  observe {type : NodeType} {callback : ObserveContext → Action σ Fault Value} :
    (engine.vocabulary type).observe = some callback → ∀ context, Stays step (callback context)
  /-- Descriptions do. -/
  describe {type : NodeType} {callback : DescribeContext → Action σ Fault Element} :
    (engine.vocabulary type).describe = some callback → ∀ context, Stays step (callback context)
  /-- The registration does. -/
  register {callback : Transform σ} :
    engine.processor.register = some callback → ∀ value, Stays step (callback value)
  /-- The common source does. -/
  source {callback : Transform σ} :
    engine.processor.source = some callback → ∀ value, Stays step (callback value)
  /-- The sources of single node types do. -/
  sourceFor {type : NodeType} {callback : Transform σ} :
    engine.processor.sourceFor? type = some callback → ∀ value, Stays step (callback value)

/-- A property of computations that is kept when they are put together. -/
structure Composes (property : ∀ α : Type, Action σ EngineError α → Prop) : Prop where
  /-- Giving a result has the property. -/
  pure {α : Type} (result : α) : property α (Pure.pure result)
  /-- Failing has the property. -/
  throw {α : Type} (error : EngineError) : property α (MonadExcept.throw error)
  /-- Doing one thing after another has the property if each does. -/
  bind {α β : Type} {computation : Action σ EngineError α} {next : α → Action σ EngineError β} :
    property α computation → (∀ result, property β (next result)) → property β (computation >>= next)

namespace Composes

variable {property : ∀ α : Type, Action σ EngineError α → Prop}

theorem mapM {α β : Type} (composes : Composes property) {run : α → Action σ EngineError β}
    (each : ∀ item, property β (run item)) (items : List α) :
    property (List β) (items.mapM run) := by
  induction items with
  | nil => exact composes.pure []
  | cons item rest induction =>
      rw [List.mapM_cons]
      exact composes.bind (each item) fun _ => composes.bind induction fun _ => composes.pure _

theorem freshData (composes : Composes property) {type : NodeType} {element : Element}
    (derives : ∀ derive, engine.processor.derivation? engine.vocabulary type = some derive →
      property Value (derive element)) :
    property (Option Value) (engine.freshData type element) := by
  rw [Engine.freshData]
  split
  · exact composes.pure none
  · next derive derivation => exact composes.bind (derives derive derivation) fun _ => composes.pure _

/-- What holds of the callbacks and is kept when computations are put together holds of fresh
expansion. -/
theorem freshAt (composes : Composes property)
    (derives : ∀ type derive element,
      engine.processor.derivation? engine.vocabulary type = some derive →
      property Value (derive element))
    (describes : ∀ type describe context, (engine.vocabulary type).describe = some describe →
      property Element (surfacing type .describe (describe context)))
    (room : Nat) (position : Position) (element : Element) :
    property Expansion (engine.freshAt room position element) := by
  induction room generalizing position element with
  | zero => exact composes.throw _
  | succ room induction =>
      have children := composes.mapM (fun entry : Element × Nat =>
        induction (position.child entry.2) entry.1) element.children.zipIdx
      rw [Engine.freshAt]
      split
      · exact composes.bind children fun _ => composes.pure _
      · next type _ =>
          refine composes.bind (composes.freshData fun derive => derives type derive element) ?_
          intro data
          split
          · exact composes.bind children fun _ => composes.pure _
          · next describe present =>
              refine composes.bind (describes type describe _ present) fun output => ?_
              exact composes.bind (induction _ output) fun _ => composes.pure _

end Composes

theorem stays_composes : Composes fun _ => Stays step :=
  ⟨stays_pure, stays_throw, Stays.bind⟩

theorem stays_derivation (callbacks : engine.CallbacksStay step) {type : NodeType}
    {derive : Element → Action σ EngineError Value}
    (derivation : engine.processor.derivation? engine.vocabulary type = some derive)
    (element : Element) : Stays step (derive element) := by
  rw [Processor.derivation?] at derivation
  split at derivation
  · next source _ present =>
      obtain rfl := Option.some.inj derivation
      exact stays_surfacing (callbacks.sourceFor present _)
  · simp at derivation
  · next observe _ present =>
      obtain rfl := Option.some.inj derivation
      refine (stays_surfacing (callbacks.observe present _)).bind fun observed => ?_
      refine (stays_surfacing ?_).bind fun raw => stays_surfacing ?_
      · rw [Processor.sourced]
        split
        · next source present => exact callbacks.source present observed
        · exact stays_pure observed
      · rw [Processor.registered]
        split
        · next register present => exact callbacks.register present raw
        · exact stays_pure raw

theorem stays_freshAt (callbacks : engine.CallbacksStay step) (room : Nat) (position : Position)
    (element : Element) : Stays step (engine.freshAt room position element) :=
  stays_composes.freshAt (fun _ _ element derivation => stays_derivation callbacks derivation element)
    (fun _ _ context present => stays_surfacing (callbacks.describe present context)) room position
    element

theorem stays_expandAdHoc (callbacks : engine.CallbacksStay step)
    (remembering : ∀ {world : World σ} {adHoc : List (ContentHash × AdHocEntry)}
      {adHocStats : Memo.Stats},
      step world { world with store := { world.store with adHoc, adHocStats } })
    (element : Element) : Stays step (engine.expandAdHoc element) := by
  have fresh : Stays step (engine.expandFresh element) := stays_freshAt callbacks _ _ element
  rw [expandAdHoc]
  split
  · refine Stays.bind ?_ fun found => ?_
    · intro world
      obtain ⟨adHoc, adHocStats, store_eq⟩ := Store.lookupAdHoc_store world.store element
      change ReflTransGen step world
        { world with store := (world.store.lookupAdHoc element).2 }
      rw [store_eq]
      exact .single remembering
    · split
      · exact stays_pure _
      · refine fresh.bind fun expansion => Stays.bind ?_ fun _ => stays_pure _
        exact fun world => .single remembering
  · exact fresh

/-- Reading an input changes the world only by the steps of visits and of expansions that visits ask
for. -/
theorem stays_parse [Digest] {parser : Parser σ}
    (expansions : ∀ element, Stays step (parser.engine.expandAdHoc element))
    (visits : parser.engine.VisitsStay step) (input : String) : Stays step (parser.parse input) :=
  (stays_traverseAt expansions visits _ _ _).bind fun _ => stays_pure _

end Engine

end Phrasing
