import Phrasing.Proofs.Traversal.Advancing

/-!
# Steady traversal

How an expansion is traversed can depend on the steps of depth that are left, and on the world, only
through visits.  Where no visit depends on them, what is meant by an expansion can be said without
any world: it leads each reading on in one way, unless the depth limit is exceeded.
-/

namespace Phrasing

open Traversal

namespace Regime

variable {τ α β : Type} {regime : Regime τ}

/-- In valid states a computation comes out as is meant, unless its error is excused. -/
def Realizes (regime : Regime τ) (computation : EStateM EngineError τ α)
    (meant : Except EngineError α) : Prop :=
  ∀ start, regime.Valid start →
    regime.Meets start (fun _ result value => result = value) (computation start) meant

theorem realizes_pure (result : α) : regime.Realizes (pure result) (pure result) :=
  fun _ valid => .pure valid rfl

theorem realizes_outcome (meant : Except EngineError α) :
    regime.Realizes (Engine.outcome meant) meant := by
  intro start valid
  cases meant with
  | ok result => exact .ok valid (regime.refl start) rfl
  | error error => exact .failed valid (regime.refl start)

theorem Realizes.bind {computation : EStateM EngineError τ α} {next : α → EStateM EngineError τ β}
    {meant : Except EngineError α} {continued : α → Except EngineError β}
    (first : regime.Realizes computation meant)
    (rest : ∀ result, meant = .ok result → regime.Realizes (next result) (continued result)) :
    regime.Realizes (computation >>= next) (meant >>= continued) := by
  intro start valid
  refine .bind (.refl regime) (first start valid) ?_
  rintro _ result after meant_eq after_valid - rfl
  exact rest _ meant_eq after after_valid

theorem Realizes.map {computation : EStateM EngineError τ α} {meant : Except EngineError α}
    (realizes : regime.Realizes computation meant) (compute : α → β) :
    regime.Realizes (computation >>= fun result => pure (compute result))
      (meant >>= fun result => pure (compute result)) :=
  realizes.bind fun result _ => realizes_pure (compute result)

theorem realizes_lockstep :
    Lockstep fun (α : Type) (computation : EStateM EngineError τ α) => regime.Realizes computation :=
  ⟨realizes_pure, fun first rest => first.bind fun result _ => rest result⟩

end Regime

namespace Engine

variable {σ : Type} {engine : Engine σ} {valid : World σ → Prop} {node : Expansion}

/-- The regime of traversals in valid worlds that may exceed the depth limit. -/
def limited (engine : Engine σ) (valid : World σ → Prop) : Regime (World σ) where
  Valid := valid
  Leads _ _ := True
  Excuses error _ := ∃ kind, error = .traversalTooDeep engine.config.maxDepth kind
  refl _ := trivial
  trans _ _ := trivial

/-- In valid worlds a node leads readings on as is meant, with any number of steps of depth, unless the
depth limit is exceeded. -/
def Steady (engine : Engine σ) (valid : World σ → Prop) (node : Expansion)
    (meant : Reading → Except EngineError (List Reading)) : Prop :=
  ∀ room reading, (engine.limited valid).Realizes (engine.traverseAt room node reading) (meant reading)

theorem steady_of_succ {meant : Reading → Except EngineError (List Reading)}
    (each : ∀ room reading,
      (engine.limited valid).Realizes (engine.traverseAt (room + 1) node reading) (meant reading)) :
    engine.Steady valid node meant := by
  intro room reading
  cases room with
  | zero => exact fun _ start_valid => .excused start_valid trivial ⟨_, rfl⟩
  | succ room => exact each room reading

/-- What is meant by a primitive, given what is meant by the children. -/
def meantPrimitive (engine : Engine σ) (meant : Expansion → Reading → Except EngineError (List Reading))
    (builtIn : Primitive) (node : Expansion) (reading : Reading) : Except EngineError (List Reading) :=
  match builtIn with
  | .literal => do
      let literal ← Literal.ofElement node.element
      pure (literal.read reading)
  | .sequence => do
      let slots ← node.children.mapM fun child => Slot.ofElement child.element
      readSequence meant (node.children.zip slots) (node.element.prop? "value") reading
  | .choice => readChoice meant node.children (node.element.prop? "value") reading
  | .optional => do
      let only ← onlyChild .optional node
      let preferred ← switch .optional node.element "preferred"
      readOptional meant only preferred reading
  | .repeat => do
      let only ← onlyChild .repeat node
      let bounds ← Bounds.ofElement engine.config.maxRepeat node.element
      readRepeat (meant only) bounds reading

theorem realizes_readPrimitive {regime : Regime (World σ)}
    {child : Expansion → Reading → Action σ EngineError (List Reading)}
    {meant : Expansion → Reading → Except EngineError (List Reading)}
    (each : ∀ below ∈ node.children, ∀ reading,
      regime.Realizes (child below reading) (meant below reading))
    (builtIn : Primitive) (reading : Reading) :
    regime.Realizes (engine.readPrimitive child builtIn node reading)
      (engine.meantPrimitive meant builtIn node reading) := by
  cases builtIn with
  | literal =>
      exact (Regime.realizes_outcome (Literal.ofElement node.element)).map (·.read reading)
  | sequence =>
      refine (Regime.realizes_outcome _).bind fun slots _ => ?_
      refine Regime.realizes_lockstep.readSequence (fun entry member => ?_) _ reading
      exact each entry.1 (List.of_mem_zip member).1
  | choice => exact Regime.realizes_lockstep.readChoice each _ reading
  | optional =>
      refine (Regime.realizes_outcome _).bind fun only one => ?_
      refine (Regime.realizes_outcome _).bind fun preferred _ => ?_
      exact Regime.realizes_lockstep.readOptional (each only (mem_children_of_onlyChild one)) preferred
        reading
  | «repeat» =>
      refine (Regime.realizes_outcome _).bind fun only one => ?_
      refine (Regime.realizes_outcome _).bind fun bounds _ => ?_
      exact Regime.realizes_lockstep.readRepeat (each only (mem_children_of_onlyChild one)) bounds reading

/-- No visit in an expansion depends on the steps of depth that are left: nodes that are visited are
steady, and the others can be traversed as usual. -/
inductive Calm (engine : Engine σ) (valid : World σ → Prop) : Expansion → Prop
  | visited {node : Expansion} {meant : Reading → Except EngineError (List Reading)}
      (steady : engine.Steady valid node meant) : Calm engine valid node
  | structural {element : Element} {data : Option Value} {children : List Expansion}
      (quiet : ∀ type, element.kind = .custom type → (engine.vocabulary type).visit = none)
      (below : ∀ child ∈ children, engine.Calm valid child) :
      Calm engine valid (.structural element data children)
  | described {element : Element} {data : Option Value} {body : Expansion}
      (quiet : ∀ type, element.kind = .custom type → (engine.vocabulary type).visit = none)
      (below : engine.Calm valid body) : Calm engine valid (.described element data body)

/-- An expansion without visits is calm. -/
theorem calm_of_silent (silent : node.Silent engine.vocabulary) : engine.Calm valid node := by
  induction silent with
  | structural quiet _ induction => exact .structural quiet induction
  | described quiet _ induction => exact .described quiet induction

theorem exists_steady_primitive {builtIn : Primitive} (kind : node.element.kind = .primitive builtIn)
    (below : ∀ child ∈ node.children, ∃ meant, engine.Steady valid child meant) :
    ∃ meant, engine.Steady valid node meant := by
  choose! meant steady using below
  refine ⟨engine.meantPrimitive meant builtIn node, steady_of_succ fun room reading => ?_⟩
  rw [traverseAt_primitive engine kind]
  exact realizes_readPrimitive (fun child member => steady child member room) builtIn reading

/-- A calm expansion has a meaning. -/
theorem Calm.exists_steady (calm : engine.Calm valid node) : ∃ meant, engine.Steady valid node meant := by
  induction calm with
  | visited steady => exact ⟨_, steady⟩
  | @structural element data children quiet _ induction =>
      cases kind : element.kind with
      | primitive builtIn => exact exists_steady_primitive kind induction
      | custom type =>
          refine ⟨fun _ => .error (.missingCapability type.name .describe),
            steady_of_succ fun room reading start start_valid => ?_⟩
          rw [traverseAt, Expansion.element, kind]
          dsimp only
          rw [quiet type kind]
          exact .failed start_valid trivial
  | @described element data body quiet _ induction =>
      cases kind : element.kind with
      | primitive builtIn =>
          exact exists_steady_primitive kind fun _ member => absurd member List.not_mem_nil
      | custom type =>
          obtain ⟨meant, steady⟩ := induction
          refine ⟨meant, steady_of_succ fun room reading => ?_⟩
          have here : (Expansion.described element data body).element.kind = .custom type := kind
          rw [traverseAt_described engine here (quiet type kind) rfl]
          exact steady room reading

end Engine

end Phrasing
