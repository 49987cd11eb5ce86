import Mathlib.Data.Option.Basic
import Phrasing.Proofs.Expansion.Histories

/-!
# Invocations

An engine can be made to record every callback that it runs, with what the callback is given and the
fault it reports, if any.  Recording changes nothing else: with the record erased, an expansion is the
one that is not recorded.
-/

namespace Phrasing

/-- Which callback is run, and what it is given. -/
inductive Request where
  /-- An observation. -/
  | observe (context : ObserveContext)
  /-- The source of a single node type. -/
  | sourceFor (value : Value)
  /-- The common source. -/
  | source (value : Value)
  /-- The registration. -/
  | register (value : Value)
  /-- A description. -/
  | describe (context : DescribeContext)

/-- The stage that a callback belongs to. -/
def Request.stage : Request → Stage
  | .observe _ => .observe
  | .sourceFor _ => .source
  | .source _ => .source
  | .register _ => .register
  | .describe _ => .describe

/-- One callback that was run. -/
structure Invocation where
  /-- The callback and what it was given, without the identities of nodes. -/
  request : Request
  /-- The type of the node it was run for. -/
  type : Option NodeType
  /-- The fault it reported, if any. -/
  fault : Option Fault

/-- The node type of the last invocation. -/
def lastType (invocations : List Invocation) : Option NodeType :=
  invocations.getLast?.bind Invocation.type

@[simp]
theorem lastType_append_singleton (invocations : List Invocation) (invocation : Invocation) :
    lastType (invocations ++ [invocation]) = invocation.type := by
  simp [lastType]

/-- What callbacks keep for themselves, with the invocations so far, oldest first. -/
structure Recording (σ : Type) where
  /-- What the callbacks keep. -/
  kept : σ
  /-- The invocations so far. -/
  invocations : List Invocation

section Recording

variable {σ ε α β : Type}

/-- A world with a record. -/
def World.record (world : World σ) (invocations : List Invocation) : World (Recording σ) where
  store := world.store
  ambient := { kept := world.ambient, invocations }

/-- A world without its record. -/
def World.erase (world : World (Recording σ)) : World σ where
  store := world.store
  ambient := world.ambient.kept

/-- A pass without the record of its world. -/
def Pass.erase (pass : Pass (Recording σ)) : Pass σ where
  store := pass.store
  world := pass.world.erase
  calls := pass.calls

@[simp]
theorem Pass.store_erase (pass : Pass (Recording σ)) : pass.erase.store = pass.store :=
  rfl

@[simp]
theorem Pass.world_erase (pass : Pass (Recording σ)) : pass.erase.world = pass.world.erase :=
  rfl

/-- A callback that records its invocations.  The record so far gives the node type. -/
def recording [Structured α] (request : α → Request) (type : List Invocation → Option NodeType)
    (callback : α → Action σ Fault β) (argument : α) : Action (Recording σ) Fault β :=
  fun world =>
    let invoked (fault : Option Fault) : List Invocation :=
      world.ambient.invocations ++ [{
        request := request (Structured.form .structural argument)
        type := type world.ambient.invocations
        fault }]
    match callback argument world.erase with
    | .ok result after => .ok result (after.record (invoked none))
    | .error fault after => .error fault (after.record (invoked (some fault)))

/-- A value that goes through a transform, if there is one. -/
def transforming (transform : Option (Transform σ)) (value : Value) : Action σ Fault Value :=
  match transform with
  | some transform => transform value
  | none => pure value

/-- The processor that records the invocations of its callbacks.  The common source and the
registration are run right after the observation of the node they are run for. -/
def Processor.recorded (processor : Processor σ) : Processor (Recording σ) where
  register := processor.register.map (recording .register lastType)
  source := processor.source.map (recording .source lastType)
  sources := processor.sources.map fun entry =>
    (entry.1, recording .sourceFor (fun _ => some entry.1) entry.2)

/-- The engine that records the invocations of its callbacks.  Visits, which no compilation runs, are
left out. -/
def Engine.recorded (engine : Engine σ) : Engine (Recording σ) where
  vocabulary type :=
    { observe := (engine.vocabulary type).observe.map (recording .observe fun _ => some type)
      describe := (engine.vocabulary type).describe.map (recording .describe fun _ => some type) }
  processor := engine.processor.recorded
  config := engine.config

/-- The callbacks that compiling a grammar runs, oldest first. -/
def Engine.invocations [Digest] (engine : Engine σ) (root : Element) (world : World σ) :
    List Invocation :=
  (finalState (engine.recorded.compile root (world.record []))).ambient.invocations

theorem Processor.sourceFor?_recorded (processor : Processor σ) (type : NodeType) :
    processor.recorded.sourceFor? type =
      (processor.sourceFor? type).map (recording .sourceFor fun _ => some type) := by
  obtain ⟨register, source, sources⟩ := processor
  change List.lookup type (sources.map _) = (List.lookup type sources).map _
  induction sources with
  | nil => rfl
  | cons entry rest induction =>
      rw [List.map_cons, List.lookup_cons, List.lookup_cons, induction]
      cases same : type == entry.1 with
      | false => rfl
      | true =>
          rw [beq_iff_eq] at same
          rw [same]
          rfl

theorem Engine.observe_recorded (engine : Engine σ) (type : NodeType) :
    (engine.recorded.vocabulary type).observe =
      (engine.vocabulary type).observe.map (recording .observe fun _ => some type) :=
  rfl

theorem Engine.describe_recorded (engine : Engine σ) (type : NodeType) :
    (engine.recorded.vocabulary type).describe =
      (engine.vocabulary type).describe.map (recording .describe fun _ => some type) :=
  rfl

theorem recording_ok [Structured α] {request : α → Request}
    {type : List Invocation → Option NodeType} {callback : α → Action σ Fault β} {argument : α}
    {world after : World (Recording σ)} {result : β}
    (run : recording request type callback argument world = .ok result after) :
    callback argument world.erase = .ok result after.erase ∧
      after.ambient.invocations = world.ambient.invocations ++
        [{ request := request (Structured.form .structural argument)
           type := type world.ambient.invocations, fault := none }] := by
  rw [recording] at run
  cases outcome : callback argument world.erase with
  | ok value last =>
      rw [outcome] at run
      obtain ⟨rfl, rfl⟩ := EStateM.Result.ok.inj run
      exact ⟨rfl, rfl⟩
  | error fault last =>
      rw [outcome] at run
      cases run

end Recording

section Erasing

variable {τ υ ε α β : Type} {project : τ → υ}

/-- A result with a part of its state. -/
def mapState (project : τ → υ) : EStateM.Result ε τ α → EStateM.Result ε υ α
  | .ok result state => .ok result (project state)
  | .error error state => .error error (project state)

/-- With a part of the state erased, one computation is another. -/
def Erases (project : τ → υ) (recorded : EStateM ε τ α) (plain : EStateM ε υ α) : Prop :=
  ∀ state, plain (project state) = mapState project (recorded state)

namespace Erases

theorem pure (result : α) :
    Erases project (Pure.pure result : EStateM ε τ α) (Pure.pure result) :=
  fun _ => rfl

theorem throw (error : ε) :
    Erases project (MonadExcept.throw error : EStateM ε τ α) (MonadExcept.throw error) :=
  fun _ => rfl

theorem ok {recorded : EStateM ε τ α} {plain : EStateM ε υ α}
    (erases : Erases project recorded plain) {start after : τ} {result : α}
    (run : recorded start = .ok result after) : plain (project start) = .ok result (project after) := by
  rw [erases start, run]
  rfl

theorem of_ok {recorded : EStateM ε τ α} {plain : EStateM ε υ α}
    (erases : Erases project recorded plain) (start : τ) {after : υ} {result : α}
    (run : plain (project start) = .ok result after) :
    ∃ last, recorded start = .ok result last ∧ project last = after := by
  rw [erases start] at run
  cases outcome : recorded start with
  | ok value last =>
      rw [outcome] at run
      obtain ⟨rfl, rfl⟩ := EStateM.Result.ok.inj run
      exact ⟨last, rfl, rfl⟩
  | error error last =>
      rw [outcome] at run
      cases run

theorem bind {recorded : EStateM ε τ α} {plain : EStateM ε υ α} {next : α → EStateM ε τ β}
    {plain_next : α → EStateM ε υ β} (first : Erases project recorded plain)
    (rest : ∀ result, Erases project (next result) (plain_next result)) :
    Erases project (recorded >>= next) (plain >>= plain_next) := by
  intro start
  have first_eq := first start
  cases run : recorded start with
  | ok result after =>
      rw [run] at first_eq
      rw [bind_of_ok first_eq, bind_of_ok run]
      exact rest result after
  | error error after =>
      rw [run] at first_eq
      rw [bind_of_error first_eq, bind_of_error run]
      rfl

theorem mapM {recorded : α → EStateM ε τ β} {plain : α → EStateM ε υ β}
    (erases : ∀ item, Erases project (recorded item) (plain item)) (items : List α) :
    Erases project (items.mapM recorded) (items.mapM plain) := by
  induction items with
  | nil => exact .pure []
  | cons item rest induction =>
      rw [List.mapM_cons, List.mapM_cons]
      exact (erases item).bind fun _ => induction.bind fun _ => .pure _

end Erases

variable {σ : Type}

theorem erases_recording [Structured α] (request : α → Request)
    (type : List Invocation → Option NodeType) (callback : α → Action σ Fault β) (argument : α) :
    Erases World.erase (recording request type callback argument) (callback argument) := by
  intro world
  rw [recording]
  cases callback argument world.erase <;> rfl

theorem Erases.surfacing {recorded : Action (Recording σ) Fault α} {plain : Action σ Fault α}
    (erases : Erases World.erase recorded plain) (type : NodeType) (stage : Stage) :
    Erases World.erase (Phrasing.surfacing type stage recorded)
      (Phrasing.surfacing type stage plain) := by
  intro world
  rw [Phrasing.surfacing, Phrasing.surfacing, erases world]
  cases recorded world <;> rfl

theorem Erases.act {recorded : Action (Recording σ) ε α} {plain : Action σ ε α}
    (erases : Erases World.erase recorded plain) :
    Erases Pass.erase (Pass.act recorded) (Pass.act plain) := by
  intro pass
  rw [Pass.act, Pass.act, Pass.world_erase, erases pass.world]
  cases recorded pass.world <;> rfl

theorem Erases.run {recorded : Action (Recording σ) ε α} {plain : Action σ ε α}
    (erases : Erases World.erase recorded plain) (call : Call) :
    Erases Pass.erase (Pass.run call recorded) (Pass.run call plain) :=
  fun pass => erases.act { pass with calls := pass.calls ++ [call] }

theorem erases_onObservations
    (operation : Memo.Table ObserveInputs Value →
      Except Memo.TableError (α × Memo.Table ObserveInputs Value)) :
    Erases (Pass.erase (σ := σ)) (Pass.onObservations operation) (Pass.onObservations operation) := by
  intro pass
  rw [Pass.onObservations, Pass.onObservations, Pass.store_erase]
  cases operation pass.store.observations <;> rfl

theorem erases_onExpansions
    (operation : Memo.Table DescribeInputs Expansion →
      Except Memo.TableError (α × Memo.Table DescribeInputs Expansion)) :
    Erases (Pass.erase (σ := σ)) (Pass.onExpansions operation) (Pass.onExpansions operation) := by
  intro pass
  rw [Pass.onExpansions, Pass.onExpansions, Pass.store_erase]
  cases operation pass.store.expansions <;> rfl

end Erasing

namespace Engine

variable {σ : Type} {engine : Engine σ}

theorem erases_transforming (request : Value → Request) (transform : Option (Transform σ))
    (value : Value) :
    Erases World.erase (transforming (transform.map (recording request lastType)) value)
      (transforming transform value) := by
  cases transform with
  | none => exact .pure value
  | some transform => exact erases_recording request lastType transform value

theorem erases_sourced (processor : Processor σ) (raw : Value) :
    Erases World.erase (processor.recorded.sourced raw) (processor.sourced raw) :=
  erases_transforming .source processor.source raw

theorem erases_registered (processor : Processor σ) (raw : Value) :
    Erases World.erase (processor.recorded.registered raw) (processor.registered raw) :=
  erases_transforming .register processor.register raw

/-- Data are derived under the same conditions, and by the same computations but for the record. -/
theorem derivation?_recorded (engine : Engine σ) (type : NodeType) :
    Option.Rel (fun recorded plain => ∀ element, Erases World.erase (recorded element) (plain element))
      (engine.recorded.processor.derivation? engine.recorded.vocabulary type)
      (engine.processor.derivation? engine.vocabulary type) := by
  have source_eq : engine.recorded.processor.sourceFor? type = _ :=
    engine.processor.sourceFor?_recorded type
  rw [Processor.derivation?, Processor.derivation?, source_eq, engine.observe_recorded]
  cases engine.processor.sourceFor? type with
  | some source => exact .some fun element => (erases_recording _ _ source _).surfacing type .source
  | none =>
      cases (engine.vocabulary type).observe with
      | none => exact .none
      | some observe =>
          refine .some fun element => ?_
          refine ((erases_recording _ _ observe _).surfacing type .observe).bind fun observed => ?_
          exact ((erases_sourced _ observed).surfacing type .source).bind fun raw =>
            (erases_registered _ raw).surfacing type .register

/-- What an observing node type does for its data, as the recording engine runs it. -/
def recordedObservation (engine : Engine σ) (type : NodeType)
    (observe : ObserveContext → Action σ Fault Value) (context : ObserveContext) :
    Action (Recording σ) EngineError Value := do
  let observed ← surfacing type .observe (recording .observe (fun _ => some type) observe context)
  let raw ← surfacing type .source (engine.processor.recorded.sourced observed)
  surfacing type .register (engine.processor.recorded.registered raw)

/-- Recorded data come from a source of their own or from an observation. -/
theorem recorded_derivation {type : NodeType}
    {derive : Element → Action (Recording σ) EngineError Value}
    (derivation : engine.recorded.processor.derivation? engine.recorded.vocabulary type =
      some derive) :
    (∃ source, engine.processor.sourceFor? type = some source ∧ derive = fun element =>
      surfacing type .source
        (recording .sourceFor (fun _ => some type) source (.element element))) ∨
    ∃ observe, (engine.vocabulary type).observe = some observe ∧ derive = fun element =>
      engine.recordedObservation type observe
        { props := element.props, children := element.children } := by
  have source_eq : engine.recorded.processor.sourceFor? type = _ :=
    engine.processor.sourceFor?_recorded type
  rw [Processor.derivation?, source_eq, engine.observe_recorded] at derivation
  cases source : engine.processor.sourceFor? type with
  | some callback =>
      rw [source] at derivation
      exact .inl ⟨callback, rfl, (Option.some.inj derivation).symm⟩
  | none =>
      rw [source] at derivation
      cases present : (engine.vocabulary type).observe with
      | none =>
          rw [present] at derivation
          cases derivation
      | some callback =>
          rw [present] at derivation
          exact .inr ⟨callback, rfl, (Option.some.inj derivation).symm⟩

theorem erases_freshData (engine : Engine σ) (type : NodeType) (element : Element) :
    Erases World.erase (engine.recorded.freshData type element) (engine.freshData type element) := by
  rw [freshData, freshData]
  have derivations := engine.derivation?_recorded type
  generalize engine.recorded.processor.derivation? _ type = recorded at derivations ⊢
  generalize engine.processor.derivation? _ type = plain at derivations ⊢
  cases derivations with
  | none => exact .pure none
  | some erases => exact (erases element).bind fun _ => .pure _

theorem erases_freshAt (engine : Engine σ) (room : Nat) (position : Position) (element : Element) :
    Erases World.erase (engine.recorded.freshAt room position element)
      (engine.freshAt room position element) := by
  induction room generalizing position element with
  | zero => exact .throw _
  | succ room induction =>
      have children := Erases.mapM (fun entry : Element × Nat =>
        induction (position.child entry.2) entry.1) element.children.zipIdx
      rw [freshAt, freshAt]
      cases element.kind with
      | primitive builtIn => exact children.bind fun _ => .pure _
      | custom type =>
          refine (engine.erases_freshData type element).bind fun data => ?_
          rw [engine.describe_recorded]
          cases (engine.vocabulary type).describe with
          | none => exact children.bind fun _ => .pure _
          | some describe =>
              refine ((erases_recording _ _ describe _).surfacing type .describe).bind fun output => ?_
              exact (induction position.expansion output).bind fun _ => .pure _

variable [Digest]

theorem erases_memoizedData (engine : Engine σ) (position : Position) (type : NodeType)
    (element : Element) :
    Erases Pass.erase (engine.recorded.memoizedData position type element)
      (engine.memoizedData position type element) := by
  rw [memoizedData, memoizedData]
  have derivations := engine.derivation?_recorded type
  generalize engine.recorded.processor.derivation? _ type = recorded at derivations ⊢
  generalize engine.processor.derivation? _ type = plain at derivations ⊢
  cases derivations with
  | none => exact .pure none
  | some erases =>
      have computes := ((erases element).run ⟨position, .data⟩).bind fun data =>
        (erases_onObservations fun table => table.store position
          (ObserveInputs.ofElement element).fingerprint (ObserveInputs.ofElement element)
          data).bind fun _ => Erases.pure (some data)
      refine (erases_onObservations _).bind fun found => ?_
      cases found with
      | hit data => exact .pure (some data)
      | vacant => exact computes
      | stale => exact computes

theorem erases_recallExpansion {position : Position} {element : Element} {data : Option Value}
    {recorded : EStateM EngineError (Pass (Recording σ)) Expansion}
    {plain : EStateM EngineError (Pass σ) Expansion} (erases : Erases Pass.erase recorded plain) :
    Erases Pass.erase (recallExpansion position element data recorded)
      (recallExpansion position element data plain) := by
  refine (erases_onExpansions _).bind fun found => ?_
  cases found with
  | hit expansion => exact fun _ => rfl
  | vacant => exact erases
  | stale => exact erases

/-- With the record erased, a memoized expansion is the one that is not recorded. -/
theorem erases_memoizedAt (engine : Engine σ) (room : Nat) (position : Position)
    (element : Element) :
    Erases Pass.erase (engine.recorded.memoizedAt room position element)
      (engine.memoizedAt room position element) := by
  induction room generalizing position element with
  | zero => exact .throw _
  | succ room induction =>
      have children := Erases.mapM (fun entry : Element × Nat =>
        induction (position.child entry.2) entry.1) element.children.zipIdx
      rw [memoizedAt, memoizedAt]
      cases element.kind with
      | primitive builtIn => exact children.bind fun _ => .pure _
      | custom type =>
          refine (engine.erases_memoizedData position type element).bind fun data => ?_
          rw [engine.describe_recorded]
          cases (engine.vocabulary type).describe with
          | none => exact children.bind fun _ => .pure _
          | some describe =>
              refine erases_recallExpansion ?_
              refine (((erases_recording _ _ describe _).surfacing type .describe).run
                ⟨position, .description⟩).bind fun output => ?_
              exact (induction position.expansion output).bind fun body =>
                (erases_onExpansions _).bind fun _ => .pure _

theorem erases_expand (engine : Engine σ) (root : Element) :
    Erases Pass.erase (engine.recorded.expand root) (engine.expand root) := by
  rw [expand, expand]
  change Erases _ (if engine.config.remember then _ else _) _
  split
  · refine (engine.erases_memoizedAt _ .root root).bind fun expansion => ?_
    change Erases _ (if engine.config.sweep then _ else _) _
    split
    · exact fun _ => rfl
    · exact .pure expansion
  · exact (engine.erases_freshAt _ .root root).act

/-- Recording changes nothing but the record. -/
theorem compile_recorded (engine : Engine σ) (root : Element) (world : World σ)
    (invocations : List Invocation) :
    (outcomeOf (engine.recorded.compile root (world.record invocations))).map Parser.root =
        (outcomeOf (engine.compile root world)).map Parser.root ∧
      (finalState (engine.recorded.compile root (world.record invocations))).erase =
        finalState (engine.compile root world) := by
  have erases := engine.erases_expand root (Pass.opening (world.record invocations))
  change engine.expand root (Pass.opening world) = _ at erases
  rw [compile_eq, compile_eq, erases]
  cases engine.recorded.expand root (Pass.opening (world.record invocations)) <;>
    exact ⟨rfl, rfl⟩

end Engine

end Phrasing
