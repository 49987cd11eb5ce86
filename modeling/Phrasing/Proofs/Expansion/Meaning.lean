import Phrasing.Expansion.Fresh
import Phrasing.Proofs.Expansion.Outcomes
import Phrasing.Proofs.Expansion.Structure

/-!
# Pure callbacks

A callback is orderly when it leaves the memo store alone and gives out only nodes of its own making
or at hand, and it is pure when the form of its outcome is a function of the form of its argument.
With orderly and pure callbacks, fresh expansion is a function of forms.
-/

namespace Phrasing

/-- The focus on kinds, props and children alone. -/
def Focus.structural : Focus where
  number := id
  hash _ := ⟨0, 0⟩

section Callbacks

variable {σ α β : Type} [Structured α] [Structured β]

/-- A callback leaves the memo store alone and keeps the census. -/
structure Census.Orderly (census : Census σ) (callback : α → Action σ Fault β) : Prop where
  /-- The memo store is not touched. -/
  store (argument : α) (world : World σ) :
    (finalState (callback argument world)).store = world.store
  /-- An identity stays with its node. -/
  grows (argument : α) (world : World σ) :
    census.Grows world.ambient (finalState (callback argument world)).ambient
  /-- Listed nodes in, listed nodes out. -/
  knows {argument : α} {world after : World σ} {result : β} :
    census.Knows world.ambient argument → callback argument world = .ok result after →
    census.Knows after.ambient result

/-- A callback computes a function of the structure of its argument. -/
def Census.Computes (census : Census σ) (callback : α → Action σ Fault β)
    (meant : α → Except Fault β) : Prop :=
  ∀ argument world, census.Knows world.ambient argument →
    (outcomeOf (callback argument world)).map (Structured.form .structural) =
      meant (Structured.form .structural argument)

end Callbacks

/-- Pure functions, one for each callback. -/
structure Meaning where
  /-- What observations compute. -/
  observe : NodeType → ObserveContext → Except Fault Value
  /-- What descriptions compute. -/
  describe : NodeType → DescribeContext → Except Fault Element
  /-- What the registration computes. -/
  register : Value → Except Fault Value
  /-- What the common source computes. -/
  source : Value → Except Fault Value
  /-- What the sources of single node types compute. -/
  sourceFor : NodeType → Value → Except Fault Value

/-- An outcome whose fault comes out as an error. -/
def surfaced {α : Type} (type : NodeType) (stage : Stage) (outcome : Except Fault α) :
    Except EngineError α :=
  outcome.mapError fun fault => fault.surface type stage

namespace Engine

variable {σ : Type}

/-- Every callback that an expansion runs is orderly. -/
structure Orderly (engine : Engine σ) (census : Census σ) : Prop where
  /-- Observations are orderly. -/
  observe {type : NodeType} {callback : ObserveContext → Action σ Fault Value} :
    (engine.vocabulary type).observe = some callback → census.Orderly callback
  /-- Descriptions are orderly. -/
  describe {type : NodeType} {callback : DescribeContext → Action σ Fault Element} :
    (engine.vocabulary type).describe = some callback → census.Orderly callback
  /-- The registration is orderly. -/
  register {callback : Transform σ} :
    engine.processor.register = some callback → census.Orderly callback
  /-- The common source is orderly. -/
  source {callback : Transform σ} :
    engine.processor.source = some callback → census.Orderly callback
  /-- The sources of single node types are orderly. -/
  sourceFor {type : NodeType} {callback : Transform σ} :
    engine.processor.sourceFor? type = some callback → census.Orderly callback

/-- Every callback that an expansion runs is pure. -/
structure Computes (engine : Engine σ) (census : Census σ) (meaning : Meaning) : Prop where
  /-- Observations are pure. -/
  observe {type : NodeType} {callback : ObserveContext → Action σ Fault Value} :
    (engine.vocabulary type).observe = some callback →
    census.Computes callback (meaning.observe type)
  /-- Descriptions are pure. -/
  describe {type : NodeType} {callback : DescribeContext → Action σ Fault Element} :
    (engine.vocabulary type).describe = some callback →
    census.Computes callback (meaning.describe type)
  /-- The registration is pure. -/
  register {callback : Transform σ} :
    engine.processor.register = some callback → census.Computes callback meaning.register
  /-- The common source is pure. -/
  source {callback : Transform σ} :
    engine.processor.source = some callback → census.Computes callback meaning.source
  /-- The sources of single node types are pure. -/
  sourceFor {type : NodeType} {callback : Transform σ} :
    engine.processor.sourceFor? type = some callback →
    census.Computes callback (meaning.sourceFor type)

/-- The raw value that the common source puts in the place of an observed one. -/
def meantSourced (engine : Engine σ) (meaning : Meaning) (type : NodeType) (raw : Value) :
    Except EngineError Value :=
  if engine.processor.source.isSome then surfaced type .source (meaning.source raw) else pure raw

/-- The data that a raw value becomes. -/
def meantRegistered (engine : Engine σ) (meaning : Meaning) (type : NodeType) (raw : Value) :
    Except EngineError Value :=
  if engine.processor.register.isSome then surfaced type .register (meaning.register raw)
  else pure raw

/-- How data are computed from the structure of a node, if its type has any. -/
def meantDerivation? (engine : Engine σ) (meaning : Meaning) (type : NodeType) :
    Option (Element → Except EngineError Value) :=
  match engine.processor.sourceFor? type, (engine.vocabulary type).observe with
  | some _, _ => some fun element =>
      surfaced type .source (meaning.sourceFor type (.element element))
  | none, none => none
  | none, some _ => some fun element => do
      let observed ← surfaced type .observe
        (meaning.observe type { props := element.props, children := element.children })
      let raw ← engine.meantSourced meaning type observed
      engine.meantRegistered meaning type raw

/-- The data computed from the structure of a node. -/
def meantData (engine : Engine σ) (meaning : Meaning) (type : NodeType) (element : Element) :
    Except EngineError (Option Value) :=
  match engine.meantDerivation? meaning type with
  | none => pure none
  | some derive => some <$> derive element

/-- The expansion computed from the structure of a described node and its data. -/
def meantExpansion (meaning : Meaning) (type : NodeType) (element : Element) (data : Option Value)
    (expand : Element → Except EngineError Expansion) : Except EngineError Expansion := do
  let output ← surfaced type .describe (meaning.describe type
    { data, props := element.props, children := element.children })
  let body ← expand output
  return .described element data body

/-- The expansion computed from the structure of an element. -/
def meantAt (engine : Engine σ) (meaning : Meaning) :
    Nat → Position → Element → Except EngineError Expansion
  | 0, position, _ => throw (.expansionTooDeep engine.config.maxDepth position)
  | room + 1, position, element =>
      let children := element.children.zipIdx.mapM fun entry =>
        engine.meantAt meaning room (position.child entry.2) entry.1
      match element.kind with
      | .primitive _ => do
          return .structural element none (← children)
      | .custom type => do
          let data ← engine.meantData meaning type element
          match (engine.vocabulary type).describe with
          | none => return .structural element data (← children)
          | some _ =>
              meantExpansion meaning type element data
                (engine.meantAt meaning room position.expansion)

end Engine

theorem surfacing_eq_ok {σ α : Type} {callback : EStateM Fault σ α} {type : NodeType}
    {stage : Stage} {start after : σ} {result : α} :
    surfacing type stage callback start = .ok result after ↔ callback start = .ok result after := by
  rw [surfacing]
  cases callback start <;> simp

section Running

variable {σ α β : Type} [Structured α] [Structured β]

/-- The regime of callbacks: the census grows, and no error is excused. -/
def Census.running (census : Census σ) : Regime (World σ) where
  Valid _ := True
  Leads before after := census.Grows before.ambient after.ambient
  Excuses _ _ := False
  refl _ := .refl census _
  trans := .trans

/-- A result is listed in the census and has a given form. -/
def Census.Reads (census : Census σ) (world : World σ) (result form : α) : Prop :=
  census.Knows world.ambient result ∧ Structured.form .structural result = form

/-- What an orderly callback gives is listed, and so is what was listed before. -/
theorem Census.Orderly.gives {census : Census σ} {callback : α → Action σ Fault β}
    (orderly : census.Orderly callback) {argument : α} {world after : World σ} {result : β}
    (knows : census.Knows world.ambient argument) (run : callback argument world = .ok result after) :
    census.Grows world.ambient after.ambient ∧ census.Knows after.ambient result := by
  have grows := orderly.grows argument world
  rw [run] at grows
  exact ⟨grows, orderly.knows knows run⟩

theorem surfacing_meets {census : Census σ} {callback : α → Action σ Fault β}
    {meant : α → Except Fault β} (orderly : census.Orderly callback)
    (computes : census.Computes callback meant) {argument : α} {world : World σ}
    (knows : census.Knows world.ambient argument) (type : NodeType) (stage : Stage) :
    census.running.Meets world census.Reads (surfacing type stage (callback argument) world)
      (surfaced type stage (meant (Structured.form .structural argument))) := by
  have computed := computes argument world knows
  have grows := orderly.grows argument world
  rw [surfacing, ← computed]
  cases outcome : callback argument world with
  | ok result after =>
      rw [outcome] at grows
      exact .ok trivial grows ⟨orderly.knows knows outcome, rfl⟩
  | error fault after =>
      rw [outcome] at grows
      exact .failed trivial grows

end Running

namespace Engine

variable {σ : Type} {engine : Engine σ} {census : Census σ} {meaning : Meaning}

theorem meantDerivation?_eq_none {type : NodeType}
    (silent : engine.processor.derivation? engine.vocabulary type = none) :
    engine.meantDerivation? meaning type = none := by
  rw [Processor.derivation?] at silent
  rw [meantDerivation?]
  split at silent <;> simp_all

theorem sourced_meets (orderly : engine.Orderly census) (computes : engine.Computes census meaning)
    {raw : Value} {world : World σ} (knows : census.Knows world.ambient raw) (type : NodeType) :
    census.running.Meets world census.Reads
      (surfacing type .source (engine.processor.sourced raw) world)
      (engine.meantSourced meaning type (raw.form .structural)) := by
  rw [Processor.sourced, meantSourced]
  cases present : engine.processor.source with
  | none => exact .ok trivial (.refl census _) ⟨knows, rfl⟩
  | some callback =>
      exact surfacing_meets (orderly.source present) (computes.source present) knows type .source

theorem registered_meets (orderly : engine.Orderly census)
    (computes : engine.Computes census meaning) {raw : Value} {world : World σ}
    (knows : census.Knows world.ambient raw) (type : NodeType) :
    census.running.Meets world census.Reads
      (surfacing type .register (engine.processor.registered raw) world)
      (engine.meantRegistered meaning type (raw.form .structural)) := by
  rw [Processor.registered, meantRegistered]
  cases present : engine.processor.register with
  | none => exact .ok trivial (.refl census _) ⟨knows, rfl⟩
  | some callback =>
      exact surfacing_meets (orderly.register present) (computes.register present) knows type
        .register

theorem derivation_meets (orderly : engine.Orderly census) (computes : engine.Computes census meaning)
    {type : NodeType} {derive : Element → Action σ EngineError Value}
    (derivation : engine.processor.derivation? engine.vocabulary type = some derive) :
    ∃ meant, engine.meantDerivation? meaning type = some meant ∧
      ∀ element world, census.Knows world.ambient element →
        census.running.Meets world census.Reads (derive element world)
          (meant (element.form .structural)) := by
  rw [Processor.derivation?] at derivation
  rw [meantDerivation?]
  cases source : engine.processor.sourceFor? type with
  | some callback =>
      rw [source] at derivation
      obtain rfl := Option.some.inj derivation
      refine ⟨_, rfl, fun element world knows => ?_⟩
      have form_eq : Structured.form .structural (Value.element element) =
          .element (element.form .structural) := by
        simp [Structured.form, Value.form]
      rw [← form_eq]
      exact surfacing_meets (orderly.sourceFor source) (computes.sourceFor source)
        (Census.knows_element.mpr knows) type .source
  | none =>
      cases present : (engine.vocabulary type).observe with
      | none =>
          rw [source, present] at derivation
          cases derivation
      | some callback =>
          rw [source, present] at derivation
          obtain rfl := Option.some.inj derivation
          refine ⟨_, rfl, fun element world knows => ?_⟩
          have observing : census.running.Meets world census.Reads
              (surfacing type .observe
                (callback { props := element.props, children := element.children }) world)
              (surfaced type .observe (meaning.observe type
                { props := (element.form .structural).props
                  children := (element.form .structural).children })) := by
            simpa [Structured.form] using surfacing_meets (orderly.observe present)
              (computes.observe present) knows.observeContext type .observe
          refine .bind (.refl _) observing ?_
          rintro observed form after - - - ⟨knows_observed, rfl⟩
          refine .bind (.refl _) (sourced_meets orderly computes knows_observed type) ?_
          rintro raw form after - - - ⟨knows_raw, rfl⟩
          exact registered_meets orderly computes knows_raw type

theorem Orderly.sourced (orderly : engine.Orderly census) {world after : World σ}
    {observed raw : Value} (knows : census.Knows world.ambient observed)
    (run : engine.processor.sourced observed world = .ok raw after) :
    census.Grows world.ambient after.ambient ∧ census.Knows after.ambient raw := by
  rw [Processor.sourced] at run
  cases present : engine.processor.source with
  | none =>
      rw [present] at run
      obtain ⟨rfl, rfl⟩ := EStateM.Result.ok.inj run
      exact ⟨.refl census _, knows⟩
  | some source =>
      rw [present] at run
      exact (orderly.source present).gives knows run

theorem Orderly.registered (orderly : engine.Orderly census) {world after : World σ}
    {raw data : Value} (knows : census.Knows world.ambient raw)
    (run : engine.processor.registered raw world = .ok data after) :
    census.Grows world.ambient after.ambient ∧ census.Knows after.ambient data := by
  rw [Processor.registered] at run
  cases present : engine.processor.register with
  | none =>
      rw [present] at run
      obtain ⟨rfl, rfl⟩ := EStateM.Result.ok.inj run
      exact ⟨.refl census _, knows⟩
  | some register =>
      rw [present] at run
      exact (orderly.register present).gives knows run

/-- Data are listed, whether or not callbacks are pure. -/
theorem Orderly.derivation (orderly : engine.Orderly census) {type : NodeType}
    {derive : Element → Action σ EngineError Value}
    (derivation : engine.processor.derivation? engine.vocabulary type = some derive)
    {element : Element} {world after : World σ} {data : Value}
    (knows : census.Knows world.ambient element) (run : derive element world = .ok data after) :
    census.Grows world.ambient after.ambient ∧ census.Knows after.ambient data := by
  rw [Processor.derivation?] at derivation
  split at derivation
  · next source _ present =>
      obtain rfl := Option.some.inj derivation
      exact (orderly.sourceFor present).gives (Census.knows_element.mpr knows)
        (surfacing_eq_ok.mp run)
  · simp at derivation
  · next observe _ present =>
      obtain rfl := Option.some.inj derivation
      obtain ⟨observed, middle, observing, run⟩ := bind_eq_ok.mp run
      obtain ⟨raw, late, sourcing, registering⟩ := bind_eq_ok.mp run
      obtain ⟨grows, knows_observed⟩ :=
        (orderly.observe present).gives knows.observeContext (surfacing_eq_ok.mp observing)
      obtain ⟨grows_late, knows_raw⟩ := orderly.sourced knows_observed (surfacing_eq_ok.mp sourcing)
      obtain ⟨grows_after, knows_data⟩ :=
        orderly.registered knows_raw (surfacing_eq_ok.mp registering)
      exact ⟨grows.trans (grows_late.trans grows_after), knows_data⟩

theorem describing_meets (orderly : engine.Orderly census)
    (computes : engine.Computes census meaning) {type : NodeType}
    {describe : DescribeContext → Action σ Fault Element}
    (present : (engine.vocabulary type).describe = some describe) {element : Element}
    {data : Option Value} {world : World σ} (knows : census.Knows world.ambient element)
    (knows_data : census.Knows world.ambient data) :
    census.running.Meets world census.Reads
      (surfacing type .describe
        (describe { data, props := element.props, children := element.children }) world)
      (surfaced type .describe (meaning.describe type
        { data := Structured.form .structural data
          props := (element.form .structural).props
          children := (element.form .structural).children })) := by
  simpa [Structured.form] using surfacing_meets (orderly.describe present)
    (computes.describe present) (knows.describeContext knows_data) type .describe

theorem freshData_meets (orderly : engine.Orderly census) (computes : engine.Computes census meaning)
    (type : NodeType) {element : Element} {world : World σ}
    (knows : census.Knows world.ambient element) :
    census.running.Meets world census.Reads (engine.freshData type element world)
      (engine.meantData meaning type (element.form .structural)) := by
  rw [freshData, meantData]
  cases derivation : engine.processor.derivation? engine.vocabulary type with
  | none =>
      rw [meantDerivation?_eq_none derivation]
      exact .ok trivial (.refl census _) ⟨Census.knows_none, rfl⟩
  | some derive =>
      obtain ⟨meant, meant_eq, meets⟩ := derivation_meets orderly computes derivation
      simp only [meant_eq, map_eq_pure_bind]
      refine .bind (.refl _) (meets element world knows) ?_
      rintro data form after - - - ⟨knows_data, rfl⟩
      exact .pure trivial ⟨Census.knows_some.mpr knows_data, rfl⟩

/-- Fresh expansion computes a function of the structure of the element. -/
theorem freshAt_meets (orderly : engine.Orderly census) (computes : engine.Computes census meaning)
    (room : Nat) (position : Position) (element : Element) (world : World σ)
    (knows : census.Knows world.ambient element) :
    census.running.Meets world (fun _ result form => result.form .structural = form)
      (engine.freshAt room position element world)
      (engine.meantAt meaning room position (element.form .structural)) := by
  induction room generalizing position element world with
  | zero => exact .failed trivial (.refl census _)
  | succ room induction =>
      have children_meet (state : World σ) (grows : census.Grows world.ambient state.ambient) :
          census.running.Meets state
            (fun _ => List.Forall₂ fun result form => result.form .structural = form)
            (element.children.zipIdx.mapM (fun entry =>
              engine.freshAt room (position.child entry.2) entry.1) state)
            (element.children.zipIdx.mapM fun entry =>
              engine.meantAt meaning room (position.child entry.2) (entry.1.form .structural)) := by
        refine .mapM trivial fun entry member later _ grows_later => ?_
        exact induction _ _ later ((knows.child (List.fst_mem_of_mem_zipIdx member)).grow
          (grows.trans grows_later))
      rw [freshAt, meantAt, Element.kind_form]
      simp only [Element.mapM_children_form]
      cases element.kind with
      | primitive builtIn =>
          refine .bind (.refl _) (children_meet world (.refl census _)) ?_
          intro results forms after _ _ _ expected
          refine .pure trivial ?_
          rw [Expansion.form, Expansion.forms_eq expected]
          rfl
      | custom type =>
          refine .bind (.refl _) (freshData_meets orderly computes type knows) ?_
          rintro data form after - - grows ⟨knows_data, rfl⟩
          have knows_after : census.Knows after.ambient element := knows.grow grows
          cases present : (engine.vocabulary type).describe with
          | none =>
              refine .bind (.refl _) (children_meet after grows) ?_
              intro results forms last _ _ _ expected
              refine .pure trivial ?_
              rw [Expansion.form, Expansion.forms_eq expected]
              rfl
          | some describe =>
              refine .bind (.refl _)
                (describing_meets orderly computes present knows_after knows_data) ?_
              rintro output form last - - - ⟨knows_output, rfl⟩
              refine .bind (.refl _) (induction position.expansion output last knows_output) ?_
              rintro body form final - - - rfl
              exact .pure trivial rfl

end Engine

end Phrasing
