import Phrasing.Proofs.Expansion.Touring

/-!
# Counters and callbacks

The counters of a store tell the truth about callbacks.  A lookup that misses is answered by one
observation, one source of a single node type or one description, whether that succeeds or not, and
nothing else is.  So the misses that no callback has answered are as many after a compilation as
before it.  A compilation that succeeds has stored an answer to each of them besides, and has made one
lookup for every visited element that asks for it.
-/

namespace Phrasing

open Memo

/-- The task that a callback does when its node asks for it.  The common source and the registration
only go on from an observation. -/
def Request.task? : Request → Option Task
  | .observe _ => some .data
  | .sourceFor _ => some .data
  | .source _ => none
  | .register _ => none
  | .describe _ => some .description

/-- How many of the callbacks do a task. -/
def tally (task : Task) (invocations : List Invocation) : Nat :=
  invocations.countP fun invocation => invocation.request.task? = some task

section Invoking

variable {σ ε α β : Type} {task : Option Task}

/-- Whether it fails or not, a computation runs one callback that does the given task, and no other
that does any. -/
def Invokes (task : Option Task) (computation : Action (Recording σ) ε α) : Prop :=
  ∀ start other, tally other (finalState (computation start)).ambient.invocations =
    tally other start.ambient.invocations + if task = some other then 1 else 0

theorem invokes_pure (result : α) : Invokes none (pure result : Action (Recording σ) ε α) :=
  fun _ _ => rfl

theorem Invokes.bind {computation : Action (Recording σ) ε α} {next : α → Action (Recording σ) ε β}
    (first : Invokes task computation) (rest : ∀ result, Invokes none (next result)) :
    Invokes task (computation >>= next) := by
  intro start other
  rw [← first start other]
  exact measure_bind (fun world : World (Recording σ) => tally other world.ambient.invocations)
    (fun result after => rest result after other) start

theorem Invokes.surfacing {callback : Action (Recording σ) Fault α}
    (invokes : Invokes task callback) (type : NodeType) (stage : Stage) :
    Invokes task (Phrasing.surfacing type stage callback) := by
  intro start other
  rw [← invokes start other, Phrasing.surfacing]
  cases callback start <;> rfl

theorem invokes_recording [Structured α] (request : α → Request)
    (does : ∀ argument, (request argument).task? = task)
    (typing : List Invocation → Option NodeType) (callback : α → Action σ Fault β) (argument : α) :
    Invokes task (recording request typing callback argument) := by
  intro start other
  rw [recording]
  cases callback argument start.erase <;>
    simp [finalState, World.record, tally, does, List.countP_append, List.countP_cons]

theorem invokes_transforming {request : Value → Request} (does : ∀ value, (request value).task? = none)
    (transform : Option (Transform σ)) (value : Value) :
    Invokes none (transforming (transform.map (recording request lastType)) value) := by
  cases transform with
  | none => exact invokes_pure value
  | some transform => exact invokes_recording request does lastType transform value

/-- Data take one observation or one source of a single node type. -/
theorem invokes_derivation {engine : Engine σ} {type : NodeType}
    {derive : Element → Action (Recording σ) EngineError Value}
    (derivation : engine.recorded.processor.derivation? engine.recorded.vocabulary type = some derive)
    (element : Element) : Invokes (some .data) (derive element) := by
  obtain ⟨source, -, rfl⟩ | ⟨observe, -, rfl⟩ := Engine.recorded_derivation derivation
  · exact (invokes_recording .sourceFor (fun _ => rfl) _ source _).surfacing type .source
  · refine ((invokes_recording .observe (fun _ => rfl) _ observe _).surfacing type .observe).bind
      fun observed => ?_
    have sourced : Invokes none (engine.processor.recorded.sourced observed) :=
      invokes_transforming (fun _ => rfl) engine.processor.source observed
    refine (sourced.surfacing type .source).bind fun raw => ?_
    have registered : Invokes none (engine.processor.recorded.registered raw) :=
      invokes_transforming (fun _ => rfl) engine.processor.register raw
    exact registered.surfacing type .register

theorem invokes_describing {engine : Engine σ} {type : NodeType}
    {describe : DescribeContext → Action (Recording σ) Fault Element}
    (present : (engine.recorded.vocabulary type).describe = some describe)
    (context : DescribeContext) :
    Invokes (some .description) (surfacing type .describe (describe context)) := by
  rw [engine.describe_recorded] at present
  obtain ⟨callback, -, rfl⟩ := Option.map_eq_some_iff.mp present
  exact (invokes_recording .describe (fun _ => rfl) _ callback context).surfacing type .describe

end Invoking

section Balancing

variable {σ α β γ : Type} {task : Task}

/-- The misses in the table of a task, less the callbacks that did it. -/
def Pass.debt (pass : Pass (Recording σ)) (task : Task) : Int :=
  (pass.store.counters task).misses - tally task pass.world.ambient.invocations

/-- From one state to another, the debt of a task grows by a number, and that of the other stays. -/
def Pass.Shifts (task : Task) (number : Int) (before after : Pass (Recording σ)) : Prop :=
  ∀ other, after.debt other = before.debt other + if other = task then number else 0

/-- Whether it fails or not, a computation keeps the debt of both tasks. -/
def Balanced (computation : EStateM EngineError (Pass (Recording σ)) α) : Prop :=
  ∀ start, (finalState (computation start)).debt = start.debt

/-- Whether it fails or not, a computation does a task that was owed. -/
def Repays (task : Task) (computation : EStateM EngineError (Pass (Recording σ)) α) : Prop :=
  ∀ start, Pass.Shifts task (-1) start (finalState (computation start))

theorem balanced_pure (result : α) :
    Balanced (pure result : EStateM EngineError (Pass (Recording σ)) α) :=
  fun _ => rfl

theorem Balanced.bind {computation : EStateM EngineError (Pass (Recording σ)) α}
    {next : α → EStateM EngineError (Pass (Recording σ)) β} (first : Balanced computation)
    (rest : ∀ result, Balanced (next result)) : Balanced (computation >>= next) :=
  fun start => (measure_bind Pass.debt rest start).trans (first start)

theorem Balanced.mapM {step : α → EStateM EngineError (Pass (Recording σ)) β}
    (each : ∀ item, Balanced (step item)) (items : List α) : Balanced (items.mapM step) := by
  induction items with
  | nil => exact balanced_pure []
  | cons item rest induction =>
      rw [List.mapM_cons]
      exact (each item).bind fun _ => induction.bind fun _ => balanced_pure _

theorem Repays.bind {computation : EStateM EngineError (Pass (Recording σ)) α}
    {next : α → EStateM EngineError (Pass (Recording σ)) β} (first : Repays task computation)
    (rest : ∀ result, Balanced (next result)) : Repays task (computation >>= next) := by
  intro start
  rw [Pass.Shifts, measure_bind Pass.debt rest start]
  exact first start

/-- A callback that does a task repays it. -/
theorem repays_run {callbacks : Action (Recording σ) EngineError α}
    (invokes : Invokes (some task) callbacks) (call : Call) :
    Repays task (Pass.run call callbacks) := by
  intro start other
  have counted := invokes start.world other
  have run_eq : finalState (Pass.run call callbacks start) =
      { start with world := finalState (callbacks start.world), calls := start.calls ++ [call] } := by
    rw [Pass.run, Pass.act]
    cases callbacks start.world <;> rfl
  rw [run_eq, Pass.debt, Pass.debt, counted]
  by_cases same : other = task
  · simp [same]
    omega
  · simp [same, Ne.symm same]

/-- A lookup that hits keeps the debt, and so does one that misses if the miss is repaid. -/
theorem Balanced.lookup (task : Task)
    {looks : EStateM EngineError (Pass (Recording σ)) (Lookup γ)}
    {next : Lookup γ → EStateM EngineError (Pass (Recording σ)) β}
    (looked : ∀ start,
      (∃ outcome after, looks start = .ok outcome after ∧
        Pass.Shifts task outcome.missed start after) ∨
      ∃ error, looks start = .error error start)
    (hit : ∀ output, Balanced (next (.hit output)))
    (missed : ∀ outcome, outcome.missed = 1 → Repays task (next outcome)) :
    Balanced (looks >>= next) := by
  intro start
  rcases looked start with ⟨outcome, after, run, shifts⟩ | ⟨error, run⟩
  · rw [bind_of_ok run]
    -- A miss is one unit of debt, which the rest repays even if it fails.
    have repaid (miss : outcome.missed = 1) :
        (finalState (next outcome after)).debt = start.debt := by
      funext other
      rw [missed outcome miss after other, shifts other, miss]
      split <;> omega
    cases outcome with
    | hit output =>
        rw [hit output after]
        funext other
        simpa [Lookup.missed] using shifts other
    | vacant => exact repaid rfl
    | stale => exact repaid rfl
  · rw [bind_of_error run]
    rfl

/-- Misses that are counted become debt. -/
theorem Store.Grows.shifts {before after : Pass (Recording σ)} {lookups stores : Task → Nat}
    {misses : Nat} (grows : before.store.Grows lookups (only task misses) stores after.store)
    (same : after.world = before.world) : Pass.Shifts task misses before after := by
  intro other
  rw [Pass.debt, Pass.debt, same, (grows other).misses_eq, only]
  split <;> omega

theorem Pass.onObservations_cases
    (operation : Table ObserveInputs Value → Except TableError (α × Table ObserveInputs Value))
    (start : Pass σ) :
    (∃ result observations, operation start.store.observations = .ok (result, observations) ∧
      onObservations operation start = .ok result (start.withObservations observations)) ∨
    ∃ error, onObservations operation start = .error error start := by
  cases done : operation start.store.observations with
  | ok outcome => exact .inl ⟨outcome.1, outcome.2, rfl, onObservations_ok done⟩
  | error error => exact .inr ⟨.table error, onObservations_error done⟩

theorem Pass.onExpansions_cases
    (operation : Table DescribeInputs Expansion →
      Except TableError (α × Table DescribeInputs Expansion))
    (start : Pass σ) :
    (∃ result expansions, operation start.store.expansions = .ok (result, expansions) ∧
      onExpansions operation start = .ok result (start.withExpansions expansions)) ∨
    ∃ error, onExpansions operation start = .error error start := by
  cases done : operation start.store.expansions with
  | ok outcome => exact .inl ⟨outcome.1, outcome.2, rfl, onExpansions_ok done⟩
  | error error => exact .inr ⟨.table error, onExpansions_error done⟩

/-- Storing data keeps the debt. -/
theorem balanced_storeData (position : Position) (fingerprint : ContentHash)
    (inputs : ObserveInputs) (data : Value) :
    Balanced (Pass.onObservations (σ := Recording σ) fun table =>
      table.store position fingerprint inputs data) := by
  intro start
  rcases Pass.onObservations_cases (fun table => table.store position fingerprint inputs data) start
    with ⟨id, observations, stored, run⟩ | ⟨error, run⟩
  · rw [run]
    funext other
    simpa [finalState] using
      (Pass.grows_observations (Table.store_grows stored)).shifts rfl other
  · rw [run]
    rfl

/-- Storing an expansion keeps the debt. -/
theorem balanced_storeExpansion (position : Position) (fingerprint : ContentHash)
    (inputs : DescribeInputs) (expansion : Expansion) :
    Balanced (Pass.onExpansions (σ := Recording σ) fun table =>
      table.store position fingerprint inputs expansion) := by
  intro start
  rcases Pass.onExpansions_cases (fun table => table.store position fingerprint inputs expansion)
    start with ⟨id, expansions, stored, run⟩ | ⟨error, run⟩
  · rw [run]
    funext other
    simpa [finalState] using (Pass.grows_expansions (Table.store_grows stored)).shifts rfl other
  · rw [run]
    rfl

variable [Digest] {engine : Engine σ}

theorem balanced_recallData {position : Position} {element : Element}
    {compute : EStateM EngineError (Pass (Recording σ)) (Option Value)}
    (repays : Repays .data compute) : Balanced (Engine.recallData position element compute) := by
  refine Balanced.lookup .data (fun start => ?_) (fun _ => balanced_pure _) fun outcome missed => ?_
  · refine (Pass.onObservations_cases _ start).imp_left ?_
    rintro ⟨outcome, observations, looked, run⟩
    exact ⟨outcome, _, run, (Pass.grows_observations (Table.lookup_grows looked)).shifts rfl⟩
  · cases outcome with
    | hit data => cases missed
    | vacant => exact repays
    | stale => exact repays

theorem balanced_recallExpansion {position : Position} {element : Element} {data : Option Value}
    {compute : EStateM EngineError (Pass (Recording σ)) Expansion}
    (repays : Repays .description compute) :
    Balanced (Engine.recallExpansion position element data compute) := by
  refine Balanced.lookup .description (fun start => ?_) (fun _ _ => rfl) fun outcome missed => ?_
  · refine (Pass.onExpansions_cases _ start).imp_left ?_
    rintro ⟨outcome, expansions, looked, run⟩
    exact ⟨outcome, _, run, (Pass.grows_expansions (Table.lookup_grows looked)).shifts rfl⟩
  · cases outcome with
    | hit expansion => cases missed
    | vacant => exact repays
    | stale => exact repays

theorem Engine.balanced_memoizedData (engine : Engine σ) (position : Position) (type : NodeType)
    (element : Element) : Balanced (engine.recorded.memoizedData position type element) := by
  rw [memoizedData]
  cases derivation : engine.recorded.processor.derivation? engine.recorded.vocabulary type with
  | none => exact balanced_pure none
  | some derive =>
      refine balanced_recallData ?_
      exact (repays_run (invokes_derivation derivation element) _).bind fun data =>
        (balanced_storeData _ _ _ data).bind fun _ => balanced_pure _

/-- Whether it fails or not, an expansion leaves as many misses unanswered as there were. -/
theorem Engine.balanced_memoizedAt (engine : Engine σ) (room : Nat) (position : Position)
    (element : Element) : Balanced (engine.recorded.memoizedAt room position element) := by
  induction room generalizing position element with
  | zero => exact fun _ => rfl
  | succ room induction =>
      have children := Balanced.mapM (fun entry : Element × Nat =>
        induction (position.child entry.2) entry.1) element.children.zipIdx
      rw [memoizedAt]
      cases element.kind with
      | primitive builtIn => exact children.bind fun _ => balanced_pure _
      | custom type =>
          refine (engine.balanced_memoizedData position type element).bind fun data => ?_
          cases describing : (engine.recorded.vocabulary type).describe with
          | none => exact children.bind fun _ => balanced_pure _
          | some describe =>
              refine balanced_recallExpansion ?_
              refine (repays_run (invokes_describing describing _) _).bind fun output => ?_
              exact (induction position.expansion output).bind fun body =>
                (balanced_storeExpansion _ _ _ _).bind fun _ => balanced_pure _

theorem Engine.balanced_expand (remembers : engine.config.remember = true) (root : Element) :
    Balanced (engine.recorded.expand root) := by
  have recorded_remembers : engine.recorded.config.remember = true := remembers
  rw [expand, if_pos recorded_remembers]
  refine (engine.balanced_memoizedAt _ .root root).bind fun expansion => ?_
  split
  · -- A sweep counts evictions only.
    intro start
    funext task
    cases task <;> rfl
  · exact balanced_pure expansion

end Balancing

section Compiling

variable {σ : Type} [Digest] {engine : Engine σ}

theorem Engine.misses_compile (remembers : engine.config.remember = true) (root : Element)
    (world : World σ) (task : Task) :
    ((finalState (engine.compile root world)).store.counters task).misses =
      (world.store.counters task).misses + tally task (engine.invocations root world) := by
  have balanced := congrFun (balanced_expand remembers root (Pass.opening (world.record []))) task
  have opening : ((Pass.opening (world.record [])).store.counters task).misses =
      (world.store.counters task).misses := by
    cases task <;> rfl
  have silent : tally task (Pass.opening (world.record [])).world.ambient.invocations = 0 := rfl
  rw [Pass.debt, Pass.debt, opening, silent] at balanced
  rw [← (engine.compile_recorded root world []).2, invocations, finalState_compile]
  change ((finalState (engine.recorded.expand root _)).store.counters task).misses =
    _ + tally task (finalState (engine.recorded.expand root _)).world.ambient.invocations
  omega

/-- After what a tour visits, an expansion at most evicts entries. -/
theorem Engine.exists_tour (remembers : engine.config.remember = true) {root : Element}
    {world after : World σ} {parser : Parser σ} (run : engine.compile root world = .ok parser after) :
    ∃ tour, engine.tour root world = .ok parser.root tour ∧
      ∀ task, ∃ evictions,
        (tour.pass.store.counters task).Grow 0 0 0 evictions (after.store.counters task) := by
  obtain ⟨pass, expanding, rfl⟩ := of_compile_ok run
  rw [expand, if_pos remembers] at expanding
  obtain ⟨expansion, middle, memoized, sweeping⟩ := bind_eq_ok.mp expanding
  have erases : Erases Tour.pass _ (engine.expandMemoized root) := engine.erases_touredAt _ .root root
  obtain ⟨tour, touring, rfl⟩ := erases.of_ok ⟨Pass.opening world, []⟩ memoized
  split at sweeping
  · obtain ⟨rfl, rfl⟩ := EStateM.Result.ok.inj sweeping
    refine ⟨tour, touring, fun task => ?_⟩
    cases task with
    | data => exact ⟨_, tour.pass.store.observations.sweep_grows⟩
    | description => exact ⟨_, tour.pass.store.expansions.sweep_grows⟩
  · obtain ⟨rfl, rfl⟩ := EStateM.Result.ok.inj sweeping
    exact ⟨tour, touring, fun task => ⟨0, .refl _⟩⟩

/-- The counters of a store tell the truth about callbacks, whatever the store holds.  Whether it
succeeds or not, a compilation that remembers adds a miss for every observation and source of a single
node type, and for every description.  If it succeeds, it adds as many stores as misses, and one lookup
for every visited element that has data or a description; below an element whose expansion is reused,
nothing is visited. -/
theorem Engine.counters_match_callbacks (remembers : engine.config.remember = true) (root : Element)
    (world : World σ) (task : Task) :
    ((finalState (engine.compile root world)).store.counters task).misses =
        (world.store.counters task).misses + tally task (engine.invocations root world) ∧
      ∀ parser after, engine.compile root world = .ok parser after →
        ∃ tour added, engine.tour root world = .ok parser.root tour ∧
          (after.store.counters task).misses = (world.store.counters task).misses + added ∧
          (after.store.counters task).stores = (world.store.counters task).stores + added ∧
          (after.store.counters task).lookups =
            (world.store.counters task).lookups + tour.visited.countP (engine.does task) := by
  refine ⟨misses_compile remembers root world task, fun parser after run => ?_⟩
  obtain ⟨tour, touring, evicts⟩ := exists_tour remembers run
  obtain ⟨below, visited_eq, misses, grows⟩ := settles_touredAt touring
  obtain ⟨evictions, evicted⟩ := evicts task
  have total := (grows task).trans evicted
  have opening : (Pass.opening world).store.counters task = world.store.counters task := by
    cases task <;> rfl
  rw [opening] at total
  exact ⟨tour, misses task, touring, total.misses_eq, total.stores_eq, visited_eq ▸ total.lookups_eq⟩

end Compiling

namespace Notes

/-- A type whose nodes observe a text and stand for a literal. -/
def note : NodeType :=
  ⟨1, "Note"⟩

/-- An engine for notes. -/
def writer : Engine Unit where
  vocabulary type :=
    if type = note then
      { observe := some fun _ => pure (.text "noted")
        describe := some fun _ => pure (.literal 9 "note") }
    else {}
  processor := .identity

/-- A number of notes, one after another. -/
def page (count : Nat) : Element :=
  .sequence 2 (List.replicate count (.ofType 0 note))

/-- The world after one note was compiled. -/
def noted : World Unit :=
  finalState (writer.compile (page 1) { store := .empty, ambient := () })

end Notes

open Notes in
/-- Of two notes the first is in the store already, so only the second is described. -/
theorem Engine.counters_match_callbacks_notes :
    tally .description (writer.invocations (page 2) noted) = 1 ∧
      ((finalState (writer.compile (page 2) noted)).store.counters .description).misses = 1 + 1 ∧
      ∃ parser after tour, writer.compile (page 2) noted = .ok parser after ∧
        writer.tour (page 2) noted = .ok parser.root tour ∧
        tour.visited.countP (writer.does .description) = 2 ∧
        (after.store.counters .description).stores = 1 + 1 ∧
        (after.store.counters .description).lookups = 1 + 2 := by
  have counted := @counters_match_callbacks Unit _ writer rfl (page 2) noted .description
  have described : tally .description (writer.invocations (page 2) noted) = 1 := by decide +kernel
  have misses : (noted.store.counters .description).misses = 1 := by decide +kernel
  have stores : (noted.store.counters .description).stores = 1 := by decide +kernel
  have lookups : (noted.store.counters .description).lookups = 1 := by decide +kernel
  have visits : (finalState (writer.tour (page 2) noted)).visited.countP (writer.does .description) =
      2 := by decide +kernel
  have succeeds : (outcomeOf (writer.compile (page 2) noted)).isOk = true := by decide +kernel
  rw [described, misses] at counted
  obtain ⟨parser, after, run⟩ := eq_ok_of_isOk succeeds
  obtain ⟨tour, added, touring, misses_eq, stores_eq, lookups_eq⟩ := counted.2 parser after run
  refine ⟨described, counted.1, parser, after, tour, run, touring, ?_⟩
  rw [touring] at visits
  rw [run] at counted
  have one_added : added = 1 := Nat.add_left_cancel (misses_eq.symm.trans counted.1)
  rw [stores, one_added] at stores_eq
  rw [lookups, show tour.visited.countP (writer.does .description) = 2 from visits] at lookups_eq
  exact ⟨visits, stores_eq, lookups_eq⟩

end Phrasing
