import Phrasing.Proofs.Expansion.Invocations
import Phrasing.Proofs.Memo.Counting

/-!
# Elements that an expansion visits

An expansion can be made to list the elements that it visits: its root, the children of a visited
element without a description, and what a visited element is described as, unless the expansion of
the element is reused as a whole.  The counters of an expansion that succeeds grow by one lookup for
every visited element that asks for one, and every lookup that misses is made up for by a store.
-/

namespace Phrasing

open Memo

/-- The counters of the table that remembers what a task computes. -/
def Store.counters (store : Store) : Task → Stats
  | .data => store.observations.stats
  | .description => store.expansions.stats

/-- Whether a node with an element does a task: observing nodes and those with a source of their own
have data, describing nodes have a description. -/
def Engine.does {σ : Type} (engine : Engine σ) (task : Task) (element : Element) : Bool :=
  match element.kind, task with
  | .primitive _, _ => false
  | .custom type, .data =>
      (engine.processor.sourceFor? type).isSome || (engine.vocabulary type).observe.isSome
  | .custom type, .description => (engine.vocabulary type).describe.isSome

/-- A compilation under way, with the elements that it has visited, oldest first. -/
structure Tour (σ : Type) where
  /-- The compilation. -/
  pass : Pass σ
  /-- The visited elements. -/
  visited : List Element

namespace Tour

variable {σ ε α : Type}

/-- Goes on with a compilation without visiting anything. -/
def within (computation : EStateM ε (Pass σ) α) : EStateM ε (Tour σ) α := fun tour =>
  match computation tour.pass with
  | .ok result pass => .ok result { tour with pass }
  | .error error pass => .error error { tour with pass }

/-- Visits an element. -/
def visit (element : Element) : EStateM ε (Tour σ) Unit := fun tour =>
  .ok () { tour with visited := tour.visited ++ [element] }

theorem erases_within (computation : EStateM ε (Pass σ) α) :
    Erases Tour.pass (within computation) computation := by
  intro tour
  rw [within]
  cases computation tour.pass <;> rfl

theorem of_within_ok {computation : EStateM ε (Pass σ) α} {tour after : Tour σ} {result : α}
    (run : within computation tour = .ok result after) :
    ∃ pass, computation tour.pass = .ok result pass ∧ after = { tour with pass } := by
  rw [within] at run
  cases outcome : computation tour.pass with
  | ok value pass =>
      rw [outcome] at run
      obtain ⟨rfl, rfl⟩ := EStateM.Result.ok.inj run
      exact ⟨pass, rfl, rfl⟩
  | error error pass =>
      rw [outcome] at run
      cases run

end Tour

namespace Engine

variable {σ : Type} [Digest]

/-- The expansion of a described node at a position, reused as a whole if it is in the store. -/
def tourRecalled (position : Position) (element : Element) (data : Option Value)
    (compute : EStateM EngineError (Tour σ) Expansion) : EStateM EngineError (Tour σ) Expansion := do
  let inputs := DescribeInputs.ofElement element data
  match ← Tour.within (Pass.onExpansions fun table =>
      table.lookup position inputs.fingerprint inputs) with
  | .hit expansion =>
      Tour.within (Pass.keepSubtree position.expansion)
      return expansion
  | _ => compute

/-- The expansion of a described node at a position, computed and stored. -/
def tourComputed (position : Position) (type : NodeType) (element : Element) (data : Option Value)
    (describe : DescribeContext → Action σ Fault Element)
    (expand : Element → EStateM EngineError (Tour σ) Expansion) :
    EStateM EngineError (Tour σ) Expansion := do
  let inputs := DescribeInputs.ofElement element data
  let output ← Tour.within (Pass.run ⟨position, .description⟩ (surfacing type .describe
    (describe { data, props := element.props, children := element.children })))
  let body ← expand output
  let expansion := Expansion.described element data body
  let _ ← Tour.within (Pass.onExpansions fun table =>
    table.store position inputs.fingerprint inputs expansion)
  return expansion

/-- The memoized expansion of an element, with the elements that it visits. -/
def touredAt (engine : Engine σ) :
    Nat → Position → Element → EStateM EngineError (Tour σ) Expansion
  | 0, position, _ => throw (.expansionTooDeep engine.config.maxDepth position)
  | room + 1, position, element => do
      Tour.visit element
      let children := element.children.zipIdx.mapM fun entry =>
        engine.touredAt room (position.child entry.2) entry.1
      match element.kind with
      | .primitive _ => do
          return .structural element none (← children)
      | .custom type => do
          let data ← Tour.within (engine.memoizedData position type element)
          match (engine.vocabulary type).describe with
          | none => return .structural element data (← children)
          | some describe =>
              tourRecalled position element data
                (tourComputed position type element data describe
                  (engine.touredAt room position.expansion))

/-- The expansion with which a grammar is compiled, with the elements that it visits. -/
def tour (engine : Engine σ) (root : Element) (world : World σ) :
    EStateM.Result EngineError (Tour σ) Expansion :=
  engine.touredAt (engine.config.maxDepth + 1) .root root ⟨Pass.opening world, []⟩

theorem erases_tourRecalled {position : Position} {element : Element} {data : Option Value}
    {toured : EStateM EngineError (Tour σ) Expansion}
    {plain : EStateM EngineError (Pass σ) Expansion} (erases : Erases Tour.pass toured plain) :
    Erases Tour.pass (tourRecalled position element data toured)
      (recallExpansion position element data plain) := by
  refine (Tour.erases_within _).bind fun found => ?_
  cases found with
  | hit expansion => exact (Tour.erases_within _).bind fun _ => .pure expansion
  | vacant => exact erases
  | stale => exact erases

theorem erases_tourComputed {position : Position} {type : NodeType} {element : Element}
    {data : Option Value} {describe : DescribeContext → Action σ Fault Element}
    {toured : Element → EStateM EngineError (Tour σ) Expansion}
    {plain : Element → EStateM EngineError (Pass σ) Expansion}
    (erases : ∀ output, Erases Tour.pass (toured output) (plain output)) :
    Erases Tour.pass (tourComputed position type element data describe toured)
      (computeExpansion position type element data describe plain) :=
  (Tour.erases_within _).bind fun output => (erases output).bind fun _ =>
    (Tour.erases_within _).bind fun _ => .pure _

/-- Listing the visited elements changes nothing else. -/
theorem erases_touredAt (engine : Engine σ) (room : Nat) (position : Position) (element : Element) :
    Erases Tour.pass (engine.touredAt room position element)
      (engine.memoizedAt room position element) := by
  induction room generalizing position element with
  | zero => exact .throw _
  | succ room induction =>
      have children := Erases.mapM (fun entry : Element × Nat =>
        induction (position.child entry.2) entry.1) element.children.zipIdx
      have visited {rest : EStateM EngineError (Tour σ) Expansion}
          {plain : EStateM EngineError (Pass σ) Expansion} (erases : Erases Tour.pass rest plain) :
          Erases Tour.pass (do Tour.visit element; rest) plain :=
        fun tour => erases { tour with visited := tour.visited ++ [element] }
      rw [touredAt, memoizedAt]
      refine visited ?_
      cases element.kind with
      | primitive builtIn => exact children.bind fun _ => .pure _
      | custom type =>
          refine (Tour.erases_within _).bind fun data => ?_
          cases (engine.vocabulary type).describe with
          | none => exact children.bind fun _ => .pure _
          | some describe =>
              exact erases_tourRecalled (erases_tourComputed (induction position.expansion))

end Engine

/-- A number for one task, and none for the other. -/
def only (task : Task) (number : Nat) (other : Task) : Nat :=
  if other = task then number else 0

@[simp]
theorem only_zero (task : Task) : only task 0 = fun _ => 0 :=
  funext fun _ => ite_self 0

/-- The counters of both tables have grown, and nothing was evicted. -/
def Store.Grows (before : Store) (lookups misses stores : Task → Nat) (after : Store) : Prop :=
  ∀ task, (before.counters task).Grow (lookups task) (misses task) (stores task) 0
    (after.counters task)

/-- There were so many lookups, and every one that missed was made up for by a store. -/
def Store.Settles (before : Store) (lookups : Task → Nat) (after : Store) : Prop :=
  ∃ misses, before.Grows lookups misses misses after

/-- A compilation has visited further elements, and has settled what they ask for. -/
structure Tour.Settles {σ : Type} (engine : Engine σ) (before : Tour σ) (visited : List Element)
    (after : Tour σ) : Prop where
  /-- The further elements. -/
  visited_eq : after.visited = before.visited ++ visited
  /-- There was a lookup for each of them that does a task. -/
  settles : before.pass.store.Settles (fun task => visited.countP (engine.does task)) after.pass.store

namespace Store

variable {first second third fourth : Store} {lookups misses stores : Task → Nat}

theorem Grows.trans {laterLookups laterMisses laterStores : Task → Nat}
    (grows : first.Grows lookups misses stores second)
    (grows_later : second.Grows laterLookups laterMisses laterStores third) :
    first.Grows (fun task => lookups task + laterLookups task)
      (fun task => misses task + laterMisses task) (fun task => stores task + laterStores task)
      third :=
  fun task => (grows task).trans (grows_later task)

theorem Settles.refl (store : Store) : store.Settles (fun _ => 0) store :=
  ⟨fun _ => 0, fun _ => .refl _⟩

theorem Settles.trans {later : Task → Nat} (settles : first.Settles lookups second)
    (settles_later : second.Settles later third) :
    first.Settles (fun task => lookups task + later task) third := by
  obtain ⟨misses, grows⟩ := settles
  obtain ⟨more, grows_later⟩ := settles_later
  exact ⟨_, grows.trans grows_later⟩

/-- A lookup that hits is settled. -/
theorem Grows.settles_hit {task : Task}
    (looked : first.Grows (only task 1) (only task 0) (only task 0) second) :
    first.Settles (only task 1) second :=
  ⟨only task 0, looked⟩

/-- A lookup that misses is settled by a store, whatever is done in between. -/
theorem Grows.settles_miss {task : Task}
    (looked : first.Grows (only task 1) (only task 1) (only task 0) second)
    (between : second.Settles lookups third)
    (stored : third.Grows (only task 0) (only task 0) (only task 1) fourth) :
    first.Settles (fun other => only task 1 other + lookups other) fourth := by
  obtain ⟨misses, grows⟩ := between
  refine ⟨fun other => misses other + only task 1 other, ?_⟩
  simpa [only, Nat.add_comm] using (looked.trans grows).trans stored

end Store

section Settling

variable {σ : Type} {engine : Engine σ}

theorem Pass.grows_observations {pass : Pass σ} {observations : Table ObserveInputs Value}
    {lookups misses stores : Nat}
    (grows : pass.store.observations.stats.Grow lookups misses stores 0 observations.stats) :
    pass.store.Grows (only .data lookups) (only .data misses) (only .data stores)
      (pass.withObservations observations).store
  | .data => grows
  | .description => .refl _

theorem Pass.grows_expansions {pass : Pass σ} {expansions : Table DescribeInputs Expansion}
    {lookups misses stores : Nat}
    (grows : pass.store.expansions.stats.Grow lookups misses stores 0 expansions.stats) :
    pass.store.Grows (only .description lookups) (only .description misses)
      (only .description stores) (pass.withExpansions expansions).store
  | .data => .refl _
  | .description => grows

theorem Tour.Settles.refl (engine : Engine σ) (tour : Tour σ) : tour.Settles engine [] tour :=
  ⟨(List.append_nil _).symm, .refl _⟩

theorem Tour.Settles.trans {first second third : Tour σ} {visited later : List Element}
    (settles : first.Settles engine visited second)
    (settles_later : second.Settles engine later third) :
    first.Settles engine (visited ++ later) third where
  visited_eq := by rw [settles_later.visited_eq, settles.visited_eq, List.append_assoc]
  settles := by simpa only [List.countP_append] using settles.settles.trans settles_later.settles

/-- An element is visited before what is below it. -/
theorem Tour.Settles.visit {before after : Tour σ} {element : Element} {below : List Element}
    {lookups : Task → Nat} (visited_eq : after.visited = before.visited ++ [element] ++ below)
    (settles : before.pass.store.Settles lookups after.pass.store)
    (lookups_eq : ∀ task, lookups task =
      (engine.does task element).toNat + below.countP (engine.does task)) :
    before.Settles engine (element :: below) after where
  visited_eq := by rw [visited_eq, List.append_assoc, List.singleton_append]
  settles := by
    have counted (task : Task) : (element :: below).countP (engine.does task) = lookups task := by
      rw [lookups_eq, List.countP_cons]
      cases engine.does task element <;> simp [Nat.add_comm]
    rwa [funext counted]

/-- Items are handled one after another. -/
theorem Tour.settles_mapM {ι α : Type} {items : List ι} {step : ι → EStateM EngineError (Tour σ) α}
    (each : ∀ item tour result after, step item tour = .ok result after →
      ∃ visited, tour.Settles engine visited after)
    {start after : Tour σ} {results : List α} (run : items.mapM step start = .ok results after) :
    ∃ visited, start.Settles engine visited after := by
  induction items generalizing start results with
  | nil =>
      cases run
      exact ⟨[], .refl engine _⟩
  | cons item rest induction =>
      rw [List.mapM_cons] at run
      obtain ⟨result, middle, first, run⟩ := bind_eq_ok.mp run
      obtain ⟨others, last, later, done⟩ := bind_eq_ok.mp run
      cases done
      obtain ⟨visited, settles⟩ := each item _ _ _ first
      obtain ⟨more, settles_later⟩ := induction later
      exact ⟨visited ++ more, settles.trans settles_later⟩

theorem isSome_derivation? (engine : Engine σ) {type : NodeType} {element : Element}
    (kind : element.kind = .custom type) :
    (engine.processor.derivation? engine.vocabulary type).isSome = engine.does .data element := by
  have does_eq : engine.does .data element =
      ((engine.processor.sourceFor? type).isSome || (engine.vocabulary type).observe.isSome) := by
    simp [Engine.does, kind]
  rw [does_eq, Processor.derivation?]
  cases engine.processor.sourceFor? type with
  | some source => rfl
  | none => cases (engine.vocabulary type).observe <;> rfl

variable [Digest]

/-- Data that are computed are stored. -/
theorem Engine.settles_computeData {position : Position} {element : Element}
    {derive : Element → Action σ EngineError Value} {before : Store} {pass after : Pass σ}
    {data : Option Value}
    (run : computeData position element derive pass = .ok data after)
    (looked : before.Grows (only .data 1) (only .data 1) (only .data 0) pass.store) :
    before.Settles (only .data 1) after.store := by
  obtain ⟨value, late, running, run⟩ := bind_eq_ok.mp run
  obtain ⟨world, -, rfl⟩ := Pass.of_run_ok running
  obtain ⟨id, last, storing, done⟩ := bind_eq_ok.mp run
  cases done
  obtain ⟨observations, stored, rfl⟩ := Pass.of_onObservations_ok storing
  exact looked.settles_miss (.refl _) (Pass.grows_observations (Table.store_grows stored))

theorem Engine.settles_memoizedData {position : Position} {type : NodeType} {element : Element}
    (kind : element.kind = .custom type) {pass after : Pass σ} {data : Option Value}
    (run : engine.memoizedData position type element pass = .ok data after) :
    pass.store.Settles (only .data (engine.does .data element).toNat) after.store := by
  rw [← isSome_derivation? engine kind]
  rw [memoizedData] at run
  cases derivation : engine.processor.derivation? engine.vocabulary type with
  | none =>
      rw [derivation] at run
      cases run
      simpa using Store.Settles.refl pass.store
  | some derive =>
      rw [derivation] at run
      obtain ⟨outcome, middle, looking, run⟩ := bind_eq_ok.mp run
      obtain ⟨observations, looked, rfl⟩ := Pass.of_onObservations_ok looking
      have grows := Pass.grows_observations (Table.lookup_grows looked)
      cases outcome with
      | hit value =>
          cases run
          exact grows.settles_hit
      | vacant => exact settles_computeData run grows
      | stale => exact settles_computeData run grows

/-- A description that is computed is stored, and what it gives is settled by then. -/
theorem Engine.settles_tourComputed {describe : DescribeContext → Action σ Fault Element}
    {expand : Element → EStateM EngineError (Tour σ) Expansion}
    (each : ∀ output tour expansion after, expand output tour = .ok expansion after →
      ∃ visited, tour.Settles engine visited after)
    {position : Position} {type : NodeType} {element : Element} {data : Option Value}
    {before : Store} {tour after : Tour σ} {expansion : Expansion}
    (run : tourComputed position type element data describe expand tour = .ok expansion after)
    (looked : before.Grows (only .description 1) (only .description 1) (only .description 0)
      tour.pass.store) :
    ∃ below, after.visited = tour.visited ++ below ∧
      before.Settles (fun task => only .description 1 task + below.countP (engine.does task))
        after.pass.store := by
  obtain ⟨output, late, running, run⟩ := bind_eq_ok.mp run
  obtain ⟨pass, ran, rfl⟩ := Tour.of_within_ok running
  obtain ⟨world, -, rfl⟩ := Pass.of_run_ok ran
  obtain ⟨body, later, expanding, run⟩ := bind_eq_ok.mp run
  obtain ⟨below, visited_eq, settles⟩ := each output _ _ _ expanding
  obtain ⟨id, last, storing, done⟩ := bind_eq_ok.mp run
  cases done
  obtain ⟨pass, filing, rfl⟩ := Tour.of_within_ok storing
  obtain ⟨expansions, stored, rfl⟩ := Pass.of_onExpansions_ok filing
  exact ⟨below, visited_eq,
    looked.settles_miss settles (Pass.grows_expansions (Table.store_grows stored))⟩

/-- Below a description that is reused, nothing is visited. -/
theorem Engine.settles_tourRecalled {describe : DescribeContext → Action σ Fault Element}
    {expand : Element → EStateM EngineError (Tour σ) Expansion}
    (each : ∀ output tour expansion after, expand output tour = .ok expansion after →
      ∃ visited, tour.Settles engine visited after)
    {position : Position} {type : NodeType} {element : Element} {data : Option Value}
    {tour after : Tour σ} {expansion : Expansion}
    (run : tourRecalled position element data
      (tourComputed position type element data describe expand) tour = .ok expansion after) :
    ∃ below, after.visited = tour.visited ++ below ∧
      tour.pass.store.Settles
        (fun task => only .description 1 task + below.countP (engine.does task))
        after.pass.store := by
  obtain ⟨outcome, middle, looking, run⟩ := bind_eq_ok.mp run
  obtain ⟨pass, recalled, rfl⟩ := Tour.of_within_ok looking
  obtain ⟨expansions, looked, rfl⟩ := Pass.of_onExpansions_ok recalled
  have grows := Pass.grows_expansions (Table.lookup_grows looked)
  cases outcome with
  | hit expansion =>
      obtain ⟨⟨⟩, last, keeping, done⟩ := bind_eq_ok.mp run
      cases done
      obtain ⟨pass, kept, rfl⟩ := Tour.of_within_ok keeping
      cases kept
      exact ⟨[], (List.append_nil _).symm, grows.settles_hit⟩
  | vacant =>
      have settles := settles_tourComputed each run grows
      exact settles
  | stale =>
      have settles := settles_tourComputed each run grows
      exact settles

/-- What the visited elements ask for is settled, if the expansion succeeds. -/
theorem Engine.settles_touredAt {room : Nat} {position : Position} {element : Element}
    {tour after : Tour σ} {expansion : Expansion}
    (run : engine.touredAt room position element tour = .ok expansion after) :
    ∃ below, tour.Settles engine (element :: below) after := by
  induction room generalizing position element tour expansion after with
  | zero => cases run
  | succ room induction =>
      -- What is expanded below the element need not tell which of the visited elements is its root.
      have each {position : Position} {element : Element} (tour : Tour σ) (expansion : Expansion)
          (after : Tour σ) (run : engine.touredAt room position element tour = .ok expansion after) :
          ∃ visited, tour.Settles engine visited after := by
        obtain ⟨below, settles⟩ := induction run
        exact ⟨_, settles⟩
      rw [touredAt] at run
      obtain ⟨⟨⟩, entered, visiting, run⟩ := bind_eq_ok.mp run
      cases visiting
      cases kind : element.kind with
      | primitive builtIn =>
          rw [kind] at run
          obtain ⟨children, last, expanding, done⟩ := bind_eq_ok.mp run
          cases done
          obtain ⟨below, visited_eq, settles⟩ := Tour.settles_mapM (fun _ => each) expanding
          refine ⟨below, Tour.Settles.visit visited_eq settles fun task => ?_⟩
          simp [does, kind]
      | custom type =>
          rw [kind] at run
          obtain ⟨data, middle, recalling, run⟩ := bind_eq_ok.mp run
          obtain ⟨pass, recalled, rfl⟩ := Tour.of_within_ok recalling
          have data_settles := settles_memoizedData kind recalled
          cases describing : (engine.vocabulary type).describe with
          | none =>
              rw [describing] at run
              obtain ⟨children, last, expanding, done⟩ := bind_eq_ok.mp run
              cases done
              obtain ⟨below, visited_eq, settles⟩ := Tour.settles_mapM (fun _ => each) expanding
              refine ⟨below, Tour.Settles.visit visited_eq (data_settles.trans settles) fun task => ?_⟩
              cases task <;> simp [does, kind, describing, only]
          | some describe =>
              rw [describing] at run
              obtain ⟨below, visited_eq, settles⟩ := settles_tourRecalled (fun _ => each) run
              refine ⟨below, Tour.Settles.visit visited_eq (data_settles.trans settles) fun task => ?_⟩
              cases task <;> simp [does, kind, describing, only]

end Settling

end Phrasing
