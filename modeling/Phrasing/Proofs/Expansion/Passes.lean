import Phrasing.Compilation
import Phrasing.Proofs.Expansion.Outcomes
import Phrasing.Proofs.Memo.Filing

/-!
# Passes

What the operations of a compilation under way do to its store.
-/

namespace Phrasing

open Memo

/-- A table is overfull. -/
def Store.Overfull (store : Store) : Prop :=
  store.observations.Overfull ∨ store.expansions.Overfull

/-- A store differs from an earlier one only within a region. -/
structure Store.ChangesWithin (region : Position → Prop) (before after : Store) : Prop where
  /-- The observations do. -/
  observations : Table.ChangesWithin region before.observations after.observations
  /-- The expansions do. -/
  expansions : Table.ChangesWithin region before.expansions after.expansions

section Regions

variable {region other : Position → Prop}

namespace Store.ChangesWithin

theorem refl (region : Position → Prop) (store : Store) : store.ChangesWithin region store :=
  ⟨.refl region _, .refl region _⟩

theorem trans {first second third : Store} (earlier : first.ChangesWithin region second)
    (later : second.ChangesWithin region third) : first.ChangesWithin region third :=
  ⟨earlier.observations.trans later.observations, earlier.expansions.trans later.expansions⟩

theorem widen {before after : Store} (changes : before.ChangesWithin region after)
    (wider : ∀ position, region position → other position) : before.ChangesWithin other after :=
  ⟨changes.observations.widen wider, changes.expansions.widen wider⟩

end Store.ChangesWithin

theorem Store.keepSubtree_changesWithin (region : Position → Prop) (store : Store)
    (root : Position) : store.ChangesWithin region (store.keepSubtree root) where
  observations := ⟨fun _ => rfl, fun _ => rfl, rfl, List.mem_cons_of_mem _⟩
  expansions := ⟨fun _ => rfl, fun _ => rfl, rfl, List.mem_cons_of_mem _⟩

end Regions

namespace Pass

variable {σ ε α : Type}

/-- A pass with other observations. -/
def withObservations (pass : Pass σ) (observations : Table ObserveInputs Value) : Pass σ :=
  { pass with store := { pass.store with observations } }

/-- A pass with other expansions. -/
def withExpansions (pass : Pass σ) (expansions : Table DescribeInputs Expansion) : Pass σ :=
  { pass with store := { pass.store with expansions } }

theorem onObservations_ok {pass : Pass σ} {observations : Table ObserveInputs Value} {result : α}
    {operation : Table ObserveInputs Value → Except TableError (α × Table ObserveInputs Value)}
    (done : operation pass.store.observations = .ok (result, observations)) :
    onObservations operation pass = .ok result (pass.withObservations observations) := by
  rw [onObservations, done]
  rfl

theorem onObservations_error {pass : Pass σ} {error : TableError}
    {operation : Table ObserveInputs Value → Except TableError (α × Table ObserveInputs Value)}
    (broken : operation pass.store.observations = .error error) :
    onObservations operation pass = .error (.table error) pass := by
  rw [onObservations, broken]

theorem of_onObservations_ok {pass after : Pass σ} {result : α}
    {operation : Table ObserveInputs Value → Except TableError (α × Table ObserveInputs Value)}
    (run : onObservations operation pass = .ok result after) :
    ∃ observations, operation pass.store.observations = .ok (result, observations) ∧
      after = pass.withObservations observations := by
  cases done : operation pass.store.observations with
  | ok outcome =>
      obtain ⟨rfl, rfl⟩ := EStateM.Result.ok.inj ((onObservations_ok done).symm.trans run)
      exact ⟨_, rfl, rfl⟩
  | error error => exact nomatch (onObservations_error done).symm.trans run

theorem onExpansions_ok {pass : Pass σ} {expansions : Table DescribeInputs Expansion} {result : α}
    {operation : Table DescribeInputs Expansion →
      Except TableError (α × Table DescribeInputs Expansion)}
    (done : operation pass.store.expansions = .ok (result, expansions)) :
    onExpansions operation pass = .ok result (pass.withExpansions expansions) := by
  rw [onExpansions, done]
  rfl

theorem onExpansions_error {pass : Pass σ} {error : TableError}
    {operation : Table DescribeInputs Expansion →
      Except TableError (α × Table DescribeInputs Expansion)}
    (broken : operation pass.store.expansions = .error error) :
    onExpansions operation pass = .error (.table error) pass := by
  rw [onExpansions, broken]

theorem of_onExpansions_ok {pass after : Pass σ} {result : α}
    {operation : Table DescribeInputs Expansion →
      Except TableError (α × Table DescribeInputs Expansion)}
    (run : onExpansions operation pass = .ok result after) :
    ∃ expansions, operation pass.store.expansions = .ok (result, expansions) ∧
      after = pass.withExpansions expansions := by
  cases done : operation pass.store.expansions with
  | ok outcome =>
      obtain ⟨rfl, rfl⟩ := EStateM.Result.ok.inj ((onExpansions_ok done).symm.trans run)
      exact ⟨_, rfl, rfl⟩
  | error error => exact nomatch (onExpansions_error done).symm.trans run

theorem of_run_ok {pass after : Pass σ} {result : α} {call : Call} {callbacks : Action σ ε α}
    (run_eq : run call callbacks pass = .ok result after) :
    ∃ world, callbacks pass.world = .ok result world ∧
      after = { pass with world, calls := pass.calls ++ [call] } := by
  rw [run, act] at run_eq
  cases outcome : callbacks pass.world with
  | ok value world =>
      rw [outcome] at run_eq
      obtain ⟨rfl, rfl⟩ := EStateM.Result.ok.inj run_eq
      exact ⟨world, rfl, rfl⟩
  | error error world =>
      rw [outcome] at run_eq
      cases run_eq

section Regions

variable {region : Position → Prop}

theorem countObservations_changesWithin (region : Position → Prop) (pass : Pass σ) (stats : Stats) :
    pass.store.ChangesWithin region
      (pass.withObservations { pass.store.observations with stats }).store :=
  ⟨⟨fun _ => rfl, fun _ => rfl, rfl, id⟩, .refl region _⟩

theorem countExpansions_changesWithin (region : Position → Prop) (pass : Pass σ) (stats : Stats) :
    pass.store.ChangesWithin region
      (pass.withExpansions { pass.store.expansions with stats }).store :=
  ⟨.refl region _, ⟨fun _ => rfl, fun _ => rfl, rfl, id⟩⟩

theorem putObservation_changesWithin {pass : Pass σ} {entry : Entry ObserveInputs Value}
    {observations : Table ObserveInputs Value}
    (puts : pass.store.observations.Puts entry observations) (inside : region entry.position) :
    pass.store.ChangesWithin region (pass.withObservations observations).store :=
  ⟨puts.changesWithin inside, .refl region _⟩

theorem putExpansion_changesWithin {pass : Pass σ} {entry : Entry DescribeInputs Expansion}
    {expansions : Table DescribeInputs Expansion}
    (puts : pass.store.expansions.Puts entry expansions) (inside : region entry.position) :
    pass.store.ChangesWithin region (pass.withExpansions expansions).store :=
  ⟨.refl region _, puts.changesWithin inside⟩

end Regions

/-- The pass with which a compilation starts. -/
def opening (world : World σ) : Pass σ :=
  { store := world.store.begin, world := { world with store := .empty } }

/-- The world in which a compilation leaves off. -/
def closing (pass : Pass σ) : World σ :=
  { pass.world with store := pass.store }

end Pass

theorem Engine.compile_eq {σ : Type} [Digest] (engine : Engine σ) (root : Element)
    (world : World σ) :
    engine.compile root world =
      match engine.expand root (Pass.opening world) with
      | .ok expansion pass => .ok { engine, root := expansion } pass.closing
      | .error error pass => .error error pass.closing :=
  rfl

theorem Engine.finalState_compile {σ : Type} [Digest] (engine : Engine σ) (root : Element)
    (world : World σ) :
    finalState (engine.compile root world) =
      (finalState (engine.expand root (Pass.opening world))).closing := by
  rw [compile_eq]
  cases engine.expand root (Pass.opening world) <;> rfl

theorem Engine.of_compile_ok {σ : Type} [Digest] {engine : Engine σ} {root : Element}
    {world after : World σ} {parser : Parser σ}
    (run : engine.compile root world = .ok parser after) :
    ∃ pass, engine.expand root (Pass.opening world) = .ok parser.root pass ∧ after = pass.closing := by
  rw [compile_eq] at run
  cases outcome : engine.expand root (Pass.opening world) with
  | ok expansion pass =>
      rw [outcome] at run
      obtain ⟨rfl, rfl⟩ := EStateM.Result.ok.inj run
      exact ⟨pass, rfl, rfl⟩
  | error error pass =>
      rw [outcome] at run
      cases run

theorem Engine.engine_of_compile_ok {σ : Type} [Digest] {engine : Engine σ} {root : Element}
    {world after : World σ} {parser : Parser σ}
    (run : engine.compile root world = .ok parser after) : parser.engine = engine := by
  obtain ⟨pass, expanding, rfl⟩ := of_compile_ok run
  rw [compile_eq, expanding] at run
  exact congrArg Parser.engine (EStateM.Result.ok.inj run).1.symm

end Phrasing
