import Phrasing.Proofs.Expansion.Upkeep
import Phrasing.Proofs.Traversal.Effects

/-!
# Operations on a shared store

Compilations of any engines, readings and clearings share one store.  A compilation may fail half-way,
compile with the store switched off, or leave out the sweep; a store that was well kept stays so.
-/

namespace Phrasing

open Memo Relation

variable {σ : Type}

namespace Engine

variable [Digest] {engine : Engine σ} {standard : Standard σ} {root : Element}

theorem expand_fresh (fresh : engine.config.remember = false) :
    engine.expand root = Pass.act (engine.expandFresh root) := by
  rw [expand, fresh]
  rfl

/-- A compilation that remembers delivers what it gives, and may then drop what it did not reach. -/
theorem expand_gives (upholds : engine.Upholds standard) (remember : engine.config.remember = true)
    {before after : Pass σ} {expansion : Expansion}
    (kept : standard.WellKept before.world.ambient before.store)
    (input : standard.Input before.world.ambient root)
    (run : engine.expand root before = .ok expansion after) :
    ∃ late, standard.WellKept late.world.ambient late.store ∧
      Gives standard .root before.store late expansion ∧
      after = if engine.config.sweep then { late with store := late.store.sweep.2 } else late := by
  rw [expand, if_pos remember] at run
  obtain ⟨result, late, expanding, run⟩ := bind_eq_ok.mp run
  have runs := memoizedAt_runs upholds (engine.config.maxDepth + 1) .root root rfl before kept input
  rw [expandMemoized] at expanding
  rw [expanding] at runs
  obtain ⟨late_kept, -, gives⟩ := runs.of_ok
  by_cases sweep : engine.config.sweep = true
  · simp only [sweep, if_true] at run
    obtain ⟨rfl, rfl⟩ := EStateM.Result.ok.inj run
    exact ⟨late, late_kept, gives, by rw [if_pos sweep]⟩
  · simp only [sweep] at run
    obtain ⟨rfl, rfl⟩ := EStateM.Result.ok.inj run
    exact ⟨late, late_kept, gives, by rw [if_neg sweep]⟩

/-- Every node that a compilation gives meets the standard. -/
theorem expand_meets_standard (upholds : engine.Upholds standard) {before after : Pass σ}
    {expansion : Expansion}
    (kept : engine.config.remember = true →
      standard.WellKept before.world.ambient before.store)
    (input : standard.Input before.world.ambient root)
    (run : engine.expand root before = .ok expansion after) :
    standard.Meets after.world.ambient (expansion.Located .root) := by
  by_cases remember : engine.config.remember = true
  · obtain ⟨late, -, gives, after_eq⟩ :=
      expand_gives upholds remember (kept remember) input run
    rw [after_eq]
    split
    · exact gives.meets
    · exact gives.meets
  · rw [expand_fresh (Bool.eq_false_iff.mpr remember), Pass.act] at run
    have runs := freshAt_runs upholds (engine.config.maxDepth + 1) .root root rfl before.world input
    rw [expandFresh] at run
    split at run
    · next result world outcome =>
        obtain ⟨rfl, rfl⟩ := EStateM.Result.ok.inj run
        rw [outcome] at runs
        exact runs.of_ok.2.2
    · cases run

/-- A pass goes on with a well-kept store and remembers nothing new by content. -/
structure Keeps (standard : Standard σ) (before after : Pass σ) : Prop where
  /-- The state of the callbacks has grown. -/
  grows : standard.Grows before.world.ambient after.world.ambient
  /-- The store is well kept. -/
  kept : standard.WellKept after.world.ambient after.store
  /-- What is remembered by content was remembered before. -/
  adHoc : after.store.adHoc ⊆ before.store.adHoc

omit [Digest] in
theorem Keeps.sweep {before after : Pass σ} (keeps : Keeps standard before after) :
    Keeps standard before { after with store := after.store.sweep.2 } where
  grows := keeps.grows
  kept := keeps.kept.sweep
  adHoc := fun _ member => keeps.adHoc (List.mem_filter.mp member).1

/-- A store stays well kept, whether a compilation fails or not.  One that does not remember is free
to give anything. -/
theorem expand_keeps (upholds : engine.config.remember = true → engine.Upholds standard)
    {before : Pass σ} (kept : standard.WellKept before.world.ambient before.store)
    (input : standard.Input before.world.ambient root)
    (grows : engine.config.remember = false → standard.Grows before.world.ambient
      (finalState (engine.expandFresh root before.world)).ambient) :
    Keeps standard before (finalState (engine.expand root before)) := by
  by_cases remember : engine.config.remember = true
  · have runs := memoizedAt_runs (upholds remember) (engine.config.maxDepth + 1) .root root rfl
      before kept input
    rw [expand, if_pos remember, expandMemoized]
    cases expanding : engine.memoizedAt (engine.config.maxDepth + 1) .root root before with
    | ok expansion late =>
        rw [expanding] at runs
        obtain ⟨late_kept, ⟨grows_late, retains⟩, -⟩ := runs.of_ok
        have keeps : Keeps standard before late :=
          ⟨grows_late, late_kept, fun _ member => retains.adHoc_eq ▸ member⟩
        rw [bind_of_ok expanding]
        split
        · exact keeps.sweep
        · exact keeps
    | error error late =>
        rw [expanding] at runs
        rw [bind_of_error expanding]
        cases runs with
        | excused late_kept leads _ =>
            exact ⟨leads.1, late_kept, fun _ member => leads.2.adHoc_eq ▸ member⟩
  · have fresh := Bool.eq_false_iff.mpr remember
    have grows_fresh := grows fresh
    rw [expand_fresh fresh, Pass.act]
    cases outcome : engine.expandFresh root before.world with
    | ok expansion world =>
        rw [outcome] at grows_fresh
        exact ⟨grows_fresh, kept.grow grows_fresh, List.Subset.refl _⟩
    | error error world =>
        rw [outcome] at grows_fresh
        exact ⟨grows_fresh, kept.grow grows_fresh, List.Subset.refl _⟩

end Engine

/-- The tables of observations and expansions are the same. -/
def SameTables (before after : World σ) : Prop :=
  after.store.observations = before.store.observations ∧
    after.store.expansions = before.store.expansions

theorem sameTables_of_steps {before after : World σ} (steps : ReflTransGen SameTables before after) :
    SameTables before after := by
  induction steps with
  | refl => exact ⟨rfl, rfl⟩
  | tail _ same induction => exact ⟨same.1.trans induction.1, same.2.trans induction.2⟩

/-- Callbacks and visits do not compile and do not clear the store. -/
structure Engine.Reserved (engine : Engine σ) : Prop where
  /-- Callbacks leave the tables alone. -/
  callbacks : engine.CallbacksStay SameTables
  /-- Visits leave the tables alone. -/
  visits : engine.VisitsStay SameTables

theorem Parser.parse_sameTables [Digest] {parser : Parser σ} (reserved : parser.engine.Reserved)
    (input : String) (world : World σ) : SameTables world (finalState (parser.parse input world)) :=
  sameTables_of_steps (Engine.stays_parse
    (Engine.stays_expandAdHoc reserved.callbacks ⟨rfl, rfl⟩) reserved.visits input world)

/-- One operation on a shared store: callbacks go about their own affairs, an engine compiles, a
parser reads an input, or the store is cleared. -/
inductive Proceeds [Digest] (permits : Engine σ → Element → World σ → Prop) :
    World σ → World σ → Prop
  | elapse {world : World σ} (ambient : σ) : Proceeds permits world { world with ambient }
  | compile {world : World σ} (engine : Engine σ) (root : Element)
      (permitted : permits engine root world) :
      Proceeds permits world (finalState (engine.compile root world))
  | parse {world : World σ} (parser : Parser σ) (input : String)
      (reserved : parser.engine.Reserved) :
      Proceeds permits world (finalState (parser.parse input world))
  | clear {world : World σ} : Proceeds permits world { world with store := world.store.clear }

section Histories

variable [Digest] {permits : Engine σ → Element → World σ → Prop}
  {node : Position → Element → Option Value → Prop} {start world after : World σ}

theorem Proceeds.wellKept
    (allows : ∀ engine root world, permits engine root world → engine.config.remember = true →
      engine.Upholds (.steady node))
    (proceeds : Proceeds permits world after)
    (kept : (Standard.steady node).WellKept world.ambient world.store) :
    (Standard.steady node).WellKept after.ambient after.store := by
  cases proceeds with
  | elapse ambient => exact kept.grow trivial
  | compile engine root permitted =>
      rw [Engine.finalState_compile]
      exact (Engine.expand_keeps (allows engine root world permitted) kept.begin trivial
        fun _ => trivial).kept
  | parse parser input reserved =>
      obtain ⟨observations_eq, expansions_eq⟩ := parser.parse_sameTables reserved input world
      exact (kept.grow trivial).of_tables observations_eq expansions_eq
  | clear => exact Standard.wellKept_clear _ _

/-- A store is well kept after any history that starts with an empty one. -/
theorem wellKept_of_history
    (allows : ∀ engine root world, permits engine root world → engine.config.remember = true →
      engine.Upholds (.steady node))
    (history : ReflTransGen (Proceeds permits) start world) (empty : start.store = .empty) :
    (Standard.steady node).WellKept world.ambient world.store := by
  induction history with
  | refl =>
      rw [empty]
      exact Standard.wellKept_empty _
  | tail _ proceeds induction => exact proceeds.wellKept allows induction

end Histories

end Phrasing
