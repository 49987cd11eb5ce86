import Phrasing.Proofs.Traversal.Lockstep

/-!
# Notes of the children that are read

Which children a primitive reads, with which readings and in which worlds, can be noted while it is
read; nothing else changes.  If one of them fails, the primitive fails with the same error in the same
world, whichever primitive it is.  Otherwise a primitive fails only when it is malformed.
-/

namespace Phrasing

open Traversal

/-- A child that is read, with the reading that goes on from it and the world at that time. -/
structure ChildRead (σ : Type) where
  /-- The child. -/
  node : Expansion
  /-- The reading that it is given. -/
  reading : Reading
  /-- The world in which it is read. -/
  world : World σ

/-- What callbacks keep for themselves, with the children read so far, oldest first. -/
structure Notebook (σ : Type) where
  /-- What the callbacks keep. -/
  kept : σ
  /-- The children read so far. -/
  reads : List (ChildRead σ)

section Notes

variable {σ α β : Type}

/-- A world with notes. -/
def World.noted (world : World σ) (reads : List (ChildRead σ)) : World (Notebook σ) where
  store := world.store
  ambient := { kept := world.ambient, reads }

/-- A world without its notes. -/
def World.unnoted (world : World (Notebook σ)) : World σ where
  store := world.store
  ambient := world.ambient.kept

/-- A result in a world with notes. -/
def noteAll (reads : List (ChildRead σ)) :
    EStateM.Result EngineError (World σ) α → EStateM.Result EngineError (World (Notebook σ)) α
  | .ok result after => .ok result (after.noted reads)
  | .error error after => .error error (after.noted reads)

/-- Reads a child, and notes that it is read. -/
def noting (child : Expansion → Reading → Action σ EngineError (List Reading)) (node : Expansion)
    (reading : Reading) : Action (Notebook σ) EngineError (List Reading) := fun world =>
  noteAll (world.ambient.reads ++ [⟨node, reading, world.unnoted⟩])
    (child node reading world.unnoted)

/-- An engine that reads primitives alike in worlds with notes. -/
def Engine.notebook (engine : Engine σ) : Engine (Notebook σ) where
  vocabulary _ := {}
  processor := .identity
  config := engine.config

/-- The children that are read when a primitive is read, oldest first. -/
def Engine.childReads (engine : Engine σ)
    (child : Expansion → Reading → Action σ EngineError (List Reading)) (builtIn : Primitive)
    (node : Expansion) (reading : Reading) (world : World σ) : List (ChildRead σ) :=
  (finalState (engine.notebook.readPrimitive (noting child) builtIn node reading
    (world.noted []))).ambient.reads

variable {child : Expansion → Reading → Action σ EngineError (List Reading)}

/-- A child fails when it is read. -/
def ChildRead.Fails (child : Expansion → Reading → Action σ EngineError (List Reading))
    (read : ChildRead σ) (error : EngineError) (after : World σ) : Prop :=
  child read.node read.reading read.world = .error error after

/-- The outcome of a computation that reads some children: it fails just as any of them fails, and
otherwise only if something is malformed. -/
structure AccountsFor (child : Expansion → Reading → Action σ EngineError (List Reading))
    (reads : List (ChildRead σ)) (outcome : EStateM.Result EngineError (World σ) α) : Prop where
  /-- If a child fails, so does the computation, with the same error and in the same world. -/
  fails {read : ChildRead σ} (member : read ∈ reads) {error : EngineError} {after : World σ}
    (failed : read.Fails child error after) : outcome = .error error after
  /-- If the computation fails, then a child fails or something is malformed. -/
  arises {error : EngineError} {after : World σ} (failed : outcome = .error error after) :
    (∃ read ∈ reads, read.Fails child error after) ∨
      ∃ builtIn reason, error = .malformed builtIn reason

theorem AccountsFor.ok {reads : List (ChildRead σ)} {result : α} {after : World σ}
    (succeeds : ∀ read ∈ reads, ∀ error last, ¬ read.Fails child error last) :
    AccountsFor child reads (.ok result after) :=
  ⟨fun member _ _ failed => absurd failed (succeeds _ member _ _), nofun⟩

theorem AccountsFor.not_fails {reads : List (ChildRead σ)} {result : α} {after : World σ}
    (accounts : AccountsFor child reads (.ok result after)) {read : ChildRead σ}
    (member : read ∈ reads) (error : EngineError) (last : World σ) :
    ¬ read.Fails child error last :=
  fun failed => nomatch accounts.fails member failed

/-- A computation is another one that notes the children it reads, and accounts for them. -/
def Notes (child : Expansion → Reading → Action σ EngineError (List Reading))
    (noted : Action (Notebook σ) EngineError α) (plain : Action σ EngineError α) : Prop :=
  ∀ world : World (Notebook σ), ∃ reads,
    noted world = noteAll (world.ambient.reads ++ reads) (plain world.unnoted) ∧
      AccountsFor child reads (plain world.unnoted)

theorem notes_pure (result : α) :
    Notes child (pure result : Action (Notebook σ) EngineError α) (pure result) := by
  intro world
  refine ⟨[], ?_, .ok nofun⟩
  rw [List.append_nil]
  rfl

theorem notes_outcome {decoded : Except EngineError α} (decodes : IsDecoding decoded) :
    Notes child (Engine.outcome decoded : Action (Notebook σ) EngineError α)
      (Engine.outcome decoded) := by
  cases decoded with
  | ok result => exact notes_pure result
  | error error =>
      intro world
      refine ⟨[], ?_, nofun, fun failed => .inr ?_⟩
      · rw [List.append_nil]
        rfl
      · obtain ⟨rfl, -⟩ := EStateM.Result.error.inj failed
        exact decodes error rfl

theorem notes_noting (child : Expansion → Reading → Action σ EngineError (List Reading))
    (node : Expansion) (reading : Reading) :
    Notes child (noting child node reading) (child node reading) := by
  intro world
  refine ⟨[⟨node, reading, world.unnoted⟩], rfl, fun member error after failed => ?_, ?_⟩
  · rwa [List.mem_singleton.mp member] at failed
  · exact fun failed => .inl ⟨_, List.mem_singleton_self _, failed⟩

theorem Notes.bind {noted : Action (Notebook σ) EngineError α} {plain : Action σ EngineError α}
    {next : α → Action (Notebook σ) EngineError β} {plain_next : α → Action σ EngineError β}
    (first : Notes child noted plain) (rest : ∀ result, Notes child (next result) (plain_next result)) :
    Notes child (noted >>= next) (plain >>= plain_next) := by
  intro world
  obtain ⟨reads, run, accounts⟩ := first world
  cases plain_run : plain world.unnoted with
  | error error after =>
      rw [plain_run] at run accounts
      rw [bind_of_error plain_run, bind_of_error run]
      refine ⟨reads, rfl, fun member _ _ failed => ?_, fun failed => ?_⟩
      · obtain ⟨rfl, rfl⟩ := EStateM.Result.error.inj (accounts.fails member failed)
        rfl
      · obtain ⟨rfl, rfl⟩ := EStateM.Result.error.inj failed
        exact accounts.arises rfl
  | ok result after =>
      rw [plain_run] at run accounts
      rw [bind_of_ok plain_run, bind_of_ok run]
      obtain ⟨later, run_later, accounts_later⟩ := rest result (after.noted _)
      refine ⟨reads ++ later, ?_, fun member error last failed => ?_, fun failed => ?_⟩
      · rw [run_later, ← List.append_assoc]
        rfl
      · rcases List.mem_append.mp member with earlier | here
        · exact absurd failed (accounts.not_fails earlier error last)
        · exact accounts_later.fails here failed
      · refine (accounts_later.arises failed).imp_left ?_
        rintro ⟨read, member, read_failed⟩
        exact ⟨read, List.mem_append_right reads member, read_failed⟩

theorem notes_lockstep (child : Expansion → Reading → Action σ EngineError (List Reading)) :
    Lockstep fun (α : Type) (noted : Action (Notebook σ) EngineError α) plain =>
      Notes child noted plain :=
  ⟨notes_pure, Notes.bind⟩

/-- A primitive fails as the child fails that it reads last, or else because it is malformed. -/
theorem Engine.accountsFor_childReads (engine : Engine σ)
    (child : Expansion → Reading → Action σ EngineError (List Reading)) (builtIn : Primitive)
    (node : Expansion) (reading : Reading) (world : World σ) :
    AccountsFor child (engine.childReads child builtIn node reading world)
      (engine.readPrimitive child builtIn node reading world) := by
  have notes : Notes child (engine.notebook.readPrimitive (noting child) builtIn node reading)
      (engine.readPrimitive child builtIn node reading) :=
    (notes_lockstep child).readPrimitive notes_outcome engine.notebook engine rfl (noting child) child
      (fun below _ => notes_noting child below) builtIn reading
  obtain ⟨reads, run, accounts⟩ := notes (world.noted [])
  have reads_eq : engine.childReads child builtIn node reading world = reads := by
    rw [childReads, run]
    cases engine.readPrimitive child builtIn node reading (world.noted []).unnoted <;> rfl
  rw [reads_eq]
  exact accounts

end Notes

end Phrasing
