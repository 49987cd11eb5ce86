import Phrasing.Proofs.Expansion.Disciplines
import Phrasing.Proofs.Expansion.Increments

/-!
# Stores that are taken out

A compilation takes the store out of the world and puts it back in the end.  Whatever callbacks do to
the store of the world in the meantime is lost: where a compilation runs no callbacks itself, its
store holds what it held before.
-/

namespace Phrasing

open Memo

/-- The inputs and the output that are stored at a position. -/
def Memo.Table.content? {Input Output : Type} (table : Table Input Output) (position : Position) :
    Option (Input × Output) :=
  (table.entryAt position).map fun entry => (entry.inputs, entry.output)

theorem Memo.Table.Puts.content? {Input Output : Type} {before after : Table Input Output}
    {entry : Entry Input Output} (puts : before.Puts entry after) (position : Position) :
    after.content? position =
      if position = entry.position then some (entry.inputs, entry.output)
      else before.content? position := by
  rw [Table.content?, puts.entryAt]
  split
  · rfl
  · rfl

/-- Stored contents that are used again stay as they are. -/
theorem Memo.Table.content?_reuse {Input Output : Type} {before after : Table Input Output}
    {entry : Entry Input Output} {position : Position} {generation : Nat}
    (found : before.entryAt position = some entry) (puts : before.Puts { entry with generation } after)
    (other : Position) : after.content? other = before.content? other := by
  rw [puts.content?]
  split
  · next here =>
      have stored : entry.position = position := Table.position_of_entryAt found
      rw [here, stored, Table.content?, found]
      rfl
  · rfl

/-- A sweep keeps what is stored at a position or drops it. -/
theorem Memo.Table.content?_sweep {Input Output : Type} {table : Table Input Output}
    (filed : table.Filed) (position : Position) :
    table.sweep.2.content? position = table.content? position ∨
      table.sweep.2.content? position = none := by
  rw [Table.content?, filed.entryAt_sweep, Table.content?]
  cases table.entryAt position with
  | none => exact .inl rfl
  | some entry =>
      rw [Option.filter_some]
      split
      · exact .inl rfl
      · exact .inr rfl

variable {σ : Type}

/-- The store of a pass holds what a store that was taken out held, except where callbacks were run. -/
structure Pass.Owns (taken : Store) (pass : Pass σ) : Prop where
  /-- The observations are filed. -/
  observations_filed : pass.store.observations.Filed
  /-- The expansions are filed. -/
  expansions_filed : pass.store.expansions.Filed
  /-- It holds the same data. -/
  observation (position : Position) : ⟨position, .data⟩ ∈ pass.calls ∨
    pass.store.observations.content? position = taken.observations.content? position
  /-- It holds the same expansions of described nodes. -/
  description (position : Position) : ⟨position, .description⟩ ∈ pass.calls ∨
    pass.store.expansions.content? position = taken.expansions.content? position
  /-- It holds the same expansions of other elements. -/
  adHoc_eq : pass.store.adHoc = taken.adHoc

/-- The discipline of a compilation that has taken out a store, whatever its callbacks do. -/
def Store.discipline (taken : Store) : Discipline σ where
  Valid := Pass.Owns taken
  Grows _ _ := True
  Input _ _ := True
  Datum _ _ _ _ := True
  Result _ _ := True
  refl _ := trivial
  trans _ _ := trivial
  input_grow _ _ := trivial
  datum_grow _ _ := trivial
  child _ _ := trivial
  observations_filed owns := owns.observations_filed
  expansions_filed owns := owns.expansions_filed
  grow owns _ :=
    ⟨owns.observations_filed, owns.expansions_filed, owns.observation, owns.description,
      owns.adHoc_eq⟩
  log _ owns :=
    { owns with
      observation := fun position =>
        (owns.observation position).imp_left (List.mem_append_left _)
      description := fun position =>
        (owns.description position).imp_left (List.mem_append_left _) }
  countObservations _ owns :=
    { owns with
      observations_filed := ⟨owns.observations_filed.distinct, owns.observations_filed.indexed⟩ }
  countExpansions _ owns :=
    { owns with
      expansions_filed := ⟨owns.expansions_filed.distinct, owns.expansions_filed.indexed⟩ }
  keepSubtree root owns :=
    { owns with
      observations_filed := owns.observations_filed.keepSubtree root
      expansions_filed := owns.expansions_filed.keepSubtree root }
  reuseData owns _ _ found _ puts :=
    ⟨{ owns with
        observations_filed := puts.filed
        observation := fun other =>
          (owns.observation other).imp_right (Table.content?_reuse found puts other).trans },
      trivial⟩
  storeData {_ position _ _ _ _ _ _} owns _ _ _ logged puts :=
    { owns with
      observations_filed := puts.filed
      observation := fun other => by
        by_cases here : other = position
        · exact .inl (here ▸ logged)
        · exact (owns.observation other).imp_right
            ((puts.content? other).trans (if_neg here)).trans }
  reuseExpansion owns _ _ _ found _ puts :=
    ⟨{ owns with
        expansions_filed := puts.filed
        description := fun other =>
          (owns.description other).imp_right (Table.content?_reuse found puts other).trans },
      trivial⟩
  storeExpansion {_ position _ _ _ _ _ _ _} owns _ _ _ _ logged puts :=
    { owns with
      expansions_filed := puts.filed
      description := fun other => by
        by_cases here : other = position
        · exact .inl (here ▸ logged)
        · exact (owns.description other).imp_right
            ((puts.content? other).trans (if_neg here)).trans }

namespace Engine

theorem follows_taken (engine : Engine σ) (taken : Store) : engine.Follows taken.discipline := by
  have runs {α : Type} (world : World σ) (outcome : EStateM.Result EngineError (World σ) α)
      {gives : World σ → α → Prop} (given : ∀ after result, gives after result) :
      (taken.discipline : Discipline σ).running.Runs world gives outcome := by
    cases outcome with
    | ok result after => exact .ok trivial trivial (given after result)
    | error error after => exact .excused trivial trivial trivial
  exact {
    bare := fun _ _ _ => trivial
    derive := fun _ _ _ => runs _ _ fun _ _ => trivial
    describe := fun _ _ _ _ => runs _ _ fun _ _ => ⟨trivial, fun _ _ => trivial⟩
    primitive := fun _ _ => trivial
    kept := fun _ _ _ _ => trivial }

section Restoring

variable [Digest]

/-- A compilation may sweep its store. -/
def Sweeps (engine : Engine σ) (root : Element) (world : World σ) : Prop :=
  engine.config.sweep = true ∧ ∃ parser after, engine.compile root world = .ok parser after

/-- A store holds what was stored before a compilation, except where the compilation ran callbacks
and for what it swept. -/
structure Restores (engine : Engine σ) (root : Element) (world : World σ) (store : Store) : Prop where
  /-- The observations are filed. -/
  observations_filed : store.observations.Filed
  /-- The expansions are filed. -/
  expansions_filed : store.expansions.Filed
  /-- It holds the same data. -/
  observation (position : Position) : ⟨position, .data⟩ ∈ engine.log root world ∨
    store.observations.content? position = world.store.observations.content? position ∨
    engine.Sweeps root world ∧ store.observations.content? position = none
  /-- It holds the same expansions of described nodes. -/
  description (position : Position) : ⟨position, .description⟩ ∈ engine.log root world ∨
    store.expansions.content? position = world.store.expansions.content? position ∨
    engine.Sweeps root world ∧ store.expansions.content? position = none
  /-- It holds the same expansions of other elements. -/
  adHoc : store.adHoc = world.store.adHoc ∨
    engine.Sweeps root world ∧ store.adHoc ⊆ world.store.adHoc

/-- Whatever callbacks do to the store of the world while a compilation has taken it out, and whether
the compilation fails or not, the store is then as it was, but for what the compilation itself computed
and swept. -/
theorem compile_restores (engine : Engine σ) (root : Element) {world : World σ}
    (observations_filed : world.store.observations.Filed)
    (expansions_filed : world.store.expansions.Filed) :
    engine.Restores root world (finalState (engine.compile root world)).store := by
  have opening : (world.store.discipline : Discipline σ).Valid (Pass.opening world) :=
    ⟨observations_filed.begin, expansions_filed.begin, fun _ => .inr rfl, fun _ => .inr rfl, rfl⟩
  obtain ⟨late, owns, ends, -⟩ := expand_follows (engine.follows_taken world.store) opening trivial
  rw [finalState_compile]
  rcases ends with ended | ⟨sweep, expansion, swept⟩
  · have log_eq : engine.log root world = late.calls := congrArg Pass.calls ended
    rw [ended]
    exact {
      observations_filed := owns.observations_filed
      expansions_filed := owns.expansions_filed
      observation := fun position => (owns.observation position).imp (log_eq ▸ ·) .inl
      description := fun position => (owns.description position).imp (log_eq ▸ ·) .inl
      adHoc := .inl owns.adHoc_eq }
  · have log_eq : engine.log root world = late.calls := by
      rw [log, swept]
      rfl
    have sweeps : engine.Sweeps root world :=
      ⟨sweep, _, _, by rw [compile_eq, swept]⟩
    rw [swept]
    exact {
      observations_filed := owns.observations_filed.sweep
      expansions_filed := owns.expansions_filed.sweep
      observation := fun position => by
        refine (owns.observation position).imp (log_eq ▸ ·) fun same => ?_
        exact (Table.content?_sweep owns.observations_filed position).imp (·.trans same)
          fun dropped => ⟨sweeps, dropped⟩
      description := fun position => by
        refine (owns.description position).imp (log_eq ▸ ·) fun same => ?_
        exact (Table.content?_sweep owns.expansions_filed position).imp (·.trans same)
          fun dropped => ⟨sweeps, dropped⟩
      adHoc := .inr ⟨sweeps, fun _ member => owns.adHoc_eq ▸ (List.mem_filter.mp member).1⟩ }

end Restoring

namespace Letter

/-- A type whose description does something else first. -/
def interlude : NodeType :=
  ⟨2, "Interlude"⟩

/-- An engine for letters with interludes that keeps everything it stores; the description of an
interlude does something else first. -/
def interrupted (during : Action Nat Fault Unit) : Engine Nat where
  vocabulary type :=
    if type = interlude then { describe := some fun _ => do during; pure (.literal 6 "meanwhile") }
    else greeter.vocabulary type
  processor := greeter.processor
  config := { sweep := false }

/-- A letter with an interlude. -/
def interruptedDraft : Element :=
  .sequence 7 [.literal 8 "Ann", .ofType 9 interlude]

/-- Compiles a greeting in the meantime. -/
def compileGreeting : Action Nat Fault Unit :=
  passingOn (greeter.compile greetingNode) >>= fun _ => pure ()

/-- Clears the store in the meantime. -/
def clearStore : Action Nat Fault Unit :=
  modify fun world => { world with store := world.store.clear }

/-- The world after a letter has been compiled. -/
def afterDraft : World Nat :=
  finalState (greeter.compile draft { store := .empty, ambient := 0 })

/-- Whether a compilation succeeds and leaves an expansion at a position. -/
private def stores (position : Position) (result : EStateM.Result EngineError (World Nat) (Parser Nat)) :
    Option Bool :=
  match result with
  | .ok _ after => some (after.store.expansions.content? position).isSome
  | .error _ _ => none

private theorem of_stores {position : Position} {stored : Bool}
    {result : EStateM.Result EngineError (World Nat) (Parser Nat)}
    (storing : stores position result = some stored) :
    ∃ parser after, result = .ok parser after ∧
      (after.store.expansions.content? position).isSome = stored := by
  cases result with
  | ok parser after => exact ⟨parser, after, rfl, Option.some.inj storing⟩
  | error error after => exact nomatch storing

private theorem greeting_stored :
    stores .root (greeter.compile greetingNode { store := .empty, ambient := 0 }) = some true := by
  decide +kernel

private theorem greeting_lost :
    stores .root ((interrupted compileGreeting).compile interruptedDraft
      { store := .empty, ambient := 0 }) = some false := by
  decide +kernel

private theorem draft_stored :
    (afterDraft.store.expansions.content? (Position.root.child 0)).isSome = true := by
  decide +kernel

private theorem draft_kept :
    stores (Position.root.child 0) ((interrupted clearStore).compile interruptedDraft afterDraft) =
      some true := by
  decide +kernel

private theorem log_interrupted :
    ⟨Position.root.child 0, .description⟩ ∉
      (interrupted clearStore).log interruptedDraft afterDraft := by
  decide +kernel

end Letter

open Letter in
/-- While a letter is compiled, a description compiles a greeting, whose expansion is stored; when the
letter is done, the expansion is lost, although nothing is swept.  And what was stored before is there
again, although a description cleared the store in the meantime. -/
theorem compile_undoes_interruptions :
    (∃ parser after, greeter.compile greetingNode { store := .empty, ambient := 0 } =
        .ok parser after ∧ (after.store.expansions.content? .root).isSome = true) ∧
      (∃ parser after, (interrupted compileGreeting).compile interruptedDraft
          { store := .empty, ambient := 0 } = .ok parser after ∧
        (after.store.expansions.content? .root).isSome = false) ∧
      ∃ parser after, (interrupted clearStore).compile interruptedDraft afterDraft =
          .ok parser after ∧
        (after.store.expansions.content? (Position.root.child 0)).isSome = true :=
  ⟨of_stores greeting_stored, of_stores greeting_lost, of_stores draft_kept⟩

open Letter in
/-- The greeting of the letter before is stored as it was, whatever happened in the meantime. -/
theorem compile_restores_letter :
    afterDraft.store.observations.Filed ∧ afterDraft.store.expansions.Filed ∧
      (afterDraft.store.expansions.content? (Position.root.child 0)).isSome = true ∧
      (finalState ((interrupted clearStore).compile interruptedDraft
          afterDraft)).store.expansions.content? (Position.root.child 0) =
        afterDraft.store.expansions.content? (Position.root.child 0) := by
  have drafted : greeter.Restores draft { store := .empty, ambient := 0 } afterDraft.store :=
    compile_restores greeter draft (Table.filed_empty _) (Table.filed_empty _)
  have restored : (interrupted clearStore).Restores interruptedDraft afterDraft _ :=
    compile_restores (interrupted clearStore) interruptedDraft drafted.observations_filed
      drafted.expansions_filed
  refine ⟨drafted.observations_filed, drafted.expansions_filed, draft_stored, ?_⟩
  rcases restored.description (Position.root.child 0) with logged | same | ⟨⟨sweep, -⟩, -⟩
  · exact absurd logged log_interrupted
  · exact same
  · exact nomatch sweep

end Engine

end Phrasing
