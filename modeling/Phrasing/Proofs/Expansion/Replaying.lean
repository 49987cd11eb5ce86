import Phrasing.Proofs.Expansion.Increments
import Phrasing.Proofs.Expansion.Settling

/-!
# Compiling again

With a store in which its expansion is settled, an element is expanded by lookups alone: no
callbacks are run, nothing is stored, and the expansion is the one that is settled.  A compilation
settles the expansion of its root, and a sweep keeps it settled, so compiling the same root again
gives the same parser for nothing.
-/

namespace Phrasing

open Memo Relation

variable {σ : Type}

/-- A pass has run no callbacks and stored nothing. -/
structure Pass.Idles (before after : Pass σ) : Prop where
  /-- The world has not changed. -/
  world : after.world = before.world
  /-- No callbacks have been run. -/
  calls : after.calls = before.calls
  /-- No observation has been stored. -/
  observations : after.store.observations.stats.stores = before.store.observations.stats.stores
  /-- No expansion has been stored. -/
  expansions : after.store.expansions.stats.stores = before.store.expansions.stats.stores

/-- A pass has looked things up and done nothing else. -/
structure Pass.Replays (before after : Pass σ) : Prop extends Idles before after where
  /-- The store answers what it answered. -/
  transfers : before.store.Transfers (fun _ => True) False after.store False

/-- The regime of lookups in filed tables, which only overfull tables mislead. -/
def Pass.replaying : Regime (Pass σ) where
  Valid pass := pass.store.observations.Filed ∧ pass.store.expansions.Filed
  Leads := Pass.Replays
  Excuses error pass :=
    (∃ table position found, error = .table (.misfiled table position found)) ∧ pass.store.Overfull
  refl _ := ⟨⟨rfl, rfl, rfl, rfl⟩, ⟨.refl _ _ _, .refl _ _ _⟩⟩
  trans earlier later :=
    ⟨⟨later.world.trans earlier.world, later.calls.trans earlier.calls,
        later.observations.trans earlier.observations,
        later.expansions.trans earlier.expansions⟩,
      ⟨earlier.transfers.observations.trans later.transfers.observations,
        earlier.transfers.expansions.trans later.transfers.expansions⟩⟩

namespace Engine

variable [Digest] {engine : Engine σ}

/-- Data that are settled are looked up. -/
theorem memoizedData_replays {position : Position} {type : NodeType} {element : Element}
    {data : Option Value} {pass : Pass σ} (valid : Pass.replaying.Valid pass)
    (settled : engine.SettledData pass.store False position type element data) :
    Pass.replaying.Runs pass (fun _ result => result = data)
      (engine.memoizedData position type element pass) := by
  rw [SettledData] at settled
  rw [memoizedData]
  cases derivation : engine.processor.derivation? engine.vocabulary type with
  | none =>
      rw [derivation] at settled
      exact .pure valid settled.symm
  | some derive =>
      rw [derivation] at settled
      obtain ⟨value, rfl, answers⟩ := settled
      simp only [recallData]
      rcases answers.lookup valid.1 with ⟨observations, looked, filed, transfers, stores⟩ |
        ⟨overfull, found, misled⟩
      · rw [bind_of_ok (Pass.onObservations_ok looked)]
        exact .ok ⟨filed, valid.2⟩ ⟨⟨rfl, rfl, stores, rfl⟩, ⟨transfers, .refl _ _ _⟩⟩ rfl
      · rw [bind_of_error (Pass.onObservations_error misled)]
        exact .excused valid (Pass.replaying.refl pass) ⟨⟨_, _, found, rfl⟩, .inl overfull⟩

/-- An expansion of a described node that is settled is looked up. -/
theorem recallExpansion_replays {position : Position} {element : Element} {data : Option Value}
    {expansion : Expansion} {compute : EStateM EngineError (Pass σ) Expansion} {pass : Pass σ}
    (valid : Pass.replaying.Valid pass)
    (answers : pass.store.expansions.Answers False position
      (DescribeInputs.ofElement element data).fingerprint (DescribeInputs.ofElement element data)
      expansion) :
    Pass.replaying.Runs pass (fun _ result => result = expansion)
      (recallExpansion position element data compute pass) := by
  rw [recallExpansion]
  rcases answers.lookup valid.2 with ⟨expansions, looked, filed, transfers, stores⟩ |
    ⟨overfull, found, misled⟩
  · rw [bind_of_ok (Pass.onExpansions_ok looked)]
    refine .ok ⟨valid.1.keepSubtree _, filed.keepSubtree _⟩ ⟨⟨rfl, rfl, rfl, stores⟩, ⟨?_, ?_⟩⟩ rfl
    · exact Table.transfers_keepSubtree _ _ _ position.expansion
    · exact transfers.trans (Table.transfers_keepSubtree _ _ _ position.expansion)
  · rw [bind_of_error (Pass.onExpansions_error misled)]
    exact .excused valid (Pass.replaying.refl pass) ⟨⟨_, _, found, rfl⟩, .inr overfull⟩

/-- Settled expansions are looked up one after another. -/
theorem memoizedEach_replays {room : Nat} {root : Position}
    (replays : ∀ {index element expansion} {pass : Pass σ}, Pass.replaying.Valid pass →
      engine.Settled pass.store False room (root.child index) element expansion →
      Pass.replaying.Runs pass (fun _ result => result = expansion)
        (engine.memoizedAt room (root.child index) element pass))
    {entries : List (Element × Nat)} {expansions : List Expansion} {pass : Pass σ}
    (valid : Pass.replaying.Valid pass)
    (settled : List.Forall₂ (fun entry expansion =>
      engine.Settled pass.store False room (root.child entry.2) entry.1 expansion)
      entries expansions) :
    Pass.replaying.Runs pass (fun _ results => results = expansions)
      (entries.mapM (fun entry => engine.memoizedAt room (root.child entry.2) entry.1) pass) := by
  induction entries generalizing expansions pass with
  | nil =>
      cases settled
      exact .pure valid rfl
  | cons entry rest induction =>
      cases settled with
      | cons first others =>
          rw [List.mapM_cons]
          refine .bind (replays valid first) ?_
          rintro expansion middle middle_valid leads rfl
          have others_settled := others.imp fun _ _ settled =>
            settled.transfer leads.transfers fun _ _ => trivial
          refine .bind (induction middle_valid others_settled) ?_
          rintro results after after_valid - rfl
          exact .pure after_valid rfl

/-- A settled expansion is looked up. -/
theorem memoizedAt_replays {room : Nat} {position : Position} {element : Element}
    {expansion : Expansion} {pass : Pass σ} (valid : Pass.replaying.Valid pass)
    (settled : engine.Settled pass.store False room position element expansion) :
    Pass.replaying.Runs pass (fun _ result => result = expansion)
      (engine.memoizedAt room position element pass) := by
  induction room generalizing position element expansion pass with
  | zero => exact settled.elim
  | succ room induction =>
      rw [Settled] at settled
      rw [memoizedAt]
      cases kind : element.kind with
      | primitive builtIn =>
          rw [kind] at settled
          obtain ⟨children, rfl, each⟩ := settled
          refine .bind (memoizedEach_replays induction valid each) ?_
          rintro results after after_valid - rfl
          exact .pure after_valid rfl
      | custom type =>
          rw [kind] at settled
          obtain ⟨data, data_settled, settled⟩ := settled
          refine .bind (memoizedData_replays valid data_settled) ?_
          rintro _ middle middle_valid leads rfl
          cases present : (engine.vocabulary type).describe with
          | none =>
              rw [present] at settled
              obtain ⟨children, rfl, each⟩ := settled
              have each_then := each.imp fun _ _ settled =>
                settled.transfer leads.transfers fun _ _ => trivial
              refine .bind (memoizedEach_replays induction middle_valid each_then) ?_
              rintro results after after_valid - rfl
              exact .pure after_valid rfl
          | some describe =>
              rw [present] at settled
              exact recallExpansion_replays middle_valid
                (leads.transfers.expansions.answers trivial settled)

/-- A compilation that remembers settles what it gives, also if it sweeps. -/
theorem expand_settles (remember : engine.config.remember = true) {root : Element}
    {before after : Pass σ} {expansion : Expansion} (plain : root.Plain)
    (kept : Standard.lax.WellKept before.world.ambient before.store)
    (run : engine.expand root before = .ok expansion after) (defined : expansion.Defined) :
    Standard.lax.WellKept after.world.ambient after.store ∧
      engine.Settled after.store True (engine.config.maxDepth + 1) .root root expansion := by
  rw [expand, if_pos remember] at run
  obtain ⟨result, late, expanding, run⟩ := bind_eq_ok.mp run
  obtain ⟨late_kept, -⟩ := memoizedAt_changes rfl kept expanding
  by_cases sweep : engine.config.sweep = true
  · simp only [sweep, if_true] at run
    obtain ⟨rfl, rfl⟩ := EStateM.Result.ok.inj run
    have settled := memoizedAt_settles rfl plain kept expanding defined
    exact ⟨late_kept.sweep, settled.transfer
      ⟨late_kept.observations.filed.transfers_sweep _, late_kept.expansions.filed.transfers_sweep _⟩
      fun _ below => below⟩
  · simp only [sweep] at run
    obtain ⟨rfl, rfl⟩ := EStateM.Result.ok.inj run
    exact ⟨late_kept, memoizedAt_settles rfl plain kept expanding defined⟩

/-- A compilation with a store in which the expansion is settled gives it and does nothing else. -/
theorem expand_replays (remember : engine.config.remember = true) {root : Element}
    {expansion : Expansion} {pass : Pass σ} (valid : Pass.replaying.Valid pass)
    (settled : engine.Settled pass.store False (engine.config.maxDepth + 1) .root root expansion) :
    Pass.Idles pass (finalState (engine.expand root pass)) ∧
      (outcomeOf (engine.expand root pass) = .ok expansion ∨
        ∃ table position found last,
          engine.expand root pass = .error (.table (.misfiled table position found)) last ∧
            last.store.Overfull) := by
  have replays := memoizedAt_replays valid settled
  rw [expand, if_pos remember, expandMemoized]
  cases expanding : engine.memoizedAt (engine.config.maxDepth + 1) .root root pass with
  | ok result late =>
      rw [expanding] at replays
      obtain ⟨-, leads, rfl⟩ := replays.of_ok
      rw [bind_of_ok expanding]
      split
      · exact ⟨⟨leads.world, leads.calls, leads.observations, leads.expansions⟩, .inl rfl⟩
      · exact ⟨leads.toIdles, .inl rfl⟩
  | error error late =>
      rw [expanding] at replays
      rw [bind_of_error expanding]
      cases replays with
      | excused _ leads excuse =>
          obtain ⟨⟨table, position, found, rfl⟩, overfull⟩ := excuse
          exact ⟨leads.toIdles, .inr ⟨table, position, found, late, rfl, overfull⟩⟩

/-- After any history, compiling a root again with the engine that has just compiled it gives the same
parser, runs no callbacks and stores nothing.  The one exception is a table of more than `2 ^ 32`
entries, whose addresses may mislead a lookup. -/
theorem compile_again (engine : Engine σ) {start world after : World σ}
    (empty : start.store = .empty)
    (history : ReflTransGen (Proceeds fun _ _ _ => True) start world)
    (remember : engine.config.remember = true) {root : Element} (plain : root.Plain)
    {parser : Parser σ} (run : engine.compile root world = .ok parser after)
    (defined : parser.root.Defined) :
    engine.log root after = [] ∧
      (finalState (engine.compile root after)).ambient = after.ambient ∧
      (finalState (engine.compile root after)).store.observations.stats.stores =
        after.store.observations.stats.stores ∧
      (finalState (engine.compile root after)).store.expansions.stats.stores =
        after.store.expansions.stats.stores ∧
      (outcomeOf (engine.compile root after) = .ok parser ∨
        ∃ table position found last,
          engine.compile root after = .error (.table (.misfiled table position found)) last ∧
            last.store.Overfull) := by
  have kept : Standard.lax.WellKept world.ambient world.store :=
    wellKept_of_history (fun engine _ _ _ _ => engine.upholds_lax) history empty
  obtain ⟨pass, expanding, rfl⟩ := of_compile_ok run
  obtain ⟨pass_kept, settled⟩ := expand_settles remember plain kept.begin expanding defined
  have begun : engine.Settled (Pass.opening pass.closing).store False (engine.config.maxDepth + 1)
      .root root parser.root :=
    settled.transfer ⟨Table.transfers_begin _ _ _, Table.transfers_begin _ _ _⟩ fun _ below => below
  obtain ⟨idles, outcome⟩ := expand_replays remember
    ⟨pass_kept.observations.filed.begin, pass_kept.expansions.filed.begin⟩ begun
  rw [finalState_compile]
  have ambient_eq := congrArg World.ambient idles.world
  refine ⟨idles.calls, ambient_eq, idles.observations, idles.expansions, ?_⟩
  rw [compile_eq]
  rcases outcome with same | ⟨table, position, found, last, failed, overfull⟩
  · left
    cases again : engine.expand root (Pass.opening pass.closing) with
    | error error last => rw [again] at same; cases same
    | ok expansion last =>
        rw [again] at same
        obtain rfl := Except.ok.inj same
        obtain rfl := engine_of_compile_ok run
        rfl
  · right
    exact ⟨table, position, found, last.closing, by rw [failed], overfull⟩

end Engine

namespace Engine.Letter

/-- A letter was compiled, and the store was cleared. -/
private def cleared : World Nat :=
  let world := finalState (greeter.compile edited { store := .empty, ambient := 0 })
  { world with store := world.store.clear }

/-- The expansion of the draft, with the second greeting that was described. -/
private def expandedDraft : Expansion :=
  .structural draft none
    [.described greetingNode none (.structural (.literal 11 "hello") none []),
      .structural (.literal 1 "Ann") none []]

private theorem compile_cleared :
    ∃ after, greeter.compile draft cleared = .ok { engine := greeter, root := expandedDraft } after :=
  ⟨_, rfl⟩

private theorem compile_cleared_again_isOk :
    (outcomeOf (greeter.compile draft (finalState (greeter.compile draft cleared)))).isOk = true := by
  decide +kernel

private theorem plain_draft : draft.Plain := by
  have childless : 0 < UInt32.size := by decide
  have two_children : 2 < UInt32.size := by decide
  exact ⟨two_children, trivial, ⟨childless, trivial, trivial⟩,
    ⟨childless, ⟨by simp [Value.Every], trivial⟩, trivial⟩, trivial⟩

private theorem defined_expandedDraft : expandedDraft.Defined := by
  have literal (id : NodeId) (text : String) :
      (Element.literal id text).Every (fun number => number.toBits ≠ Number.undefinedBits)
        fun _ => True :=
    ⟨trivial, ⟨by simp [Value.Every], trivial⟩, trivial⟩
  have greeting : greetingNode.Every (fun number => number.toBits ≠ Number.undefinedBits)
      fun _ => True :=
    ⟨trivial, trivial, trivial⟩
  exact ⟨⟨trivial, trivial, greeting, literal 1 "Ann", trivial⟩, nofun,
    ⟨greeting, nofun, literal 11 "hello", nofun, trivial⟩, ⟨literal 1 "Ann", nofun, trivial⟩, trivial⟩

end Engine.Letter

open Engine Engine.Letter in
/-- A letter that has been compiled is compiled again without a greeting being described, and gives the
same parser. -/
theorem Engine.compile_again_letter :
    ∃ world parser after,
      ReflTransGen (Proceeds fun _ _ _ => True) { store := .empty, ambient := 0 } world ∧
        greeter.compile draft world = .ok parser after ∧ greeter.log draft after = [] ∧
        outcomeOf (greeter.compile draft after) = .ok parser := by
  have history : ReflTransGen (Proceeds fun _ _ _ => True) { store := .empty, ambient := 0 }
      cleared :=
    .tail (.single (.compile greeter edited trivial)) .clear
  obtain ⟨after, run⟩ := compile_cleared
  have again := compile_cleared_again_isOk
  rw [run] at again
  obtain ⟨other, last, run_again⟩ := eq_ok_of_isOk again
  obtain ⟨idle, -, -, -, same | ⟨_, _, _, _, failed, _⟩⟩ :=
    compile_again greeter rfl history rfl plain_draft run defined_expandedDraft
  · exact ⟨cleared, _, after, history, run, idle, same⟩
  · exact nomatch run_again.symm.trans failed

end Phrasing
