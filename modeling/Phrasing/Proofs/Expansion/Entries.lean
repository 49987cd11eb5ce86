import Phrasing.Proofs.Expansion.Passes

/-!
# Entries of a store

What holds of every entry of a store goes on to hold under the operations on the store, as long as it
holds of the entries that are put in.
-/

namespace Phrasing.Store

open Memo

/-- Both tables are filed, and something holds of the inputs and the output of every entry. -/
structure Every (observed : Position → ObserveInputs → Value → Prop)
    (described : Position → DescribeInputs → Expansion → Prop) (store : Store) : Prop where
  /-- The observations are filed. -/
  observations_filed : store.observations.Filed
  /-- The expansions are filed. -/
  expansions_filed : store.expansions.Filed
  /-- It holds of stored data. -/
  observation {position : Position} {entry : Entry ObserveInputs Value} :
    store.observations.entryAt position = some entry →
    observed position entry.inputs entry.output
  /-- It holds of stored expansions. -/
  description {position : Position} {entry : Entry DescribeInputs Expansion} :
    store.expansions.entryAt position = some entry →
    described position entry.inputs entry.output

variable {observed other_observed : Position → ObserveInputs → Value → Prop}
  {described other_described : Position → DescribeInputs → Expansion → Prop} {store : Store}

theorem every_empty : empty.Every observed described where
  observations_filed := Table.filed_empty _
  expansions_filed := Table.filed_empty _
  observation found := nomatch found
  description found := nomatch found

theorem every_clear : store.clear.Every observed described where
  observations_filed := Table.filed_clear _
  expansions_filed := Table.filed_clear _
  observation found := nomatch found
  description found := nomatch found

namespace Every

theorem imp (every : store.Every observed described)
    (weaker_observed : ∀ position inputs output,
      observed position inputs output → other_observed position inputs output)
    (weaker_described : ∀ position inputs output,
      described position inputs output → other_described position inputs output) :
    store.Every other_observed other_described where
  observations_filed := every.observations_filed
  expansions_filed := every.expansions_filed
  observation found := weaker_observed _ _ _ (every.observation found)
  description found := weaker_described _ _ _ (every.description found)

theorem begin (every : store.Every observed described) : store.begin.Every observed described where
  observations_filed := every.observations_filed.begin
  expansions_filed := every.expansions_filed.begin
  observation := every.observation
  description := every.description

theorem sweep (every : store.Every observed described) : store.sweep.2.Every observed described where
  observations_filed := every.observations_filed.sweep
  expansions_filed := every.expansions_filed.sweep
  observation {position entry} found := by
    have kept : (store.observations.entryAt position).filter store.observations.isLive =
        some entry := (every.observations_filed.entryAt_sweep position).symm.trans found
    exact every.observation (Option.filter_eq_some_iff.mp kept).1
  description {position entry} found := by
    have kept : (store.expansions.entryAt position).filter store.expansions.isLive =
        some entry := (every.expansions_filed.entryAt_sweep position).symm.trans found
    exact every.description (Option.filter_eq_some_iff.mp kept).1

theorem keepSubtree (every : store.Every observed described) (root : Position) :
    (store.keepSubtree root).Every observed described where
  observations_filed := every.observations_filed.keepSubtree root
  expansions_filed := every.expansions_filed.keepSubtree root
  observation := every.observation
  description := every.description

theorem countObservations (every : store.Every observed described) (stats : Stats) :
    Every observed described
      { store with observations := { store.observations with stats } } :=
  ⟨⟨every.observations_filed.distinct, every.observations_filed.indexed⟩, every.expansions_filed,
    every.observation, every.description⟩

theorem countExpansions (every : store.Every observed described) (stats : Stats) :
    Every observed described { store with expansions := { store.expansions with stats } } :=
  ⟨every.observations_filed, ⟨every.expansions_filed.distinct, every.expansions_filed.indexed⟩,
    every.observation, every.description⟩

theorem putObservation (every : store.Every observed described) {entry : Entry ObserveInputs Value}
    {observations : Table ObserveInputs Value} (puts : store.observations.Puts entry observations)
    (holds : observed entry.position entry.inputs entry.output) :
    Every observed described { store with observations } where
  observations_filed := puts.filed
  expansions_filed := every.expansions_filed
  observation {position} _ found := by
    rw [puts.entryAt] at found
    split at found
    · next here =>
        obtain rfl := Option.some.inj found
        exact here ▸ holds
    · exact every.observation found
  description := every.description

theorem putExpansion (every : store.Every observed described)
    {entry : Entry DescribeInputs Expansion} {expansions : Table DescribeInputs Expansion}
    (puts : store.expansions.Puts entry expansions)
    (holds : described entry.position entry.inputs entry.output) :
    Every observed described { store with expansions } where
  observations_filed := every.observations_filed
  expansions_filed := puts.filed
  observation := every.observation
  description {position} _ found := by
    rw [puts.entryAt] at found
    split at found
    · next here =>
        obtain rfl := Option.some.inj found
        exact here ▸ holds
    · exact every.description found

end Every

end Phrasing.Store
