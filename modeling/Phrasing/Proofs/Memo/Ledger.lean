import Mathlib.Data.Finset.Card
import Phrasing.Proofs.Memo.Keeping

/-!
# Ledgers

A ledger is what a memo table stands for: a finite map from positions to records, with a count of
generations and the positions that the current generation keeps as a whole.  It has no addresses, no
index and no order.  A table represents a ledger when it is filed and its entries are the records; each
operation on the table then does to the entries what the ledger says.
-/

namespace Phrasing.Memo

/-- What is remembered for a position. -/
structure Record (Input Output : Type) where
  /-- The fingerprint of the inputs. -/
  fingerprint : ContentHash
  /-- The inputs. -/
  inputs : Input
  /-- The output. -/
  output : Output
  /-- The generation in which the record was last stored or reused. -/
  generation : Nat

/-- The entry for a record at a position. -/
def Record.at {Input Output : Type} (record : Record Input Output) (position : Position) :
    Entry Input Output :=
  { position
    fingerprint := record.fingerprint
    inputs := record.inputs
    output := record.output
    generation := record.generation }

/-- A finite map from positions to records. -/
structure Ledger (Input Output : Type) where
  /-- The record for a position. -/
  record? : Position → Option (Record Input Output)
  /-- The positions that have a record. -/
  occupied : Finset Position
  /-- A position is occupied when it has a record. -/
  mem_occupied (position : Position) : position ∈ occupied ↔ (record? position).isSome = true
  /-- The current generation. -/
  generation : Nat
  /-- The positions kept as a whole in the current generation. -/
  kept : Finset Position

namespace Ledger

variable {Input Output : Type}

/-- The ledger without records. -/
def empty : Ledger Input Output where
  record? _ := none
  occupied := ∅
  mem_occupied := by simp
  generation := 0
  kept := ∅

/-- The number of records. -/
def size (ledger : Ledger Input Output) : Nat :=
  ledger.occupied.card

/-- The ledger with its next generation begun. -/
def begin (ledger : Ledger Input Output) : Ledger Input Output :=
  { ledger with generation := ledger.generation + 1, kept := ∅ }

/-- The ledger with the record for one position set. -/
def put (ledger : Ledger Input Output) (position : Position) (record : Record Input Output) :
    Ledger Input Output :=
  { ledger with
    record? := fun other => if other = position then some record else ledger.record? other
    occupied := insert position ledger.occupied
    mem_occupied := by
      intro other
      rw [Finset.mem_insert, ledger.mem_occupied]
      by_cases here : other = position
      · simp [here]
      · simp [here] }

/-- Looks up the output for the current inputs; a hit stamps the record with this generation. -/
def lookup [BEq Input] (ledger : Ledger Input Output) (position : Position)
    (fingerprint : ContentHash) (inputs : Input) : Lookup Output × Ledger Input Output :=
  match ledger.record? position with
  | none => (.vacant, ledger)
  | some record =>
      if record.fingerprint = fingerprint ∧ (record.inputs == inputs) = true then
        (.hit record.output, ledger.put position { record with generation := ledger.generation })
      else (.stale, ledger)

/-- Stores an output, whatever there was at the position. -/
def store (ledger : Ledger Input Output) (position : Position) (fingerprint : ContentHash)
    (inputs : Input) (output : Output) : Ledger Input Output :=
  ledger.put position { fingerprint, inputs, output, generation := ledger.generation }

/-- Keeps everything at or below a position in this generation. -/
def keepSubtree (ledger : Ledger Input Output) (root : Position) : Ledger Input Output :=
  { ledger with kept := insert root ledger.kept }

/-- A record outlives a sweep when it has the stamp of this generation or is kept. -/
def outlives (ledger : Ledger Input Output) (position : Position) (record : Record Input Output) :
    Bool :=
  record.generation = ledger.generation ∨ ∃ root ∈ ledger.kept, position.startsWith root = true

/-- Removes the records that do not outlive a sweep, and tells how many. -/
def sweep (ledger : Ledger Input Output) : Nat × Ledger Input Output :=
  let record? := fun position => (ledger.record? position).filter (ledger.outlives position)
  let survivors := ledger.occupied.filter fun position => (record? position).isSome
  ((ledger.occupied \ survivors).card,
    { ledger with
      record?
      occupied := survivors
      mem_occupied := by
        intro position
        rw [Finset.mem_filter, ledger.mem_occupied]
        refine and_iff_right_of_imp fun outlived => ?_
        obtain ⟨record, found⟩ := Option.isSome_iff_exists.mp outlived
        exact Option.isSome_iff_exists.mpr ⟨record, (Option.filter_eq_some_iff.mp found).1⟩ })

/-- Removes every record. -/
def clear (ledger : Ledger Input Output) : Ledger Input Output :=
  { ledger with record? := fun _ => none, occupied := ∅, mem_occupied := by simp, kept := ∅ }

theorem record?_put (ledger : Ledger Input Output) (position other : Position)
    (record : Record Input Output) : (ledger.put position record).record? other =
      if other = position then some record else ledger.record? other :=
  rfl

theorem size_put_le (ledger : Ledger Input Output) (position : Position)
    (record : Record Input Output) : (ledger.put position record).size ≤ ledger.size + 1 :=
  Finset.card_insert_le position ledger.occupied

theorem size_sweep_le (ledger : Ledger Input Output) : ledger.sweep.2.size ≤ ledger.size :=
  Finset.card_filter_le _ _

theorem size_lookup_le [BEq Input] (ledger : Ledger Input Output) (position : Position)
    (fingerprint : ContentHash) (inputs : Input) :
    (ledger.lookup position fingerprint inputs).2.size ≤ ledger.size + 1 := by
  rw [lookup]
  cases ledger.record? position with
  | none => exact Nat.le_succ _
  | some record =>
      dsimp only
      split
      · exact ledger.size_put_le position _
      · exact Nat.le_succ _

end Ledger

/-- A table is filed and holds the records of a ledger. -/
structure Table.Represents {Input Output : Type} (table : Table Input Output)
    (ledger : Ledger Input Output) : Prop where
  /-- Every entry is where the index says, at a position of its own. -/
  filed : table.Filed
  /-- The entries are the records. -/
  entryAt (position : Position) :
    table.entryAt position = (ledger.record? position).map fun record => record.at position
  /-- The generation is the same. -/
  generation : table.generation = ledger.generation
  /-- The same positions are kept as a whole. -/
  liveRoots (root : Position) : root ∈ table.liveRoots ↔ root ∈ ledger.kept

namespace Table.Represents

variable {Input Output : Type} {table after : Table Input Output} {ledger : Ledger Input Output}

theorem mem_occupied (represents : table.Represents ledger) (position : Position) :
    position ∈ ledger.occupied ↔ (table.entryAt position).isSome = true := by
  rw [ledger.mem_occupied, represents.entryAt, Option.isSome_map]

theorem size_eq (represents : table.Represents ledger) : table.size = ledger.size :=
  represents.filed.size_eq_card represents.mem_occupied

theorem contains_eq (represents : table.Represents ledger) (position : Position) :
    table.contains position = (ledger.record? position).isSome := by
  rw [represents.filed.contains_eq_isSome, represents.entryAt, Option.isSome_map]

theorem get?_eq (represents : table.Represents ledger) (few : ledger.size < UInt32.size)
    (position : Position) :
    table.get? position = (ledger.record? position).map fun record => record.at position := by
  have addressable := addressable_of_size_le (represents.size_eq ▸ few.le) position
  rw [represents.filed.get?_eq_entryAt addressable, represents.entryAt]

theorem empty (name : String) : (Table.empty name : Table Input Output).Represents .empty where
  filed := filed_empty name
  entryAt _ := rfl
  generation := rfl
  liveRoots root := by simp [Table.empty, Ledger.empty]

theorem begin (represents : table.Represents ledger) : table.begin.Represents ledger.begin where
  filed := represents.filed.begin
  entryAt := represents.entryAt
  generation := congrArg (· + 1) represents.generation
  liveRoots root := by simp [Table.begin, Ledger.begin]

theorem keepSubtree (represents : table.Represents ledger) (root : Position) :
    (table.keepSubtree root).Represents (ledger.keepSubtree root) where
  filed := represents.filed.keepSubtree root
  entryAt := represents.entryAt
  generation := represents.generation
  liveRoots other := by
    simp [Table.keepSubtree, Ledger.keepSubtree, represents.liveRoots]

theorem clear (represents : table.Represents ledger) : table.clear.Represents ledger.clear where
  filed := filed_clear table
  entryAt _ := rfl
  generation := represents.generation
  liveRoots root := by simp [Table.clear, Ledger.clear]

theorem count (represents : table.Represents ledger) (stats : Stats) :
    { table with stats }.Represents ledger :=
  ⟨⟨represents.filed.distinct, represents.filed.indexed⟩, represents.entryAt, represents.generation,
    represents.liveRoots⟩

theorem put (represents : table.Represents ledger) {position : Position}
    {record : Record Input Output} (puts : Puts table (record.at position) after) :
    after.Represents (ledger.put position record) where
  filed := puts.filed
  entryAt other := by
    rw [puts.entryAt, represents.entryAt, Ledger.record?_put]
    change (if other = position then some (record.at position) else _) = _
    split
    · next here => rw [here, Option.map_some]
    · rfl
  generation := puts.generation.trans represents.generation
  liveRoots root := puts.liveRoots ▸ represents.liveRoots root

/-- A lookup has the outcome that the ledger gives, and does not fail. -/
theorem lookup [BEq Input] (represents : table.Represents ledger)
    (few : ledger.size < UInt32.size) (position : Position) (fingerprint : ContentHash)
    (inputs : Input) :
    ∃ after, table.lookup position fingerprint inputs =
        .ok ((ledger.lookup position fingerprint inputs).1, after) ∧
      after.Represents (ledger.lookup position fingerprint inputs).2 := by
  have entryAt_eq := represents.entryAt position
  rw [Ledger.lookup]
  cases found : ledger.record? position with
  | none =>
      rw [found] at entryAt_eq
      exact ⟨_, represents.filed.lookup_of_vacant entryAt_eq fingerprint inputs, represents.count _⟩
  | some record =>
      rw [found, Option.map_some] at entryAt_eq
      have looked := represents.filed.looked position fingerprint inputs
      have present (outcome : Table Input Output) :
          table.lookup position fingerprint inputs ≠ .ok (.vacant, outcome) :=
        represents.filed.lookup_ne_vacant entryAt_eq
      generalize table.lookup position fingerprint inputs = outcome at looked present
      dsimp only
      cases looked with
      | @hit entry after found_entry fingerprint_eq same puts =>
          obtain rfl := Option.some.inj (entryAt_eq.symm.trans found_entry)
          rw [represents.generation] at puts
          rw [if_pos ⟨fingerprint_eq, same⟩]
          exact ⟨after, rfl, represents.put puts⟩
      | missed outcome_eq _ apart =>
          have unlike : ¬ (record.fingerprint = fingerprint ∧ (record.inputs == inputs) = true) := by
            rintro ⟨fingerprint_eq, same⟩
            exact absurd (apart _ entryAt_eq fingerprint_eq) (Bool.not_eq_false _ ▸ same)
          rw [if_neg unlike]
          rcases outcome_eq with rfl | rfl
          · exact ⟨_, rfl, represents.count _⟩
          · exact absurd rfl (present _)
      | misfiled overfull =>
          rw [Overfull, represents.size_eq] at overfull
          omega

/-- A store sets the record for its position, and does not fail. -/
theorem store (represents : table.Represents ledger) (few : ledger.size < UInt32.size)
    (position : Position) (fingerprint : ContentHash) (inputs : Input) (output : Output) :
    ∃ id after, table.store position fingerprint inputs output = .ok (id, after) ∧
      after.Represents (ledger.store position fingerprint inputs output) := by
  have addressable := addressable_of_size_le (represents.size_eq ▸ few.le) position
  obtain ⟨id, after, stored, puts⟩ :=
    represents.filed.store_ok addressable fingerprint inputs output
  rw [represents.generation] at puts
  exact ⟨id, after, stored, represents.put puts⟩

theorem isLive_at (represents : table.Represents ledger) (record : Record Input Output)
    (position : Position) : table.isLive (record.at position) = ledger.outlives position record := by
  rw [Bool.eq_iff_iff, isLive_iff, Ledger.outlives, decide_eq_true_eq, represents.generation]
  simp only [represents.liveRoots]
  rfl

/-- A sweep removes the records that the ledger gives up, and tells how many they are. -/
theorem sweep (represents : table.Represents ledger) :
    table.sweep.1 = ledger.sweep.1 ∧ table.sweep.2.Represents ledger.sweep.2 := by
  have after : table.sweep.2.Represents ledger.sweep.2 := {
    filed := represents.filed.sweep
    entryAt := by
      intro position
      rw [represents.filed.entryAt_sweep, represents.entryAt, Option.filter_map]
      simp only [Ledger.sweep]
      congr 1
      refine congrArg (Option.filter · _) (funext fun record => ?_)
      exact represents.isLive_at record position
    generation := represents.generation
    liveRoots := represents.liveRoots }
  refine ⟨?_, after⟩
  have survivors_subset : ledger.sweep.2.occupied ⊆ ledger.occupied := Finset.filter_subset _ _
  calc table.sweep.1 = table.size - table.sweep.2.size := rfl
    _ = ledger.occupied.card - ledger.sweep.2.occupied.card := by
        rw [represents.size_eq, after.size_eq]
        rfl
    _ = (ledger.occupied \ ledger.sweep.2.occupied).card :=
        (Finset.card_sdiff_of_subset survivors_subset).symm

end Table.Represents

end Phrasing.Memo
