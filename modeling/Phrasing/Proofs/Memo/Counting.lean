import Phrasing.Proofs.Expansion.Outcomes
import Phrasing.Proofs.Memo.Runs

/-!
# Counters of a memo table

What operations on a memo table add to its counters.  Entries come into a table through stores only,
and they leave it through sweeps and clearing, which count them.  So the stores of a run are the
entries that are there, those that were evicted, and the ones that took the place of another; and every
lookup is counted once.
-/

namespace Phrasing.Memo

variable {Input Output : Type}

/-- Counters have grown by the given numbers. -/
structure Stats.Grow (before : Stats) (lookups misses stores evictions : Nat) (after : Stats) :
    Prop where
  /-- Lookups of any outcome. -/
  lookups_eq : after.lookups = before.lookups + lookups
  /-- Lookups that did not return a stored output. -/
  misses_eq : after.misses = before.misses + misses
  /-- Stored outputs. -/
  stores_eq : after.stores = before.stores + stores
  /-- Dropped entries. -/
  evictions_eq : after.evictions = before.evictions + evictions

theorem Stats.Grow.refl (stats : Stats) : stats.Grow 0 0 0 0 stats :=
  ⟨rfl, rfl, rfl, rfl⟩

theorem Stats.Grow.trans {first second third : Stats}
    {lookups misses stores evictions laterLookups laterMisses laterStores laterEvictions : Nat}
    (earlier : first.Grow lookups misses stores evictions second)
    (later : second.Grow laterLookups laterMisses laterStores laterEvictions third) :
    first.Grow (lookups + laterLookups) (misses + laterMisses) (stores + laterStores)
      (evictions + laterEvictions) third where
  lookups_eq := by rw [later.lookups_eq, earlier.lookups_eq, Nat.add_assoc]
  misses_eq := by rw [later.misses_eq, earlier.misses_eq, Nat.add_assoc]
  stores_eq := by rw [later.stores_eq, earlier.stores_eq, Nat.add_assoc]
  evictions_eq := by rw [later.evictions_eq, earlier.evictions_eq, Nat.add_assoc]

/-- Counters account for a number of entries, with so many lookups and replacements. -/
structure Stats.Balances (stats : Stats) (size lookups replacements : Nat) : Prop where
  /-- What was stored is still there, was evicted, or was replaced. -/
  stores_eq : stats.stores = size + stats.evictions + replacements
  /-- Every lookup was counted. -/
  lookups_eq : stats.lookups = lookups

/-- Counters stay balanced when every store that they count adds an entry or replaces one, and every
eviction that they count removes one. -/
theorem Stats.Balances.grow {before after : Stats}
    {size lookups replacements looked misses stores evictions sizeAfter replaced : Nat}
    (balances : before.Balances size lookups replacements)
    (grows : before.Grow looked misses stores evictions after)
    (sizes : sizeAfter + evictions + replaced = size + stores) :
    after.Balances sizeAfter (lookups + looked) (replacements + replaced) := by
  obtain ⟨stores_eq, lookups_eq⟩ := balances
  constructor
  · rw [grows.stores_eq, grows.evictions_eq]
    omega
  · rw [grows.lookups_eq, lookups_eq]

/-- What the outcome of a lookup adds to the misses. -/
def Lookup.missed : Lookup Output → Nat
  | .hit _ => 0
  | .stale => 1
  | .vacant => 1

/-- An operation is a lookup. -/
def Operation.isLookup : Operation Input Output → Bool
  | .lookup _ _ _ => true
  | _ => false

namespace Table

section Steps

variable {table after : Table Input Output} {position : Position} {fingerprint : ContentHash}
  {inputs : Input} {output : Output} {outcome : Lookup Output} {id : Arena.Id}

theorem lookup_grows [BEq Input]
    (run : table.lookup position fingerprint inputs = .ok (outcome, after)) :
    table.stats.Grow 1 outcome.missed 0 0 after.stats := by
  rw [lookup] at run
  repeat' split at run
  all_goals cases run
  all_goals refine ⟨?_, ?_, rfl, rfl⟩ <;> simp [Stats.lookups, Stats.misses, Lookup.missed]
  all_goals omega

theorem size_lookup [BEq Input]
    (run : table.lookup position fingerprint inputs = .ok (outcome, after)) :
    after.size = table.size := by
  rw [lookup] at run
  repeat' split at run
  all_goals cases run
  all_goals simp [size]

/-- A store replaces the entry at the address of an occupied position, or adds one at the next
address. -/
theorem of_store_ok (run : table.store position fingerprint inputs output = .ok (id, after)) :
    let entry := { position, fingerprint, inputs, output, generation := table.generation }
    let stats := { table.stats with stores := table.stats.stores + 1 }
    (table.index.lookup position = some id ∧
        after = { table with entries := table.entries.set id entry, stats }) ∨
      table.index.lookup position = none ∧ id = table.entries.next ∧
        after = { table with
          entries := table.entries.push entry
          index := (position, id) :: table.index
          stats } := by
  rw [store] at run
  cases indexed : table.index.lookup position with
  | none =>
      rw [indexed] at run
      cases run
      exact .inr ⟨rfl, rfl, rfl⟩
  | some place =>
      rw [indexed] at run
      dsimp only at run
      split at run
      · cases run
        exact .inl ⟨rfl, rfl⟩
      · cases run

theorem store_grows (run : table.store position fingerprint inputs output = .ok (id, after)) :
    table.stats.Grow 0 0 1 0 after.stats := by
  obtain ⟨-, rfl⟩ | ⟨-, -, rfl⟩ := of_store_ok run <;> exact ⟨rfl, rfl, rfl, rfl⟩

/-- A store adds an entry, unless it puts one in the place of another. -/
theorem size_store (run : table.store position fingerprint inputs output = .ok (id, after)) :
    after.size + (if table.contains position then 1 else 0) = table.size + 1 := by
  rw [contains]
  obtain ⟨indexed, rfl⟩ | ⟨indexed, -, rfl⟩ := of_store_ok run <;> simp [indexed, size]

theorem sweep_grows (table : Table Input Output) :
    table.stats.Grow 0 0 0 table.sweep.1 table.sweep.2.stats :=
  ⟨rfl, rfl, rfl, rfl⟩

/-- A sweep evicts what does not stay. -/
theorem size_sweep (table : Table Input Output) :
    table.sweep.2.size + table.sweep.1 = table.size := by
  have fewer : table.sweep.2.size ≤ table.size := by
    rw [size_eq_length, size_eq_length, stored_sweep]
    exact List.length_filter_le _ _
  have evicted : table.sweep.1 = table.size - table.sweep.2.size := rfl
  omega

theorem clear_grows (table : Table Input Output) :
    table.stats.Grow 0 0 0 table.size table.clear.stats :=
  ⟨rfl, rfl, rfl, rfl⟩

end Steps

variable [BEq Input]

/-- How many entries an operation puts in the place of another one. -/
def replaces (table : Table Input Output) : Operation Input Output → Nat
  | .store position _ _ _ => if table.contains position then 1 else 0
  | _ => 0

/-- How many stores of a run are made at a position that is already occupied. -/
def replacements (table : Table Input Output) : List (Operation Input Output) → Nat
  | [] => 0
  | operation :: rest =>
      table.replaces operation +
        match table.perform operation with
        | .ok (_, next) => next.replacements rest
        | .error _ => 0

/-- One operation keeps the counters balanced. -/
theorem balances_perform {table after : Table Input Output} {lookups replacements : Nat}
    (balances : table.stats.Balances table.size lookups replacements)
    {operation : Operation Input Output} {answer : Answer Input Output}
    (run : table.perform operation = .ok (answer, after)) :
    after.stats.Balances after.size (lookups + if operation.isLookup then 1 else 0)
      (replacements + table.replaces operation) := by
  cases operation with
  | lookup position fingerprint inputs =>
      obtain ⟨⟨outcome, last⟩, looked, done⟩ := except_map_eq_ok.mp run
      cases done
      exact balances.grow (lookup_grows looked) (congrArg (· + 0) (size_lookup looked))
  | store position fingerprint inputs output =>
      obtain ⟨⟨id, last⟩, stored, done⟩ := except_map_eq_ok.mp run
      cases done
      exact balances.grow (store_grows stored) (size_store stored)
  | sweep =>
      cases run
      exact balances.grow table.sweep_grows table.size_sweep
  | clear =>
      cases run
      exact balances.grow table.clear_grows (Nat.zero_add table.size)
  | _ =>
      cases run
      exact ⟨balances.stores_eq, balances.lookups_eq⟩

/-- A run keeps the counters balanced. -/
theorem balances_run {table after : Table Input Output} {lookups replacements : Nat}
    (balances : table.stats.Balances table.size lookups replacements)
    {operations : List (Operation Input Output)} {answers : List (Answer Input Output)}
    (run : table.run operations = .ok (answers, after)) :
    after.stats.Balances after.size (lookups + operations.countP Operation.isLookup)
      (replacements + table.replacements operations) := by
  induction operations generalizing table lookups replacements answers with
  | nil =>
      cases run
      exact balances
  | cons operation rest induction =>
      obtain ⟨⟨answer, next⟩, performed, run⟩ := except_bind_eq_ok.mp run
      obtain ⟨⟨others, last⟩, running, done⟩ := except_bind_eq_ok.mp run
      cases done
      have kept := induction (balances_perform balances performed) running
      rw [Table.replacements, performed, List.countP_cons]
      simpa only [Nat.add_assoc, Nat.add_comm, Nat.add_left_comm] using kept

/-- The counters of a new table balance after every run. -/
theorem balances_run_empty {name : String} {after : Table Input Output}
    {operations : List (Operation Input Output)} {answers : List (Answer Input Output)}
    (run : (empty name : Table Input Output).run operations = .ok (answers, after)) :
    after.stats.Balances after.size (operations.countP Operation.isLookup)
      ((empty name : Table Input Output).replacements operations) := by
  have balances : (empty name : Table Input Output).stats.Balances 0 0 0 := ⟨rfl, rfl⟩
  have kept := balances_run balances run
  rwa [Nat.zero_add, Nat.zero_add] at kept

end Table

end Phrasing.Memo
