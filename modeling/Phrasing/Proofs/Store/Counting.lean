import Phrasing.Proofs.Memo.Counting
import Phrasing.Proofs.Store.Runs

/-!
# Counters of a memo store

The counters of the expansions that a store remembers by content obey the law of the counters of a
table: what was stored is there, was evicted, or was replaced, and every look-up is counted once.
-/

namespace Phrasing.Store

/-- An operation is a look-up by content. -/
def Operation.isAdHocLookup : Operation → Bool
  | .lookupAdHoc _ => true
  | _ => false

/-- How many expansions an operation puts in the place of another one with the same content hash. -/
def replacesAdHoc (store : Store) : Operation → Nat
  | .storeAdHoc element _ => if (store.adHoc.lookup element.contentHash).isSome then 1 else 0
  | _ => 0

/-- How many expansions of a run are stored under a content hash that is already present. -/
def adHocReplacements (store : Store) : List Operation → Nat
  | [] => 0
  | operation :: rest =>
      store.replacesAdHoc operation + (store.perform operation).adHocReplacements rest

section Steps

variable (store : Store)

theorem lookupAdHoc_grows (element : Element) :
    store.adHocStats.Grow 1 (if (store.lookupAdHoc element).1.isSome then 0 else 1) 0 0
      (store.lookupAdHoc element).2.adHocStats := by
  rw [lookupAdHoc]
  repeat' split
  all_goals refine ⟨?_, ?_, rfl, rfl⟩ <;> simp_all [Memo.Stats.lookups, Memo.Stats.misses]
  all_goals omega

/-- A look-up by content keeps the number of entries. -/
theorem length_lookupAdHoc (element : Element) :
    (store.lookupAdHoc element).2.adHoc.length = store.adHoc.length := by
  rcases store.adHoc_lookupAdHoc element with ⟨-, present, entry, adHoc_eq⟩ | ⟨-, adHoc_eq⟩
  · have replaced := length_putAdHoc element.contentHash
      { entry with generation := store.generation } store.adHoc
    rw [if_pos present] at replaced
    rw [adHoc_eq]
    exact Nat.succ.inj replaced
  · rw [adHoc_eq]

theorem storeAdHoc_grows (element : Element) (expansion : Expansion) :
    store.adHocStats.Grow 0 0 1 0 (store.storeAdHoc element expansion).adHocStats :=
  ⟨rfl, rfl, rfl, rfl⟩

theorem sweep_grows :
    store.adHocStats.Grow 0 0 0 (store.adHoc.length - store.sweep.2.adHoc.length)
      store.sweep.2.adHocStats :=
  ⟨rfl, rfl, rfl, rfl⟩

theorem length_sweep : store.sweep.2.adHoc.length ≤ store.adHoc.length :=
  List.length_filter_le _ _

theorem clear_grows :
    store.adHocStats.Grow 0 0 0 store.adHoc.length store.clear.adHocStats :=
  ⟨rfl, rfl, rfl, rfl⟩

end Steps

/-- One operation keeps the counters balanced. -/
theorem balances_perform {store : Store} {lookups replacements : Nat}
    (balances : store.adHocStats.Balances store.adHoc.length lookups replacements)
    (operation : Operation) :
    (store.perform operation).adHocStats.Balances (store.perform operation).adHoc.length
      (lookups + if operation.isAdHocLookup then 1 else 0)
      (replacements + store.replacesAdHoc operation) := by
  cases operation with
  | lookupAdHoc element =>
      exact balances.grow (store.lookupAdHoc_grows element)
        (congrArg (· + 0) (store.length_lookupAdHoc element))
  | storeAdHoc element expansion =>
      exact balances.grow (store.storeAdHoc_grows element expansion) (length_putAdHoc _ _ _)
  | sweep =>
      exact balances.grow store.sweep_grows (Nat.add_sub_of_le store.length_sweep)
  | clear => exact balances.grow store.clear_grows (Nat.zero_add store.adHoc.length)
  | _ => exact ⟨balances.stores_eq, balances.lookups_eq⟩

/-- A run keeps the counters balanced. -/
theorem balances_run {store : Store} {lookups replacements : Nat}
    (balances : store.adHocStats.Balances store.adHoc.length lookups replacements)
    (operations : List Operation) :
    (store.run operations).adHocStats.Balances (store.run operations).adHoc.length
      (lookups + operations.countP Operation.isAdHocLookup)
      (replacements + store.adHocReplacements operations) := by
  induction operations generalizing store lookups replacements with
  | nil => exact balances
  | cons operation rest induction =>
      have kept := induction (balances_perform balances operation)
      rw [adHocReplacements, List.countP_cons]
      simpa only [run_cons, Nat.add_assoc, Nat.add_comm, Nat.add_left_comm] using kept

/-- No entry goes missing, neither from a new table that has room for all of them nor from what a new
store remembers by content: whatever is done, the counted stores are the entries that are there, the
counted evictions and the replacements, and the counted look-ups are those that were made. -/
theorem counters_account_for_entries {Input Output : Type} [BEq Input] :
    (∀ (name : String) (operations : List (Memo.Operation Input Output)),
      (∀ front, front <+: operations →
        ((Memo.Ledger.empty : Memo.Ledger Input Output).run front).2.size < UInt32.size) →
      ∃ answers table, (Memo.Table.empty name).run operations = .ok (answers, table) ∧
        table.stats.stores = table.size + table.stats.evictions +
          (Memo.Table.empty name).replacements operations ∧
        table.stats.lookups = operations.countP Memo.Operation.isLookup) ∧
    ∀ operations : List Operation,
      (empty.run operations).stats.adHoc.stores =
          (empty.run operations).stats.adHocEntries + (empty.run operations).stats.adHoc.evictions +
            empty.adHocReplacements operations ∧
        (empty.run operations).stats.adHoc.lookups =
          operations.countP Operation.isAdHocLookup := by
  refine ⟨fun name operations few => ?_, fun operations => ?_⟩
  · obtain ⟨table, run, -⟩ := Memo.Table.Represents.run (.empty name) operations few
    have balances := Memo.Table.balances_run_empty run
    exact ⟨_, table, run, balances.stores_eq, balances.lookups_eq⟩
  · have balances : empty.adHocStats.Balances empty.adHoc.length 0 0 := ⟨rfl, rfl⟩
    obtain ⟨stores_eq, lookups_eq⟩ := balances_run balances operations
    exact ⟨stores_eq.trans (by rw [Nat.zero_add]; rfl), lookups_eq.trans (Nat.zero_add _)⟩

theorem counters_account_for_entries_rehearsal :
    ∃ answers table, (Memo.Table.empty "rehearsal").run
        (Memo.rehearsal ++ [.store .root ⟨0, 0⟩ 3 "three"]) = .ok (answers, table) ∧
      table.stats.stores = table.size + table.stats.evictions + 1 ∧ table.stats.lookups = 3 :=
  counters_account_for_entries.1 "rehearsal" _ (Memo.Ledger.size_run_lt (by decide))

end Phrasing.Store
