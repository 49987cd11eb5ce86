import Phrasing.Proofs.Store.ByContent

/-!
# Runs of a memo store

The operations on a memo store, as data, and what a sequence of them makes of it.  Whatever is done to
the store and to its tables, the three counts of generations stay the same number.
-/

namespace Phrasing.Store

/-- An operation on a memo store or on one of its tables. -/
inductive Operation where
  /-- Begins the next generation. -/
  | begin
  /-- Looks up the expansion of an element by content. -/
  | lookupAdHoc (element : Element)
  /-- Stores the expansion of an element by content. -/
  | storeAdHoc (element : Element) (expansion : Expansion)
  /-- Marks everything at or below a position as used. -/
  | keepSubtree (root : Position)
  /-- Looks up data by position. -/
  | lookupData (position : Position) (fingerprint : ContentHash) (inputs : ObserveInputs)
  /-- Stores data by position. -/
  | storeData (position : Position) (fingerprint : ContentHash) (inputs : ObserveInputs)
      (data : Value)
  /-- Looks up an expansion by position. -/
  | lookupExpansion (position : Position) (fingerprint : ContentHash) (inputs : DescribeInputs)
  /-- Stores an expansion by position. -/
  | storeExpansion (position : Position) (fingerprint : ContentHash) (inputs : DescribeInputs)
      (expansion : Expansion)
  /-- Drops what is no longer in use. -/
  | sweep
  /-- Drops everything. -/
  | clear

/-- The table that an operation leaves behind; one that fails leaves it as it was. -/
def tableAfter {ε α Input Output : Type} (table : Memo.Table Input Output) :
    Except ε (α × Memo.Table Input Output) → Memo.Table Input Output
  | .ok (_, after) => after
  | .error _ => table

/-- Performs an operation. -/
def perform (store : Store) : Operation → Store
  | .begin => store.begin
  | .lookupAdHoc element => (store.lookupAdHoc element).2
  | .storeAdHoc element expansion => store.storeAdHoc element expansion
  | .keepSubtree root => store.keepSubtree root
  | .lookupData position fingerprint inputs =>
      { store with
        observations := tableAfter store.observations
          (store.observations.lookup position fingerprint inputs) }
  | .storeData position fingerprint inputs data =>
      { store with
        observations := tableAfter store.observations
          (store.observations.store position fingerprint inputs data) }
  | .lookupExpansion position fingerprint inputs =>
      { store with
        expansions := tableAfter store.expansions
          (store.expansions.lookup position fingerprint inputs) }
  | .storeExpansion position fingerprint inputs expansion =>
      { store with
        expansions := tableAfter store.expansions
          (store.expansions.store position fingerprint inputs expansion) }
  | .sweep => store.sweep.2
  | .clear => store.clear

/-- Performs operations one after another. -/
def run (store : Store) (operations : List Operation) : Store :=
  operations.foldl perform store

@[simp]
theorem run_nil (store : Store) : store.run [] = store :=
  rfl

@[simp]
theorem run_cons (store : Store) (operation : Operation) (rest : List Operation) :
    store.run (operation :: rest) = (store.perform operation).run rest :=
  rfl

@[simp]
theorem run_append_singleton (store : Store) (operations : List Operation) (last : Operation) :
    store.run (operations ++ [last]) = (store.run operations).perform last := by
  simp [run]

/-- The store and its two tables are in the same generation. -/
structure InStep (store : Store) : Prop where
  /-- The observations are. -/
  observations : store.observations.generation = store.generation
  /-- The expansions are. -/
  expansions : store.expansions.generation = store.generation

section Generations

variable {Input Output : Type} (table : Memo.Table Input Output) (position : Position)
  (fingerprint : ContentHash) (inputs : Input)

theorem generation_lookup [BEq Input] :
    (tableAfter table (table.lookup position fingerprint inputs)).generation =
      table.generation := by
  rw [Memo.Table.lookup]
  repeat' split
  all_goals rfl

theorem generation_store (output : Output) :
    (tableAfter table (table.store position fingerprint inputs output)).generation =
      table.generation := by
  rw [Memo.Table.store]
  repeat' split
  all_goals rfl

end Generations

theorem inStep_empty : empty.InStep :=
  ⟨rfl, rfl⟩

/-- One operation keeps the counts of generations in step. -/
theorem InStep.perform {store : Store} (inStep : store.InStep) (operation : Operation) :
    (store.perform operation).InStep := by
  obtain ⟨observations, expansions⟩ := inStep
  cases operation with
  | «begin» =>
      have both : store.observations.generation = store.expansions.generation :=
        observations.trans expansions.symm
      exact ⟨congrArg (· + 1) both, rfl⟩
  | lookupAdHoc element =>
      obtain ⟨adHoc, adHocStats, store_eq⟩ := store.lookupAdHoc_store element
      rw [Store.perform, store_eq]
      exact ⟨observations, expansions⟩
  | lookupData position fingerprint inputs =>
      exact ⟨(generation_lookup _ position fingerprint inputs).trans observations, expansions⟩
  | storeData position fingerprint inputs data =>
      exact ⟨(generation_store _ position fingerprint inputs data).trans observations, expansions⟩
  | lookupExpansion position fingerprint inputs =>
      exact ⟨observations, (generation_lookup _ position fingerprint inputs).trans expansions⟩
  | storeExpansion position fingerprint inputs expansion =>
      exact ⟨observations, (generation_store _ position fingerprint inputs expansion).trans expansions⟩
  | _ => exact ⟨observations, expansions⟩

/-- After any run the counts of generations are in step. -/
theorem InStep.run {store : Store} (inStep : store.InStep) (operations : List Operation) :
    (store.run operations).InStep := by
  induction operations generalizing store with
  | nil => exact inStep
  | cons operation rest induction => exact induction (inStep.perform operation)

end Phrasing.Store
