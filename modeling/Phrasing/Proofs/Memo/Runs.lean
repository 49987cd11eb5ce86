import Phrasing.Proofs.Memo.Ledger

/-!
# Runs of a memo table

The operations on a memo table, as data, and what a sequence of them answers.  A new table answers
every sequence as the empty ledger does, as long as it holds fewer entries than there are addresses:
that is the refinement of a finite map by entries, addresses and an index.
-/

namespace Phrasing.Memo

/-- An operation on a memo table. -/
inductive Operation (Input Output : Type) where
  /-- Begins the next generation. -/
  | begin
  /-- Looks up the output for the current inputs. -/
  | lookup (position : Position) (fingerprint : ContentHash) (inputs : Input)
  /-- Stores an output. -/
  | store (position : Position) (fingerprint : ContentHash) (inputs : Input) (output : Output)
  /-- Marks everything at or below a position as used. -/
  | keepSubtree (root : Position)
  /-- Drops what this generation did not use. -/
  | sweep
  /-- Drops everything. -/
  | clear
  /-- Asks for the entry at a position. -/
  | get (position : Position)
  /-- Asks whether a position is occupied. -/
  | contains (position : Position)
  /-- Asks for the number of entries. -/
  | size
  /-- Asks whether there are no entries. -/
  | isEmpty

/-- What an operation returns. -/
inductive Answer (Input Output : Type) where
  /-- Nothing. -/
  | done
  /-- The outcome of a lookup. -/
  | found (outcome : Lookup Output)
  /-- The entry at a position, if there is one. -/
  | entry (entry : Option (Entry Input Output))
  /-- A number: of a generation, of entries, or of entries dropped. -/
  | count (number : Nat)
  /-- A truth value. -/
  | truth (value : Bool)

variable {Input Output : Type} [BEq Input]

/-- Performs an operation on a table. -/
def Table.perform (table : Table Input Output) :
    Operation Input Output → Except TableError (Answer Input Output × Table Input Output)
  | .begin => .ok (.count table.begin.generation, table.begin)
  | .lookup position fingerprint inputs =>
      (table.lookup position fingerprint inputs).map fun (outcome, after) => (.found outcome, after)
  | .store position fingerprint inputs output =>
      (table.store position fingerprint inputs output).map fun (_, after) => (.done, after)
  | .keepSubtree root => .ok (.done, table.keepSubtree root)
  | .sweep => .ok (.count table.sweep.1, table.sweep.2)
  | .clear => .ok (.done, table.clear)
  | .get position => .ok (.entry (table.get? position), table)
  | .contains position => .ok (.truth (table.contains position), table)
  | .size => .ok (.count table.size, table)
  | .isEmpty => .ok (.truth (table.size == 0), table)

/-- Performs operations one after another, up to the first error. -/
def Table.run (table : Table Input Output) :
    List (Operation Input Output) →
      Except TableError (List (Answer Input Output) × Table Input Output)
  | [] => .ok ([], table)
  | operation :: rest => do
      let (answer, next) ← table.perform operation
      let (answers, last) ← next.run rest
      return (answer :: answers, last)

/-- What an operation does to a ledger. -/
def Ledger.perform (ledger : Ledger Input Output) :
    Operation Input Output → Answer Input Output × Ledger Input Output
  | .begin => (.count ledger.begin.generation, ledger.begin)
  | .lookup position fingerprint inputs =>
      let (outcome, after) := ledger.lookup position fingerprint inputs
      (.found outcome, after)
  | .store position fingerprint inputs output =>
      (.done, ledger.store position fingerprint inputs output)
  | .keepSubtree root => (.done, ledger.keepSubtree root)
  | .sweep => (.count ledger.sweep.1, ledger.sweep.2)
  | .clear => (.done, ledger.clear)
  | .get position =>
      (.entry ((ledger.record? position).map fun record => record.at position), ledger)
  | .contains position => (.truth (ledger.record? position).isSome, ledger)
  | .size => (.count ledger.size, ledger)
  | .isEmpty => (.truth (ledger.size == 0), ledger)

/-- What operations do to a ledger one after another. -/
def Ledger.run (ledger : Ledger Input Output) :
    List (Operation Input Output) → List (Answer Input Output) × Ledger Input Output
  | [] => ([], ledger)
  | operation :: rest =>
      let (answer, next) := ledger.perform operation
      let (answers, last) := next.run rest
      (answer :: answers, last)

/-- An operation adds at most one record. -/
theorem Ledger.size_perform_le (ledger : Ledger Input Output) (operation : Operation Input Output) :
    (ledger.perform operation).2.size ≤ ledger.size + 1 := by
  cases operation with
  | lookup position fingerprint inputs => exact ledger.size_lookup_le position fingerprint inputs
  | store position fingerprint inputs output => exact ledger.size_put_le position _
  | sweep => exact ledger.size_sweep_le.trans (Nat.le_succ _)
  | clear => exact Nat.zero_le _
  | _ => exact Nat.le_succ _

/-- A run adds at most as many records as it has operations. -/
theorem Ledger.size_run_le (ledger : Ledger Input Output)
    (operations : List (Operation Input Output)) :
    (ledger.run operations).2.size ≤ ledger.size + operations.length := by
  induction operations generalizing ledger with
  | nil => exact Nat.le_refl _
  | cons operation rest induction =>
      calc ((ledger.perform operation).2.run rest).2.size
          ≤ (ledger.perform operation).2.size + rest.length := induction _
        _ ≤ ledger.size + 1 + rest.length :=
            Nat.add_le_add_right (ledger.size_perform_le operation) _
        _ = ledger.size + (operation :: rest).length := by
            rw [List.length_cons]
            omega

/-- A run that is not longer than there are addresses never has more records than that. -/
theorem Ledger.size_run_lt {operations : List (Operation Input Output)}
    (short : operations.length < UInt32.size) (front : List (Operation Input Output))
    (ahead : front <+: operations) :
    ((Ledger.empty : Ledger Input Output).run front).2.size < UInt32.size :=
  calc ((Ledger.empty : Ledger Input Output).run front).2.size
      ≤ 0 + front.length := Ledger.size_run_le .empty front
    _ ≤ operations.length := (Nat.zero_add _).trans_le ahead.length_le
    _ < UInt32.size := short

/-- One operation gives the same answer on a table as on the ledger that it represents, and leaves
a table that represents what the operation makes of the ledger. -/
theorem Table.Represents.perform {table : Table Input Output} {ledger : Ledger Input Output}
    (represents : table.Represents ledger) (few : ledger.size < UInt32.size)
    (operation : Operation Input Output) :
    ∃ after, table.perform operation = .ok ((ledger.perform operation).1, after) ∧
      after.Represents (ledger.perform operation).2 := by
  cases operation with
  | «begin» =>
      have generation : table.begin.generation = ledger.begin.generation :=
        represents.begin.generation
      exact ⟨table.begin, by rw [Table.perform, generation, Ledger.perform], represents.begin⟩
  | lookup position fingerprint inputs =>
      obtain ⟨after, looked, represents_after⟩ :=
        represents.lookup few position fingerprint inputs
      exact ⟨after, by rw [Table.perform, looked]; rfl, represents_after⟩
  | store position fingerprint inputs output =>
      obtain ⟨id, after, stored, represents_after⟩ :=
        represents.store few position fingerprint inputs output
      exact ⟨after, by rw [Table.perform, stored]; rfl, represents_after⟩
  | keepSubtree root => exact ⟨_, rfl, represents.keepSubtree root⟩
  | sweep =>
      obtain ⟨evicted, represents_after⟩ := represents.sweep
      exact ⟨table.sweep.2, by rw [Table.perform, evicted, Ledger.perform], represents_after⟩
  | clear => exact ⟨_, rfl, represents.clear⟩
  | get position =>
      exact ⟨table, by rw [Table.perform, represents.get?_eq few, Ledger.perform], represents⟩
  | contains position =>
      exact ⟨table, by rw [Table.perform, represents.contains_eq, Ledger.perform], represents⟩
  | size => exact ⟨table, by rw [Table.perform, represents.size_eq, Ledger.perform], represents⟩
  | isEmpty => exact ⟨table, by rw [Table.perform, represents.size_eq, Ledger.perform], represents⟩

theorem Table.Represents.run {table : Table Input Output} {ledger : Ledger Input Output}
    (represents : table.Represents ledger) (operations : List (Operation Input Output))
    (few : ∀ front, front <+: operations → (ledger.run front).2.size < UInt32.size) :
    ∃ after, table.run operations = .ok ((ledger.run operations).1, after) ∧
      after.Represents (ledger.run operations).2 := by
  induction operations generalizing table ledger with
  | nil => exact ⟨table, rfl, represents⟩
  | cons operation rest induction =>
      obtain ⟨next, performed, represents_next⟩ :=
        represents.perform (few [] (List.nil_prefix)) operation
      obtain ⟨after, run_rest, represents_after⟩ := induction represents_next fun front ahead =>
        few (operation :: front) ((List.prefix_cons_inj operation).mpr ahead)
      refine ⟨after, ?_, represents_after⟩
      rw [Table.run, performed]
      change (do let (answers, last) ← next.run rest; return (_ :: answers, last)) = _
      rw [run_rest]
      rfl

/-- A new table answers every sequence of operations as a finite map does, and none of them fails,
as long as there are fewer entries than addresses. -/
theorem Table.run_refines_ledger (name : String) (operations : List (Operation Input Output))
    (few : ∀ front, front <+: operations →
      ((Ledger.empty : Ledger Input Output).run front).2.size < UInt32.size) :
    ∃ after, (Table.empty name).run operations =
        .ok ((Ledger.empty.run operations).1, after) ∧
      after.Represents (Ledger.empty.run operations).2 :=
  Table.Represents.run (.empty name) operations few

/-- Operations on a table of texts for numbers, in two generations. -/
def rehearsal : List (Operation Nat String) :=
  [.store .root ⟨0, 0⟩ 1 "one", .store (Position.root.child 0) ⟨0, 0⟩ 2 "two",
    .lookup .root ⟨0, 0⟩ 1, .lookup .root ⟨0, 0⟩ 3, .begin, .lookup .root ⟨0, 0⟩ 1, .sweep,
    .contains (Position.root.child 0), .size]

theorem Table.run_refines_ledger_rehearsal :
    (∀ front, front <+: rehearsal →
      ((Ledger.empty : Ledger Nat String).run front).2.size < UInt32.size) ∧
      ∃ after, (Table.empty "rehearsal").run rehearsal =
          .ok ([.done, .done, .found (.hit "one"), .found .stale, .count 1, .found (.hit "one"),
            .count 1, .truth false, .count 1], after) ∧
        after.Represents (Ledger.empty.run rehearsal).2 := by
  have few (front : List (Operation Nat String)) (ahead : front <+: rehearsal) :
      ((Ledger.empty : Ledger Nat String).run front).2.size < UInt32.size :=
    calc ((Ledger.empty : Ledger Nat String).run front).2.size
        ≤ 0 + front.length := Ledger.size_run_le .empty front
      _ ≤ 0 + rehearsal.length := Nat.add_le_add_left ahead.length_le 0
      _ < UInt32.size := by decide
  exact ⟨few, Table.run_refines_ledger "rehearsal" rehearsal few⟩

end Phrasing.Memo
