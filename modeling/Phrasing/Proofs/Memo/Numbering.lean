import Mathlib.Data.List.NodupEquivFin
import Phrasing.Proofs.Memo.Counting

/-!
# Addresses in a memo table

The addresses in a table are the numbers below its size, one for each occupied position.  A store
gives the next number to a vacant position and moves no entry.  A sweep renumbers the entries that
stay, in the order that they were in.
-/

namespace Phrasing.Memo.Table

variable {Input Output : Type}

/-- The address of the entry at a position, if the position is occupied. -/
def address? (table : Table Input Output) (position : Position) : Option Arena.Id :=
  table.index.lookup position

/-- The occupied positions have different addresses, and these are the numbers below the size. -/
structure Dense (table : Table Input Output) : Prop where
  /-- Only occupied positions have an address. -/
  occupied (position : Position) :
    table.contains position = true ↔ ∃ id, table.address? position = some id
  /-- There is an entry for a position at its address. -/
  leads {position : Position} {id : Arena.Id} (address : table.address? position = some id) :
    ∃ entry, table.entries.get? id = some entry ∧ entry.position = position
  /-- Different positions have different addresses. -/
  distinct {left right : Position} {id : Arena.Id} (at_left : table.address? left = some id)
    (at_right : table.address? right = some id) : left = right
  /-- The numbers below the size are addresses, and no others. -/
  below (number : Nat) :
    number < table.size ↔ ∃ position id, table.address? position = some id ∧ id.toNat = number

/-- A store at a position has used an address and left all others as they were. -/
structure Assigns (before : Table Input Output) (position : Position) (id : Arena.Id)
    (after : Table Input Output) : Prop where
  /-- It is the address of the position now. -/
  address : after.address? position = some id
  /-- A vacant position gets the number of entries so far. -/
  fresh (vacant : before.contains position = false) : id.toNat = before.size
  /-- An occupied position keeps its address. -/
  kept (occupied : before.contains position = true) : before.address? position = some id
  /-- The other positions keep their addresses. -/
  address_other {other : Position} (apart : other ≠ position) :
    after.address? other = before.address? other
  /-- The other positions keep their entries. -/
  get?_other {other : Position} (apart : other ≠ position) : after.get? other = before.get? other

/-- A table has those entries of another that stay, and has renumbered them in their order. -/
structure Renumbers (before : Table Input Output) (stays : Entry Input Output → Bool)
    (after : Table Input Output) : Prop where
  /-- The entries are those that stay. -/
  get?_eq (position : Position) : after.get? position = (before.get? position).filter stays
  /-- They are in the order that they were in. -/
  ordered {left right : Position} {i j i' j' : Arena.Id}
    (before_left : before.address? left = some i) (before_right : before.address? right = some j)
    (after_left : after.address? left = some i') (after_right : after.address? right = some j') :
    i' < j' ↔ i < j

section Filed

variable {table after : Table Input Output} {position : Position} {fingerprint : ContentHash}
  {inputs : Input} {output : Output} {id : Arena.Id}

theorem Filed.address?_eq_some_iff (filed : table.Filed) (fits : table.size ≤ UInt32.size) :
    table.address? position = some id ↔ table.place position = some id.toNat := by
  rw [address?, filed.indexed, Option.map_eq_some_iff]
  constructor
  · rintro ⟨place, found, rfl⟩
    rw [found, UInt32.toNat_ofNat_of_lt' (addressable_of_size_le fits position place found)]
  · intro found
    exact ⟨id.toNat, found, UInt32.ofNat_toNat⟩

/-- The addresses in a filed table are dense if there are enough of them. -/
theorem Filed.dense (filed : table.Filed) (fits : table.size ≤ UInt32.size) : table.Dense where
  occupied position := Option.isSome_iff_exists
  leads address := by
    obtain ⟨entry, stored, same⟩ := place_eq_some ((filed.address?_eq_some_iff fits).mp address)
    exact ⟨entry, Array.getElem?_toList.symm.trans stored, same⟩
  distinct at_left at_right := by
    obtain ⟨entry, stored, rfl⟩ := place_eq_some ((filed.address?_eq_some_iff fits).mp at_left)
    obtain ⟨other, other_stored, rfl⟩ :=
      place_eq_some ((filed.address?_eq_some_iff fits).mp at_right)
    rw [stored, Option.some.injEq] at other_stored
    rw [other_stored]
  below number := by
    constructor
    · intro bound
      obtain ⟨entry, stored⟩ : ∃ entry, table.stored[number]? = some entry :=
        ⟨_, List.getElem?_eq_getElem (size_eq_length table ▸ bound)⟩
      have number_eq : (UInt32.ofNat number).toNat = number :=
        UInt32.toNat_ofNat_of_lt' (bound.trans_le fits)
      refine ⟨entry.position, .ofNat number, (filed.address?_eq_some_iff fits).mpr ?_, number_eq⟩
      rw [number_eq]
      exact filed.place_of_stored stored
    · rintro ⟨position, id, address, rfl⟩
      obtain ⟨entry, stored, -⟩ := place_eq_some ((filed.address?_eq_some_iff fits).mp address)
      exact size_eq_length table ▸ (List.getElem?_eq_some_iff.mp stored).1

/-- A store returns the address that the position has, or else the next one. -/
theorem id_of_store (run : table.store position fingerprint inputs output = .ok (id, after)) :
    id = (table.address? position).getD table.entries.next := by
  rw [address?]
  obtain ⟨indexed, -⟩ | ⟨indexed, id_eq, -⟩ := of_store_ok run
  · rw [indexed, Option.getD_some]
  · rw [indexed, Option.getD_none, id_eq]

theorem address?_store (run : table.store position fingerprint inputs output = .ok (id, after))
    (other : Position) :
    after.address? other = if other = position then some id else table.address? other := by
  obtain ⟨indexed, rfl⟩ | ⟨-, -, rfl⟩ := of_store_ok run
  · split
    · next here => rw [address?, here, indexed]
    · rfl
  · rw [address?, List.lookup_cons]
    by_cases here : other = position
    · rw [if_pos here, beq_iff_eq.mpr here]
    · rw [if_neg here, beq_eq_false_iff_ne.mpr here, address?]

theorem Filed.store_assigns (filed : table.Filed) (few : table.size < UInt32.size)
    (position : Position) (fingerprint : ContentHash) (inputs : Input) (output : Output) :
    ∃ id after, table.store position fingerprint inputs output = .ok (id, after) ∧
      Assigns table position id after ∧ after.Dense := by
  obtain ⟨id, after, run, puts⟩ :=
    filed.store_ok (addressable_of_size_le few.le position) fingerprint inputs output
  have id_eq := id_of_store run
  have fits : after.size ≤ UInt32.size := by
    have sizes := size_store run
    omega
  refine ⟨id, after, run, ⟨?_, fun vacant => ?_, fun occupied => ?_, fun apart => ?_, fun apart => ?_⟩,
    puts.filed.dense fits⟩
  · rw [address?_store run, if_pos rfl]
  · rw [contains, ← address?, Option.isSome_eq_false_iff, Option.isNone_iff_eq_none] at vacant
    rw [id_eq, vacant]
    exact UInt32.toNat_ofNat_of_lt' few
  · obtain ⟨current, current_eq⟩ := Option.isSome_iff_exists.mp occupied
    rw [id_eq, address?, current_eq, Option.getD_some]
  · rw [address?_store run, if_neg apart]
  · rw [puts.filed.get?_eq_entryAt (addressable_of_size_le fits _),
      filed.get?_eq_entryAt (addressable_of_size_le few.le _), puts.entryAt, if_neg apart]

/-- What a sweep keeps is in the order that it was in. -/
theorem Filed.place_sweep (filed : table.Filed) :
    ∃ old : ℕ ↪o ℕ, ∀ position place, table.sweep.2.place position = some place →
      table.place position = some (old place) := by
  have kept : table.sweep.2.stored.Sublist table.stored := by
    rw [stored_sweep]
    exact List.filter_sublist
  obtain ⟨old, stored_eq⟩ := List.sublist_iff_exists_orderEmbedding_getElem?_eq.mp kept
  refine ⟨old, fun position place found => ?_⟩
  -- Places are unique in a filed table, so the old place of an entry is the one that it came from.
  obtain ⟨entry, stored, rfl⟩ := place_eq_some found
  exact filed.place_of_stored (stored_eq place ▸ stored)

theorem Filed.sweep_renumbers (filed : table.Filed) (fits : table.size ≤ UInt32.size) :
    Renumbers table table.isLive table.sweep.2 := by
  have fits_after : table.sweep.2.size ≤ UInt32.size := by
    have sizes := table.size_sweep
    omega
  refine ⟨fun position => ?_, fun before_left before_right after_left after_right => ?_⟩
  · rw [filed.sweep.get?_eq_entryAt (addressable_of_size_le fits_after position),
      filed.get?_eq_entryAt (addressable_of_size_le fits position), filed.entryAt_sweep]
  · obtain ⟨old, place_eq⟩ := filed.place_sweep
    have left := place_eq _ _ ((filed.sweep.address?_eq_some_iff fits_after).mp after_left)
    have right := place_eq _ _ ((filed.sweep.address?_eq_some_iff fits_after).mp after_right)
    rw [(filed.address?_eq_some_iff fits).mp before_left, Option.some.injEq] at left
    rw [(filed.address?_eq_some_iff fits).mp before_right, Option.some.injEq] at right
    rw [UInt32.lt_iff_toNat_lt, UInt32.lt_iff_toNat_lt, left, right, old.lt_iff_lt]

end Filed

variable [BEq Input]

/-- Whatever is done to a new table that has room for all of its entries, addresses stay dense and
stable: a store gives a vacant position the next number, keeps the address of an occupied one and
leaves the other entries where they are, and a sweep renumbers what stays in its order. -/
theorem addresses_dense_and_stable (name : String) (operations : List (Operation Input Output))
    (few : ∀ front, front <+: operations →
      ((Ledger.empty : Ledger Input Output).run front).2.size < UInt32.size) :
    ∃ answers table, (empty name).run operations = .ok (answers, table) ∧ table.Dense ∧
      (∀ position fingerprint inputs output,
        ∃ id after, table.store position fingerprint inputs output = .ok (id, after) ∧
          Assigns table position id after ∧ after.Dense) ∧
      Renumbers table table.isLive table.sweep.2 ∧ table.sweep.2.Dense := by
  obtain ⟨table, run, represents⟩ := Represents.run (.empty name) operations few
  have room : table.size < UInt32.size := represents.size_eq ▸ few operations List.prefix_rfl
  have filed := represents.filed
  have fewer : table.sweep.2.size ≤ table.size :=
    (Nat.le_add_right _ _).trans_eq table.size_sweep
  exact ⟨_, table, run, filed.dense room.le, filed.store_assigns room,
    filed.sweep_renumbers room.le, filed.sweep.dense (fewer.trans room.le)⟩

theorem addresses_dense_and_stable_rehearsal :
    rehearsal.length < UInt32.size ∧
      ∃ answers table, (empty "rehearsal").run rehearsal = .ok (answers, table) ∧ table.Dense ∧
        (∀ position fingerprint inputs output,
          ∃ id after, table.store position fingerprint inputs output = .ok (id, after) ∧
            Assigns table position id after ∧ after.Dense) ∧
        Renumbers table table.isLive table.sweep.2 ∧ table.sweep.2.Dense :=
  ⟨by decide, addresses_dense_and_stable "rehearsal" rehearsal (Ledger.size_run_lt (by decide))⟩

end Phrasing.Memo.Table
