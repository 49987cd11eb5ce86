import Mathlib.Data.Finset.Card
import Phrasing.Memo.Table
import Phrasing.Proofs.Positions

/-!
# Filed tables

A table is filed when its entries have distinct positions and its index tells, for every position,
where the entry of that position is.  Addresses have 32 bits, so the index of a filed table misleads
only in a table of more than `2 ^ 32` entries.  What a table holds is then a partial function of
positions, and lookups, stores and sweeps are described by what they do to it.
-/

namespace Phrasing.Memo.Table

variable {Input Output : Type}

/-- The stored computations, in the order of their addresses. -/
def stored (table : Table Input Output) : List (Entry Input Output) :=
  table.entries.items.toList

/-- Their positions. -/
def positions (table : Table Input Output) : List Position :=
  table.stored.map Entry.position

/-- The place of the entry at a position in the order of addresses. -/
def place (table : Table Input Output) (position : Position) : Option Nat :=
  table.positions.findIdx? fun other => other = position

/-- The entry at a position. -/
def entryAt (table : Table Input Output) (position : Position) : Option (Entry Input Output) :=
  table.stored.find? fun entry => entry.position = position

/-- The table holds more entries than there are addresses. -/
def Overfull (table : Table Input Output) : Prop :=
  UInt32.size < table.size

/-- The entry at a position, if there is one, has an address of its own. -/
def Addressable (table : Table Input Output) (position : Position) : Prop :=
  ∀ place, table.place position = some place → place < UInt32.size

/-- The entries have distinct positions, and the index tells their addresses. -/
structure Filed (table : Table Input Output) : Prop where
  /-- No two entries have the same position. -/
  distinct : table.positions.Nodup
  /-- The index gives the address of every entry, and nothing else. -/
  indexed (position : Position) :
    table.index.lookup position = (table.place position).map UInt32.ofNat

theorem entryAt_eq_bind_place (table : Table Input Output) (position : Position) :
    table.entryAt position = (table.place position).bind fun place => table.stored[place]? := by
  rw [entryAt, List.find?_eq_bind_findIdx?_getElem?, place, positions, List.findIdx?_map]
  rfl

theorem size_eq_length (table : Table Input Output) : table.size = table.stored.length :=
  Array.length_toList.symm

theorem place_eq_some {table : Table Input Output} {position : Position} {place : Nat}
    (found : table.place position = some place) :
    ∃ entry, table.stored[place]? = some entry ∧ entry.position = position := by
  obtain ⟨bound, same, -⟩ := List.findIdx?_eq_some_iff_getElem.mp found
  have stored_bound : place < table.stored.length := by simpa [positions] using bound
  refine ⟨table.stored[place], List.getElem?_eq_getElem stored_bound, ?_⟩
  simpa [positions] using same

theorem entryAt_of_place {table : Table Input Output} {position : Position} {place : Nat}
    {entry : Entry Input Output} (found : table.place position = some place)
    (stored : table.stored[place]? = some entry) : table.entryAt position = some entry := by
  rw [entryAt_eq_bind_place, found, Option.bind_some, stored]

theorem entryAt_eq_none {table : Table Input Output} {position : Position}
    (vacant : table.place position = none) : table.entryAt position = none := by
  rw [entryAt_eq_bind_place, vacant, Option.bind_none]

theorem position_of_entryAt {table : Table Input Output} {position : Position}
    {entry : Entry Input Output} (found : table.entryAt position = some entry) :
    entry.position = position := by
  simpa using List.find?_some found

/-- In a filed table, a place is the place of the position stored there. -/
theorem Filed.place_of_stored {table : Table Input Output} (filed : table.Filed) {place : Nat}
    {entry : Entry Input Output} (stored : table.stored[place]? = some entry) :
    table.place entry.position = some place := by
  obtain ⟨bound, rfl⟩ := List.getElem?_eq_some_iff.mp stored
  have positions_bound : place < table.positions.length := by simpa [positions] using bound
  refine List.findIdx?_eq_some_iff_getElem.mpr ⟨positions_bound, by simp [positions], ?_⟩
  intro earlier before
  have apart := (List.pairwise_iff_getElem.mp filed.distinct) earlier place (by omega)
    positions_bound before
  simpa [positions] using apart

theorem Filed.entryAt_of_mem {table : Table Input Output} (filed : table.Filed)
    {entry : Entry Input Output} (member : entry ∈ table.stored) :
    table.entryAt entry.position = some entry := by
  obtain ⟨place, stored⟩ := List.mem_iff_getElem?.mp member
  exact entryAt_of_place (filed.place_of_stored stored) stored

theorem mem_of_entryAt {table : Table Input Output} {position : Position}
    {entry : Entry Input Output} (found : table.entryAt position = some entry) :
    entry ∈ table.stored :=
  List.mem_of_find?_eq_some found

theorem Filed.contains_of_entryAt {table : Table Input Output} (filed : table.Filed)
    {position : Position} {entry : Entry Input Output}
    (found : table.entryAt position = some entry) : table.contains position = true := by
  rw [contains, filed.indexed]
  cases place_eq : table.place position with
  | none => simp [entryAt_eq_none place_eq] at found
  | some place => rfl

theorem filed_empty (name : String) : (empty name : Table Input Output).Filed where
  distinct := List.nodup_nil
  indexed _ := rfl

@[simp]
theorem entryAt_empty (name : String) (position : Position) :
    (empty name : Table Input Output).entryAt position = none :=
  rfl

/-- A table that holds one more entry than another, or holds it in place of another one. -/
structure Puts (before : Table Input Output) (entry : Entry Input Output)
    (after : Table Input Output) : Prop where
  /-- The table is filed. -/
  filed : after.Filed
  /-- What it holds. -/
  entryAt (position : Position) :
    after.entryAt position = if position = entry.position then some entry else before.entryAt position
  /-- The places of the other entries have not changed. -/
  place (position : Position) (other : position ≠ entry.position) :
    after.place position = before.place position
  /-- The generation has not changed. -/
  generation : after.generation = before.generation
  /-- The positions reused as a whole have not changed. -/
  liveRoots : after.liveRoots = before.liveRoots

theorem Filed.puts_set {before after : Table Input Output} (filed : before.Filed)
    {entry : Entry Input Output} {place : Nat} (found : before.place entry.position = some place)
    (stored : after.stored = before.stored.set place entry) (index : after.index = before.index)
    (generation : after.generation = before.generation)
    (liveRoots : after.liveRoots = before.liveRoots) : Puts before entry after := by
  obtain ⟨present, present_eq, same⟩ := place_eq_some found
  obtain ⟨bound, rfl⟩ := List.getElem?_eq_some_iff.mp present_eq
  have positions_eq : after.positions = before.positions := by
    rw [positions, stored, List.map_set, ← same, positions]
    refine List.ext_getElem (by simp) fun other left right => ?_
    rw [List.getElem_set]
    split
    · subst other
      simp
    · rfl
  have place_eq (position : Position) : after.place position = before.place position := by
    rw [Table.place, positions_eq, Table.place]
  refine ⟨⟨positions_eq ▸ filed.distinct, fun position => ?_⟩, fun position => ?_,
    fun position _ => place_eq position, generation, liveRoots⟩
  · rw [index, place_eq, filed.indexed]
  · rw [entryAt_eq_bind_place, place_eq, stored]
    split
    · next here => rw [here, found, Option.bind_some, List.getElem?_set_self bound]
    · next elsewhere =>
        rw [entryAt_eq_bind_place]
        cases other_eq : before.place position with
        | none => rfl
        | some other =>
            have apart : place ≠ other := by
              rintro rfl
              rw [← filed.place_of_stored present_eq, same] at found
              obtain ⟨occupant, occupant_eq, occupant_position⟩ := place_eq_some other_eq
              rw [present_eq, Option.some.injEq] at occupant_eq
              exact elsewhere (by rw [← occupant_position, ← occupant_eq, same])
            rw [Option.bind_some, Option.bind_some, List.getElem?_set_ne apart]

theorem Filed.puts_push {before after : Table Input Output} (filed : before.Filed)
    {entry : Entry Input Output} (vacant : before.place entry.position = none)
    (stored : after.stored = before.stored ++ [entry])
    (index : after.index = (entry.position, UInt32.ofNat before.size) :: before.index)
    (generation : after.generation = before.generation)
    (liveRoots : after.liveRoots = before.liveRoots) : Puts before entry after := by
  have positions_eq : after.positions = before.positions ++ [entry.position] := by
    simp [positions, stored]
  have fresh : entry.position ∉ before.positions := by
    intro member
    simpa using List.findIdx?_eq_none_iff.mp vacant entry.position member
  have place_self : after.place entry.position = some before.size := by
    have vacant_here : before.positions.findIdx? (fun other => other = entry.position) = none :=
      vacant
    rw [Table.place, positions_eq, List.findIdx?_append, vacant_here, size_eq_length]
    simp [positions]
  have place_other (position : Position) (other : position ≠ entry.position) :
      after.place position = before.place position := by
    have last : [entry.position].findIdx? (fun present => decide (present = position)) = none := by
      rw [List.findIdx?_singleton, if_neg (by simpa using Ne.symm other)]
    rw [Table.place, positions_eq, List.findIdx?_append, last]
    exact Option.or_none
  refine ⟨⟨?_, fun position => ?_⟩, fun position => ?_, place_other, generation, liveRoots⟩
  · rw [positions_eq, List.nodup_append]
    refine ⟨filed.distinct, by simp, ?_⟩
    rintro position member other last rfl
    exact fresh (List.mem_singleton.mp last ▸ member)
  · rw [index, List.lookup_cons]
    by_cases here : position = entry.position
    · rw [here, place_self]
      simp
    · rw [place_other position here, ← filed.indexed, beq_eq_false_iff_ne.mpr here]
  · rw [entryAt, stored, List.find?_append, ← entryAt]
    split
    · next here =>
        subst here
        simp [entryAt_eq_none vacant]
    · next elsewhere => simp [Ne.symm elsewhere]

/-- A table differs from an earlier one only within a region. -/
structure ChangesWithin (region : Position → Prop) (before after : Table Input Output) : Prop where
  /-- Elsewhere the table holds what it held. -/
  entryAt {position : Position} (outside : ¬ region position) :
    after.entryAt position = before.entryAt position
  /-- Elsewhere entries have not moved. -/
  place {position : Position} (outside : ¬ region position) :
    after.place position = before.place position
  /-- The generation has not changed. -/
  generation : after.generation = before.generation
  /-- Positions reused as a whole stay so. -/
  liveRoots {position : Position} : position ∈ before.liveRoots → position ∈ after.liveRoots

section Regions

variable {region other : Position → Prop}

theorem ChangesWithin.refl (region : Position → Prop) (table : Table Input Output) :
    ChangesWithin region table table :=
  ⟨fun _ => rfl, fun _ => rfl, rfl, id⟩

theorem ChangesWithin.trans {first second third : Table Input Output}
    (earlier : ChangesWithin region first second) (later : ChangesWithin region second third) :
    ChangesWithin region first third where
  entryAt outside := (later.entryAt outside).trans (earlier.entryAt outside)
  place outside := (later.place outside).trans (earlier.place outside)
  generation := later.generation.trans earlier.generation
  liveRoots member := later.liveRoots (earlier.liveRoots member)

theorem ChangesWithin.widen {before after : Table Input Output}
    (changes : ChangesWithin region before after) (wider : ∀ position, region position → other position) :
    ChangesWithin other before after where
  entryAt outside := changes.entryAt fun inside => outside (wider _ inside)
  place outside := changes.place fun inside => outside (wider _ inside)
  generation := changes.generation
  liveRoots := changes.liveRoots

theorem Puts.changesWithin {before after : Table Input Output} {entry : Entry Input Output}
    (puts : Puts before entry after) (inside : region entry.position) :
    ChangesWithin region before after where
  entryAt outside := by
    rw [puts.entryAt, if_neg]
    rintro rfl
    exact outside inside
  place outside := by
    apply puts.place
    rintro rfl
    exact outside inside
  generation := puts.generation
  liveRoots member := puts.liveRoots ▸ member

theorem ChangesWithin.addressable {position : Position} {before after : Table Input Output}
    (changes : ChangesWithin region before after) (outside : ¬ region position)
    (addressable : before.Addressable position) : after.Addressable position :=
  fun place found => addressable place (changes.place outside ▸ found)

end Regions

/-- The outcomes of a lookup in a filed table. -/
inductive Looked [BEq Input] (table : Table Input Output) (position : Position)
    (fingerprint : ContentHash) (inputs : Input) :
    Except TableError (Lookup Output × Table Input Output) → Prop
  | hit {entry : Entry Input Output} {after : Table Input Output}
      (found : table.entryAt position = some entry) (fingerprint_eq : entry.fingerprint = fingerprint)
      (same : entry.inputs == inputs)
      (puts : Puts table { entry with generation := table.generation } after) :
      Looked table position fingerprint inputs (.ok (.hit entry.output, after))
  | missed {outcome : Lookup Output} {stats : Stats} (outcome_eq : outcome = .stale ∨ outcome = .vacant)
      (addressable : table.Addressable position)
      (apart : ∀ entry, table.entryAt position = some entry → entry.fingerprint = fingerprint →
        (entry.inputs == inputs) = false) :
      Looked table position fingerprint inputs (.ok (outcome, { table with stats }))
  | misfiled {found : Position} (overfull : table.Overfull) :
      Looked table position fingerprint inputs (.error (.misfiled table.name position found))

private theorem stored_set {table : Table Input Output} {id : Arena.Id}
    {entry : Entry Input Output} {place : Nat} (address : id = UInt32.ofNat place)
    (addressed : place < UInt32.size) :
    (table.entries.set id entry).items.toList = table.stored.set place entry := by
  rw [Arena.set, Array.toList_setIfInBounds, address, UInt32.toNat_ofNat_of_lt' addressed]
  rfl

private theorem get?_ofNat {table : Table Input Output} {place : Nat} (addressed : place < UInt32.size) :
    table.entries.get? (UInt32.ofNat place) = table.stored[place]? := by
  rw [Arena.get?, UInt32.toNat_ofNat_of_lt' addressed]
  exact Array.getElem?_toList.symm

theorem Filed.looked [BEq Input] {table : Table Input Output} (filed : table.Filed)
    (position : Position) (fingerprint : ContentHash) (inputs : Input) :
    Looked table position fingerprint inputs (table.lookup position fingerprint inputs) := by
  rw [lookup, filed.indexed]
  cases found : table.place position with
  | none =>
      refine .missed (.inr rfl) (fun place place_eq => by simp [found] at place_eq) ?_
      intro entry entry_eq
      simp [entryAt_eq_none found] at entry_eq
  | some place =>
      obtain ⟨entry, entry_eq, same⟩ := place_eq_some found
      have bound : place < table.size :=
        size_eq_length table ▸ (List.getElem?_eq_some_iff.mp entry_eq).1
      by_cases addressed : place < UInt32.size
      · have addressable : table.Addressable position := by
          rintro other other_eq
          rw [found, Option.some.injEq] at other_eq
          exact other_eq ▸ addressed
        have entryAt_eq : table.entryAt position = some entry := entryAt_of_place found entry_eq
        simp only [Option.map_some, get?_ofNat addressed, entry_eq]
        rw [if_neg (not_not_intro same)]
        split
        · next unlike =>
            refine .missed (.inl rfl) addressable fun present present_eq alike => ?_
            rw [entryAt_eq, Option.some.injEq] at present_eq
            exact absurd (present_eq ▸ alike) unlike
        · next alike =>
            split
            · next equal =>
                refine .hit entryAt_eq (Decidable.not_not.mp alike) equal ?_
                exact filed.puts_set (same ▸ found) (stored_set rfl addressed) rfl rfl rfl
            · next unequal =>
                refine .missed (.inl rfl) addressable fun present present_eq _ => ?_
                rw [entryAt_eq, Option.some.injEq] at present_eq
                exact present_eq ▸ Bool.eq_false_iff.mpr unequal
      · have overfull : table.Overfull := by
          rw [Overfull]
          omega
        have address_bound : (UInt32.ofNat place).toNat < table.stored.length := by
          rw [← size_eq_length]
          exact Nat.lt_of_le_of_lt (Nat.mod_le place _) bound
        have occupant_eq : table.entries.get? (UInt32.ofNat place) =
            some table.stored[(UInt32.ofNat place).toNat] :=
          Array.getElem?_eq_getElem address_bound
        have elsewhere : table.stored[(UInt32.ofNat place).toNat].position ≠ position := by
          intro here
          have own := filed.place_of_stored (List.getElem?_eq_getElem address_bound)
          rw [here, found, Option.some.injEq] at own
          exact addressed (own ▸ (UInt32.ofNat place).toNat_lt)
        simp only [Option.map_some, occupant_eq, ne_eq, elsewhere, not_false_eq_true, if_true]
        exact .misfiled overfull

theorem Filed.store_ok {table : Table Input Output} (filed : table.Filed) {position : Position}
    (addressable : table.Addressable position) (fingerprint : ContentHash) (inputs : Input)
    (output : Output) :
    ∃ id after, table.store position fingerprint inputs output = .ok (id, after) ∧
      Puts table { position, fingerprint, inputs, output, generation := table.generation } after := by
  rw [store, filed.indexed]
  cases found : table.place position with
  | none => exact ⟨_, _, rfl, filed.puts_push found (Array.toList_push ..) rfl rfl rfl⟩
  | some place =>
      obtain ⟨entry, entry_eq, -⟩ := place_eq_some found
      have addressed : place < UInt32.size := addressable place found
      simp only [Option.map_some, get?_ofNat addressed, entry_eq]
      exact ⟨_, _, rfl, filed.puts_set found (stored_set rfl addressed) rfl rfl rfl⟩

theorem addressable_of_size_le {table : Table Input Output} (fits : table.size ≤ UInt32.size)
    (position : Position) : table.Addressable position := by
  intro place found
  obtain ⟨entry, stored, -⟩ := place_eq_some found
  have bound : place < table.size := size_eq_length table ▸ (List.getElem?_eq_some_iff.mp stored).1
  omega

theorem Filed.get?_eq_entryAt {table : Table Input Output} (filed : table.Filed)
    {position : Position} (addressable : table.Addressable position) :
    table.get? position = table.entryAt position := by
  rw [get?, filed.indexed, entryAt_eq_bind_place]
  cases found : table.place position with
  | none => rfl
  | some place => exact get?_ofNat (addressable place found)

theorem isSome_entryAt_iff {table : Table Input Output} {position : Position} :
    (table.entryAt position).isSome = true ↔ position ∈ table.positions := by
  simp [entryAt, positions]

theorem isSome_place_eq (table : Table Input Output) (position : Position) :
    (table.place position).isSome = (table.entryAt position).isSome := by
  rw [Bool.eq_iff_iff, isSome_entryAt_iff, place, List.findIdx?_isSome]
  simp

theorem Filed.contains_eq_isSome {table : Table Input Output} (filed : table.Filed)
    (position : Position) : table.contains position = (table.entryAt position).isSome := by
  rw [contains, filed.indexed, Option.isSome_map, isSome_place_eq]

/-- A lookup finds nothing exactly where there is no entry. -/
theorem Filed.lookup_of_vacant [BEq Input] {table : Table Input Output} (filed : table.Filed)
    {position : Position} (vacant : table.entryAt position = none) (fingerprint : ContentHash)
    (inputs : Input) :
    table.lookup position fingerprint inputs =
      .ok (.vacant, { table with stats := { table.stats with vacant := table.stats.vacant + 1 } }) := by
  have unplaced : table.place position = none := by
    have same := isSome_place_eq table position
    rw [vacant] at same
    exact Option.not_isSome_iff_eq_none.mp (by rw [same]; exact Bool.false_ne_true)
  rw [lookup, filed.indexed, unplaced]
  rfl

theorem Filed.lookup_ne_vacant [BEq Input] {table after : Table Input Output}
    (filed : table.Filed) {position : Position} {entry : Entry Input Output}
    (found : table.entryAt position = some entry) {fingerprint : ContentHash} {inputs : Input} :
    table.lookup position fingerprint inputs ≠ .ok (.vacant, after) := by
  have placed : (table.place position).isSome = true := by
    rw [isSome_place_eq, found]
    rfl
  obtain ⟨place, place_eq⟩ := Option.isSome_iff_exists.mp placed
  rw [lookup, filed.indexed, place_eq]
  simp only [Option.map_some]
  repeat' split
  all_goals simp

/-- Entries have distinct positions, so there are as many of them as occupied positions. -/
theorem Filed.size_eq_card {table : Table Input Output} (filed : table.Filed)
    {occupied : Finset Position}
    (mem_occupied : ∀ position, position ∈ occupied ↔ (table.entryAt position).isSome = true) :
    table.size = occupied.card := by
  have same : table.positions.toFinset = occupied := by
    ext position
    rw [List.mem_toFinset, mem_occupied, isSome_entryAt_iff]
  rw [← same, List.toFinset_card_of_nodup filed.distinct, positions, List.length_map, size_eq_length]

theorem Filed.begin {table : Table Input Output} (filed : table.Filed) : table.begin.Filed :=
  ⟨filed.distinct, filed.indexed⟩

@[simp]
theorem entryAt_begin (table : Table Input Output) (position : Position) :
    table.begin.entryAt position = table.entryAt position :=
  rfl

theorem Filed.keepSubtree {table : Table Input Output} (filed : table.Filed) (root : Position) :
    (table.keepSubtree root).Filed :=
  ⟨filed.distinct, filed.indexed⟩

@[simp]
theorem entryAt_keepSubtree (table : Table Input Output) (root position : Position) :
    (table.keepSubtree root).entryAt position = table.entryAt position :=
  rfl

theorem filed_clear (table : Table Input Output) : table.clear.Filed where
  distinct := List.nodup_nil
  indexed _ := rfl

@[simp]
theorem entryAt_clear (table : Table Input Output) (position : Position) :
    table.clear.entryAt position = none :=
  rfl

private theorem map_fst_filter_zipIdx {α : Type} (keep : α → Bool) (items : List α) (start : Nat) :
    ((items.zipIdx start).filter fun entry => keep entry.1).map Prod.fst = items.filter keep := by
  induction items generalizing start with
  | nil => rfl
  | cons item rest induction =>
      rw [List.zipIdx_cons, List.filter_cons, List.filter_cons]
      split <;> simp [induction]

theorem stored_sweep (table : Table Input Output) :
    table.sweep.2.stored = table.stored.filter table.isLive := by
  rw [← map_fst_filter_zipIdx table.isLive table.stored 0]
  simp only [sweep, stored, Arena.compact, Arena.entries, List.filter_map, List.map_map]
  rfl

private theorem lookup_zipIdx (entries : List (Entry Input Output)) (position : Position)
    (start : Nat) :
    ((entries.zipIdx start).map fun entry => (entry.1.position, UInt32.ofNat entry.2)).lookup
        position =
      ((entries.map Entry.position).findIdx? fun other => other = position).map fun place =>
        UInt32.ofNat (place + start) := by
  induction entries generalizing start with
  | nil => rfl
  | cons entry rest induction =>
      rw [List.zipIdx_cons, List.map_cons, List.lookup_cons, List.map_cons, List.findIdx?_cons]
      by_cases here : entry.position = position
      · simp [here]
      · rw [beq_eq_false_iff_ne.mpr (Ne.symm here), induction]
        simp only [here, decide_false, Bool.false_eq_true, if_false, Option.map_map]
        congr 1
        funext place
        change UInt32.ofNat (place + (start + 1)) = UInt32.ofNat (place + 1 + start)
        rw [Nat.add_right_comm, Nat.add_assoc]

theorem Filed.sweep {table : Table Input Output} (filed : table.Filed) : table.sweep.2.Filed where
  distinct := by
    rw [positions, stored_sweep]
    exact filed.distinct.sublist (List.filter_sublist.map Entry.position)
  indexed position := by
    have index_eq : table.sweep.2.index =
        (table.sweep.2.stored.zipIdx 0).map fun entry =>
          (entry.1.position, UInt32.ofNat entry.2) := by
      simp only [Table.sweep, stored, Arena.entries, List.map_map]
      rfl
    rw [index_eq, lookup_zipIdx, place, positions]
    rfl

theorem Filed.entryAt_sweep {table : Table Input Output} (filed : table.Filed)
    (position : Position) :
    table.sweep.2.entryAt position = (table.entryAt position).filter table.isLive := by
  have distinct := filed.distinct
  rw [entryAt, stored_sweep, entryAt]
  rw [positions] at distinct
  generalize table.stored = stored at distinct
  induction stored with
  | nil => rfl
  | cons entry rest induction =>
      obtain ⟨absent, distinct⟩ := List.nodup_cons.mp distinct
      by_cases here : entry.position = position
      · have nowhere : ∀ other ∈ rest, ¬ other.position = position := by
          rintro other member rfl
          exact absent (here ▸ List.mem_map_of_mem member)
        have gone : (rest.filter table.isLive).find? (fun other => other.position = position) =
            none := by
          rw [List.find?_eq_none]
          intro other member
          simpa using nowhere other (List.mem_filter.mp member).1
        rw [List.find?_cons_of_pos (by simpa using here), Option.filter_some, List.filter_cons]
        split
        · rw [List.find?_cons_of_pos (by simpa using here)]
        · exact gone
      · rw [List.find?_cons_of_neg (by simpa using here), ← induction distinct, List.filter_cons]
        split
        · rw [List.find?_cons_of_neg (by simpa using here)]
        · rfl

end Phrasing.Memo.Table
