import Mathlib.Data.List.Basic
import Phrasing.Arena

/-!
# Compaction of an arena

Compaction renumbers the items that are kept in the order that they were in.  It is what a loop does
that asks about one item after another, pushes each item that is kept to a new arena and notes the
address that it gets there.  The loop asks about every item once, so it may ask with a state.
-/

namespace Phrasing.Arena

variable {α : Type}

/-- An arena holds the kept items of another one, and a list tells which new address replaces which
old one. -/
structure Compacts (arena : Arena α) (keep : Id → α → Bool) (after : Arena α)
    (renumbering : List (Id × Id)) : Prop where
  /-- The items are those at the old addresses of the list, in the order of the list. -/
  items_eq : after.items.toList.map some = (renumbering.map Prod.fst).map arena.get?
  /-- The old addresses are those of the items that are kept, and no others. -/
  mem_old_iff (id : Id) : id ∈ renumbering.map Prod.fst ↔
    ∃ item, arena.get? id = some item ∧ keep id item = true
  /-- Every old address is listed once, in increasing order. -/
  old_increasing : (renumbering.map Prod.fst).Pairwise (· < ·)
  /-- The new addresses are the numbers from zero up to the new size, in increasing order. -/
  new_eq : (renumbering.map fun replaced => replaced.2.toNat) = List.range after.size
  /-- The item at a new address is the one at the old address that it replaces. -/
  get?_new {old new : Id} (replaced : (old, new) ∈ renumbering) :
    after.get? new = arena.get? old

section Entries

variable {arena : Arena α}

theorem map_fst_entries (arena : Arena α) :
    arena.entries.map Prod.fst = (List.range arena.size).map UInt32.ofNat := by
  rw [entries, List.map_map, size, ← Array.length_toList, List.range_eq_range',
    ← List.zipIdx_map_snd, List.map_map]
  rfl

theorem mem_entries (fits : arena.size ≤ UInt32.size) {id : Id} {item : α} :
    (id, item) ∈ arena.entries ↔ arena.get? id = some item := by
  rw [entries, List.mem_map, get?, ← Array.getElem?_toList]
  constructor
  · rintro ⟨⟨found, place⟩, member, same⟩
    obtain ⟨rfl, rfl⟩ := Prod.mk.inj same
    have stored := List.mem_zipIdx_iff_getElem?.mp member
    have bound := (List.getElem?_eq_some_iff.mp stored).1
    rwa [UInt32.toNat_ofNat_of_lt' (Nat.lt_of_lt_of_le bound fits)]
  · intro stored
    exact ⟨(item, id.toNat), List.mem_zipIdx_iff_getElem?.mpr stored, by simp⟩

theorem increasing_entries (fits : arena.size ≤ UInt32.size) :
    (arena.entries.map Prod.fst).Pairwise (· < ·) := by
  rw [map_fst_entries, List.pairwise_map]
  refine List.pairwise_lt_range.imp_of_mem fun lower upper less => ?_
  rw [List.mem_range] at lower upper
  rwa [UInt32.lt_iff_toNat_lt, UInt32.toNat_ofNat_of_lt' (Nat.lt_of_lt_of_le lower fits),
    UInt32.toNat_ofNat_of_lt' (Nat.lt_of_lt_of_le upper fits)]

end Entries

/-- The arena of some entries, and the new address of each of their old ones. -/
def gathered (kept : List (Id × α)) : Arena α × List (Id × Id) :=
  (⟨(kept.map Prod.snd).toArray⟩,
    kept.zipIdx.map fun entry => (entry.1.1, UInt32.ofNat entry.2))

theorem compact_eq_gathered (arena : Arena α) (keep : Id → α → Bool) :
    arena.compact keep = gathered (arena.entries.filter fun entry => keep entry.1 entry.2) :=
  rfl

section Gathered

variable (kept : List (Id × α))

theorem size_gathered : (gathered kept).1.size = kept.length := by
  simp [gathered, size]

theorem map_fst_gathered : (gathered kept).2.map Prod.fst = kept.map Prod.fst := by
  have olds : (kept.zipIdx.map Prod.fst).map Prod.fst = kept.map Prod.fst := by
    rw [List.zipIdx_map_fst]
  rw [List.map_map] at olds
  rw [gathered, List.map_map]
  exact olds

theorem map_new_gathered {kept : List (Id × α)} (fits : kept.length ≤ UInt32.size) :
    ((gathered kept).2.map fun replaced => replaced.2.toNat) = List.range kept.length := by
  have toNat_eq (entry : (Id × α) × Nat) (member : entry ∈ kept.zipIdx) :
      (UInt32.ofNat entry.2).toNat = entry.2 := by
    have bound := (List.mem_zipIdx' member).1
    exact UInt32.toNat_ofNat_of_lt' (Nat.lt_of_lt_of_le bound fits)
  rw [gathered, List.map_map, List.range_eq_range', ← List.zipIdx_map_snd]
  exact List.map_congr_left toNat_eq

theorem get?_gathered {kept : List (Id × α)} (fits : kept.length ≤ UInt32.size) {old new : Id}
    (replaced : (old, new) ∈ (gathered kept).2) :
    ∃ item, (old, item) ∈ kept ∧ (gathered kept).1.get? new = some item := by
  obtain ⟨⟨⟨id, item⟩, place⟩, member, same⟩ := List.mem_map.mp replaced
  obtain ⟨rfl, rfl⟩ := Prod.mk.inj same
  have stored := List.mem_zipIdx_iff_getElem?.mp member
  have bound := (List.getElem?_eq_some_iff.mp stored).1
  refine ⟨item, List.mem_of_getElem? stored, ?_⟩
  rw [get?, UInt32.toNat_ofNat_of_lt' (Nat.lt_of_lt_of_le bound fits)]
  simp [gathered, stored]

theorem gathered_concat (entry : Id × α) :
    gathered (kept ++ [entry]) =
      ((gathered kept).1.push entry.2, (gathered kept).2 ++ [(entry.1, (gathered kept).1.next)]) := by
  simp [gathered, push, next, size, List.zipIdx_append]

end Gathered

theorem compacts_compact {arena : Arena α} (fits : arena.size ≤ UInt32.size)
    (keep : Id → α → Bool) :
    Compacts arena keep (arena.compact keep).1 (arena.compact keep).2 := by
  rw [compact_eq_gathered]
  generalize kept_eq : (arena.entries.filter fun entry => keep entry.1 entry.2) = kept
  have sublist : kept.Sublist arena.entries := kept_eq ▸ List.filter_sublist
  have stored {id : Id} {item : α} (member : (id, item) ∈ kept) : arena.get? id = some item :=
    (mem_entries fits).mp (sublist.subset member)
  have kept_fits : kept.length ≤ UInt32.size := by
    have fewer := sublist.length_le
    simp only [entries, List.length_map, List.length_zipIdx, Array.length_toList] at fewer
    exact Nat.le_trans fewer fits
  refine ⟨?_, fun id => ?_, ?_, ?_, fun replaced => ?_⟩
  · rw [map_fst_gathered, gathered, List.map_map, List.map_map]
    exact List.map_congr_left fun entry member => (stored member).symm
  · rw [map_fst_gathered, List.mem_map]
    constructor
    · rintro ⟨⟨id, item⟩, member, rfl⟩
      rw [← kept_eq, List.mem_filter] at member
      exact ⟨item, (mem_entries fits).mp member.1, member.2⟩
    · rintro ⟨item, here, accepted⟩
      refine ⟨(id, item), ?_, rfl⟩
      rw [← kept_eq, List.mem_filter]
      exact ⟨(mem_entries fits).mpr here, accepted⟩
  · rw [map_fst_gathered]
    exact (increasing_entries fits).sublist (sublist.map _)
  · rw [map_new_gathered kept_fits, size_gathered]
  · obtain ⟨item, member, found⟩ := get?_gathered kept_fits replaced
    rw [found, stored member]

/-- The entries about which the answer was yes. -/
def accepted : List (Id × α) → List Bool → List (Id × α)
  | entry :: entries, answer :: answers =>
      (if answer then [entry] else []) ++ accepted entries answers
  | _, _ => []

theorem accepted_eq_filter (entries : List (Id × α)) (answers : List Bool) (start : Nat) :
    accepted entries answers =
      ((entries.zipIdx start).filter fun placed => (answers[placed.2 - start]?).getD false).map
        Prod.fst := by
  induction entries generalizing answers start with
  | nil => rfl
  | cons entry entries induction =>
      cases answers with
      | nil => simp [accepted]
      | cons answer answers =>
          have later : ∀ placed ∈ entries.zipIdx (start + 1),
              ((answer :: answers)[placed.2 - start]?).getD false =
                (answers[placed.2 - (start + 1)]?).getD false := by
            intro placed member
            have start_lt := List.le_snd_of_mem_zipIdx member
            rw [show placed.2 - start = placed.2 - (start + 1) + 1 by omega,
              List.getElem?_cons_succ]
          rw [accepted, induction answers (start + 1), List.zipIdx_cons, List.filter_cons,
            List.filter_congr later]
          cases answer <;> simp

/-- The entry about which an answer is given can be told from its address. -/
theorem accepted_entries {arena : Arena α} (fits : arena.size ≤ UInt32.size)
    (answers : List Bool) :
    gathered (accepted arena.entries answers) =
      arena.compact fun id _ => (answers[id.toNat]?).getD false := by
  have address_eq : ∀ placed ∈ arena.entries.zipIdx, placed.1.1.toNat = placed.2 := by
    intro placed member
    have stored := List.mem_zipIdx_iff_getElem?.mp member
    rw [entries, List.getElem?_map, List.getElem?_zipIdx, Option.map_map,
      Option.map_eq_some_iff] at stored
    obtain ⟨item, present, here⟩ := stored
    have bound := (List.getElem?_eq_some_iff.mp present).1
    rw [← here, Function.comp_apply, Nat.zero_add]
    exact UInt32.toNat_ofNat_of_lt' (Nat.lt_of_lt_of_le bound fits)
  have same : ∀ placed ∈ arena.entries.zipIdx, (answers[placed.2 - 0]?).getD false =
      (answers[placed.1.1.toNat]?).getD false := fun placed member => by
    rw [address_eq placed member, Nat.sub_zero]
  have filtered : (arena.entries.zipIdx.map Prod.fst).filter
      (fun entry => (answers[entry.1.toNat]?).getD false) = accepted arena.entries answers := by
    rw [accepted_eq_filter _ _ 0, List.filter_congr same, List.filter_map]
    rfl
  rw [← filtered, List.zipIdx_map_fst, compact_eq_gathered]

section Loop

variable {m : Type → Type} [Monad m]

/-- One round of the loop: the item is pushed if it is kept. -/
def compactStep (keep : Id → α → m Bool) (state : Arena α × List (Id × Id)) (entry : Id × α) :
    m (Arena α × List (Id × Id)) := do
  if ← keep entry.1 entry.2 then
    return (state.1.push entry.2, state.2 ++ [(entry.1, state.1.next)])
  else return state

/-- Compaction as a loop, which asks about one item after another. -/
def compactLoop (arena : Arena α) (keep : Id → α → m Bool) : m (Arena α × List (Id × Id)) :=
  arena.entries.foldlM (compactStep keep) (empty, [])

variable [LawfulMonad m]

theorem foldlM_compactStep (keep : Id → α → m Bool) (entries kept : List (Id × α)) :
    entries.foldlM (compactStep keep) (gathered kept) = do
      let answers ← entries.mapM fun entry => keep entry.1 entry.2
      return gathered (kept ++ accepted entries answers) := by
  induction entries generalizing kept with
  | nil => simp [accepted]
  | cons entry entries induction =>
      rw [List.foldlM_cons, List.mapM_cons, compactStep]
      simp only [bind_assoc, pure_bind]
      refine bind_congr fun answer => ?_
      cases answer with
      | false => simp [induction, accepted]
      | true => simp [← gathered_concat, induction, accepted]

/-- The loop asks about every item once, in order, and then compacts with the answers. -/
theorem compactLoop_eq {arena : Arena α} (fits : arena.size ≤ UInt32.size)
    (keep : Id → α → m Bool) :
    arena.compactLoop keep = do
      let answers ← arena.entries.mapM fun entry => keep entry.1 entry.2
      return arena.compact fun id _ => (answers[id.toNat]?).getD false := by
  have run := foldlM_compactStep keep arena.entries []
  simp only [List.nil_append, accepted_entries fits] at run
  exact run

end Loop

/-- An arena of fewer items than there are addresses is compacted to the items that are kept, in their
old order and with new addresses from zero up, whatever is kept.  The loop that asks about one item
after another does so with the answers it gets, where these may depend on a state. -/
theorem compact_renumbers {arena : Arena α} (few : arena.size < UInt32.size) :
    (∀ keep : Id → α → Bool,
      Compacts arena keep (arena.compact keep).1 (arena.compact keep).2) ∧
    ∀ {σ : Type} (keep : Id → α → StateM σ Bool),
      arena.compactLoop keep = do
        let answers ← arena.entries.mapM fun entry => keep entry.1 entry.2
        return arena.compact fun id _ => (answers[id.toNat]?).getD false :=
  ⟨compacts_compact (Nat.le_of_lt few), compactLoop_eq (Nat.le_of_lt few)⟩

/-- Four items. -/
private def quartet : Arena Nat :=
  ⟨#[1, 2, 3, 4]⟩

/-- Keeps an item if the one before it was not kept. -/
private def alternating (_ : Id) (_ : Nat) : StateM Bool Bool :=
  modifyGet fun kept => (!kept, !kept)

/-- Keeping the even ones of four items moves the second to the front and the fourth behind it. -/
theorem compact_renumbers_quartet :
    quartet.size < UInt32.size ∧
      quartet.compact (fun _ item => item % 2 = 0) = (⟨#[2, 4]⟩, [(1, 0), (3, 1)]) ∧
      Compacts quartet (fun _ item => item % 2 = 0) ⟨#[2, 4]⟩ [(1, 0), (3, 1)] ∧
      quartet.compactLoop alternating true = (quartet.compact fun id _ => id % 2 = 1, true) :=
  ⟨by decide, rfl, (compact_renumbers (by decide)).1 _,
    congrFun ((compact_renumbers (by decide)).2 alternating) true⟩

end Phrasing.Arena
