import Phrasing.Store.Basic

/-!
# Entries by content

The expansions that a store remembers by content form a list of pairs, which stands for a partial
function of content hashes: putting an entry changes it at one hash, and dropping entries restricts it.
-/

namespace Phrasing.Store

variable {hash other : ContentHash} {entry : AdHocEntry} {adHoc : List (ContentHash × AdHocEntry)}

theorem mem_putAdHoc {stored : ContentHash × AdHocEntry}
    (member : stored ∈ putAdHoc hash entry adHoc) : stored = (hash, entry) ∨ stored ∈ adHoc := by
  induction adHoc with
  | nil => exact .inl (List.mem_singleton.mp member)
  | cons first rest induction =>
      obtain ⟨other, present⟩ := first
      rw [putAdHoc] at member
      split at member
      · exact (List.mem_cons.mp member).imp_right (List.mem_cons_of_mem _)
      · rcases List.mem_cons.mp member with rfl | member
        · exact .inr List.mem_cons_self
        · exact (induction member).imp_right (List.mem_cons_of_mem _)

theorem mem_of_lookup (found : adHoc.lookup hash = some entry) : (hash, entry) ∈ adHoc := by
  obtain ⟨before, after, rfl, -⟩ := List.lookup_eq_some_iff.mp found
  exact List.mem_append_right before List.mem_cons_self

theorem lookup_first (hash other : ContentHash) (entry : AdHocEntry)
    (rest : List (ContentHash × AdHocEntry)) :
    ((other, entry) :: rest).lookup hash = if hash = other then some entry else rest.lookup hash := by
  rw [List.lookup_cons]
  by_cases here : hash = other
  · simp [here]
  · rw [beq_eq_false_iff_ne.mpr here, if_neg here]

theorem lookup_putAdHoc (hash other : ContentHash) (entry : AdHocEntry)
    (adHoc : List (ContentHash × AdHocEntry)) :
    (putAdHoc hash entry adHoc).lookup other =
      if other = hash then some entry else adHoc.lookup other := by
  induction adHoc with
  | nil => exact lookup_first other hash entry []
  | cons first rest induction =>
      obtain ⟨present, stored⟩ := first
      rw [putAdHoc]
      split
      · next same =>
          rw [lookup_first, lookup_first, same]
          split <;> rfl
      · next apart =>
          rw [lookup_first, lookup_first, induction]
          by_cases here : other = present
          · rw [if_pos here, if_neg (here ▸ apart), if_pos here]
          · rw [if_neg here, if_neg here]

/-- Putting an entry adds one, unless it takes the place of another. -/
theorem length_putAdHoc (hash : ContentHash) (entry : AdHocEntry)
    (adHoc : List (ContentHash × AdHocEntry)) :
    (putAdHoc hash entry adHoc).length + (if (adHoc.lookup hash).isSome then 1 else 0) =
      adHoc.length + 1 := by
  induction adHoc with
  | nil => rfl
  | cons first rest induction =>
      obtain ⟨present, stored⟩ := first
      rw [putAdHoc, lookup_first]
      by_cases same : present = hash
      · simp [same]
      · rw [if_neg same, if_neg (Ne.symm same), List.length_cons, List.length_cons]
        omega

/-- No two entries have the same hash. -/
def Distinct (adHoc : List (ContentHash × AdHocEntry)) : Prop :=
  (adHoc.map Prod.fst).Nodup

theorem Distinct.put (distinct : Distinct adHoc) (hash : ContentHash) (entry : AdHocEntry) :
    Distinct (putAdHoc hash entry adHoc) := by
  induction adHoc with
  | nil => simp [Distinct, putAdHoc]
  | cons first rest induction =>
      obtain ⟨present, stored⟩ := first
      obtain ⟨absent, distinct⟩ := List.nodup_cons.mp distinct
      rw [putAdHoc]
      split
      · next same => exact List.nodup_cons.mpr ⟨same ▸ absent, distinct⟩
      · next apart =>
          refine List.nodup_cons.mpr ⟨fun member => ?_, induction distinct⟩
          obtain ⟨other, member, same⟩ := List.mem_map.mp member
          rcases mem_putAdHoc member with rfl | member
          · exact apart same.symm
          · exact absent (same ▸ List.mem_map_of_mem member)

theorem Distinct.filter (distinct : Distinct adHoc) (keep : ContentHash × AdHocEntry → Bool) :
    Distinct (adHoc.filter keep) :=
  distinct.sublist (List.filter_sublist.map Prod.fst)

/-- Dropping entries restricts what is found. -/
theorem Distinct.lookup_filter (distinct : Distinct adHoc)
    (keep : ContentHash × AdHocEntry → Bool) (hash : ContentHash) :
    (adHoc.filter keep).lookup hash = (adHoc.lookup hash).filter fun entry => keep (hash, entry) := by
  induction adHoc with
  | nil => rfl
  | cons first rest induction =>
      obtain ⟨present, stored⟩ := first
      obtain ⟨absent, distinct⟩ := List.nodup_cons.mp distinct
      rw [List.filter_cons, lookup_first]
      by_cases here : hash = present
      · have gone : (rest.filter keep).lookup hash = none := by
          rw [List.lookup_eq_none_iff]
          intro other member
          have listed : other.1 ∈ rest.map Prod.fst :=
            List.mem_map_of_mem (List.mem_filter.mp member).1
          have apart : hash ≠ other.1 := fun same => absent (here ▸ same ▸ listed)
          simpa using apart
        rw [if_pos here, Option.filter_some, ← here]
        split
        · rw [lookup_first, if_pos rfl]
        · exact gone
      · rw [if_neg here, ← induction distinct]
        split
        · rw [lookup_first, if_neg here]
        · rfl

/-- A look-up puts a new stamp on the entry that it finds, and changes no entry if it finds none. -/
theorem adHoc_lookupAdHoc (store : Store) (element : Element) :
    ((store.lookupAdHoc element).1.isSome = true ∧
        (store.adHoc.lookup element.contentHash).isSome = true ∧
        ∃ entry : AdHocEntry, (store.lookupAdHoc element).2.adHoc =
          putAdHoc element.contentHash { entry with generation := store.generation } store.adHoc) ∨
      (store.lookupAdHoc element).1 = none ∧ (store.lookupAdHoc element).2.adHoc = store.adHoc := by
  rw [lookupAdHoc]
  split
  · exact .inr ⟨rfl, rfl⟩
  · next entry found =>
      split
      · exact .inl ⟨rfl, by rw [found]; rfl, entry, rfl⟩
      · exact .inr ⟨rfl, rfl⟩

/-- Looking up an expansion by content changes nothing but what is remembered by content. -/
theorem lookupAdHoc_store (store : Store) (element : Element) :
    ∃ adHoc adHocStats,
      (store.lookupAdHoc element).2 = { store with adHoc, adHocStats } := by
  rw [lookupAdHoc]
  split
  · exact ⟨_, _, rfl⟩
  · split
    · exact ⟨_, _, rfl⟩
    · exact ⟨_, _, rfl⟩

end Phrasing.Store
