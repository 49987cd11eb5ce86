import Phrasing.Proofs.Expansion.Sameness
import Phrasing.Proofs.Memo.Filing

/-!
# Entries that last

What a table keeps for given inputs, up to the form that comparison looks at, and when an entry
outlives a sweep: when the current generation stored or reused it, or reused a position above it as
a whole.
-/

namespace Phrasing

namespace Memo.Table

variable {Input Output : Type}

theorem isLive_iff {table : Table Input Output} {entry : Entry Input Output} :
    table.isLive entry = true ↔
      entry.generation = table.generation ∨
        ∃ root ∈ table.liveRoots, entry.position.startsWith root = true := by
  simp [isLive, Position.mem_ancestors, and_comm]

theorem isLive_of_liveRoots {before after : Table Input Output} {entry : Entry Input Output}
    (live : before.isLive entry = true) (generation : after.generation = before.generation)
    (liveRoots : ∀ root ∈ before.liveRoots, root ∈ after.liveRoots) :
    after.isLive entry = true := by
  rw [isLive_iff] at live ⊢
  rcases live with current | ⟨root, member, below⟩
  · exact .inl (current.trans generation.symm)
  · exact .inr ⟨root, liveRoots root member, below⟩

theorem isLive_keepSubtree {table : Table Input Output} {root : Position}
    {entry : Entry Input Output} :
    (table.keepSubtree root).isLive entry = true ↔
      table.isLive entry = true ∨ entry.position.startsWith root = true := by
  simp only [isLive_iff, keepSubtree, List.mem_cons, exists_eq_or_imp]
  rw [← or_assoc, or_right_comm]

theorem Puts.isLive_eq {before after : Table Input Output} {entry : Entry Input Output}
    (puts : Puts before entry after) : after.isLive = before.isLive := by
  funext present
  rw [isLive, isLive, puts.generation, puts.liveRoots]

theorem not_isLive_begin {table : Table Input Output} {entry : Entry Input Output}
    (earlier : entry.generation ≤ table.generation) : ¬ table.begin.isLive entry = true := by
  rw [isLive_iff]
  rintro (current | ⟨root, member, -⟩)
  · change entry.generation = table.generation + 1 at current
    omega
  · cases member

/-- The table has an entry for inputs of a given form, which is live if so required. -/
structure Keeps [Structured Input] (table : Table Input Output) (live : Prop) (position : Position)
    (inputs : Input) (entry : Entry Input Output) : Prop where
  /-- The entry is that of the position. -/
  found : table.entryAt position = some entry
  /-- Its inputs have the form. -/
  form_eq : Structured.form .comparison entry.inputs = Structured.form .comparison inputs
  /-- It outlives a sweep. -/
  isLive : live → table.isLive entry = true

section Keeping

variable [Structured Input] {table before after : Table Input Output} {live : Prop}
  {position : Position} {inputs : Input} {entry : Entry Input Output}

theorem Keeps.weaken {weaker : Prop} (keeps : table.Keeps live position inputs entry)
    (implies : weaker → live) : table.Keeps weaker position inputs entry :=
  ⟨keeps.found, keeps.form_eq, fun required => keeps.isLive (implies required)⟩

theorem Keeps.frame {region : Position → Prop} (keeps : before.Keeps live position inputs entry)
    (changes : ChangesWithin region before after) (outside : ¬ region position) :
    after.Keeps live position inputs entry where
  found := (changes.entryAt outside).trans keeps.found
  form_eq := keeps.form_eq
  isLive required :=
    isLive_of_liveRoots (keeps.isLive required) changes.generation fun _ => changes.liveRoots

theorem Keeps.keepSubtree {root : Position} {other : Prop}
    (keeps : table.Keeps live position inputs entry)
    (implies : other → live ∨ position.startsWith root = true) :
    (table.keepSubtree root).Keeps other position inputs entry where
  found := keeps.found
  form_eq := keeps.form_eq
  isLive required := by
    rw [isLive_keepSubtree, position_of_entryAt keeps.found]
    exact (implies required).imp_left keeps.isLive

theorem Keeps.begin (keeps : table.Keeps live position inputs entry) :
    table.begin.Keeps False position inputs entry :=
  ⟨keeps.found, keeps.form_eq, False.elim⟩

theorem Keeps.sweep (keeps : table.Keeps live position inputs entry) (filed : table.Filed)
    (required : live) : table.sweep.2.Keeps live position inputs entry where
  found := by
    rw [filed.entryAt_sweep, keeps.found]
    exact Option.filter_eq_some_iff.mpr ⟨rfl, keeps.isLive required⟩
  form_eq := keeps.form_eq
  isLive required := keeps.isLive required

theorem Puts.keeps (puts : Puts before entry after) (here : entry.position = position)
    (current : entry.generation = before.generation)
    (form_eq : Structured.form .comparison entry.inputs = Structured.form .comparison inputs) :
    after.Keeps True position inputs entry where
  found := by rw [puts.entryAt, if_pos here.symm]
  form_eq := form_eq
  isLive _ := isLive_iff.mpr (.inl (current.trans puts.generation.symm))

end Keeping

/-- A filed table of proper entries, none of which is of a generation to come. -/
structure Consistent (proper : Entry Input Output → Prop) (table : Table Input Output) : Prop where
  /-- The table is filed. -/
  filed : table.Filed
  /-- Entries are proper. -/
  proper {position : Position} {entry : Entry Input Output} :
    table.entryAt position = some entry → proper entry
  /-- Generations have begun. -/
  generation_le {position : Position} {entry : Entry Input Output} :
    table.entryAt position = some entry → entry.generation ≤ table.generation

section Consistency

variable {proper : Entry Input Output → Prop} {table before after : Table Input Output}

theorem consistent_empty (name : String) : (empty name : Table Input Output).Consistent proper where
  filed := filed_empty name
  proper found := nomatch found
  generation_le found := nomatch found

theorem Consistent.imp {weaker : Entry Input Output → Prop} (consistent : table.Consistent proper)
    (implies : ∀ entry, proper entry → weaker entry) : table.Consistent weaker where
  filed := consistent.filed
  proper found := implies _ (consistent.proper found)
  generation_le := consistent.generation_le

theorem Consistent.begin (consistent : table.Consistent proper) : table.begin.Consistent proper where
  filed := consistent.filed.begin
  proper := consistent.proper
  generation_le found := Nat.le_succ_of_le (consistent.generation_le found)

theorem Consistent.count (consistent : table.Consistent proper) (stats : Stats) :
    { table with stats }.Consistent proper where
  filed := ⟨consistent.filed.distinct, consistent.filed.indexed⟩
  proper := consistent.proper
  generation_le := consistent.generation_le

theorem Consistent.keepSubtree (consistent : table.Consistent proper) (root : Position) :
    (table.keepSubtree root).Consistent proper where
  filed := consistent.filed.keepSubtree root
  proper := consistent.proper
  generation_le := consistent.generation_le

theorem Consistent.sweep (consistent : table.Consistent proper) :
    table.sweep.2.Consistent proper := by
  have before_sweep {position : Position} {entry : Entry Input Output}
      (found : table.sweep.2.entryAt position = some entry) :
      table.entryAt position = some entry := by
    rw [consistent.filed.entryAt_sweep] at found
    exact (Option.filter_eq_some_iff.mp found).1
  exact {
    filed := consistent.filed.sweep
    proper := fun found => consistent.proper (before_sweep found)
    generation_le := fun found => consistent.generation_le (before_sweep found) }

theorem Consistent.put {entry : Entry Input Output} (consistent : before.Consistent proper)
    (puts : Puts before entry after) (proper_entry : proper entry)
    (current : entry.generation = before.generation) : after.Consistent proper := by
  have new_or_old {position : Position} {present : Entry Input Output}
      (found : after.entryAt position = some present) :
      present = entry ∨ before.entryAt position = some present := by
    rw [puts.entryAt] at found
    split at found
    · exact .inl (Option.some.inj found).symm
    · exact .inr found
  refine ⟨puts.filed, fun found => ?_, fun found => ?_⟩
  · rcases new_or_old found with rfl | old
    · exact proper_entry
    · exact consistent.proper old
  · rw [puts.generation]
    rcases new_or_old found with rfl | old
    · exact Nat.le_of_eq current
    · exact consistent.generation_le old

end Consistency

/-- A position is occupied, by an entry that outlives a sweep if so required. -/
def Holds (table : Table Input Output) (live : Prop) (position : Position) : Prop :=
  ∃ entry, table.entryAt position = some entry ∧ (live → table.isLive entry = true)

/-- Occupied positions stay occupied, and what outlives a sweep is not given up for what does not. -/
structure Retains (before after : Table Input Output) : Prop where
  /-- Positions are still occupied. -/
  holds {live : Prop} {position : Position} : before.Holds live position → after.Holds live position

section Occupation

variable {table before middle after : Table Input Output} {live other : Prop} {position : Position}
  {entry : Entry Input Output}

theorem Holds.weaken (holds : table.Holds live position) (implies : other → live) :
    table.Holds other position :=
  let ⟨entry, found, isLive⟩ := holds
  ⟨entry, found, fun required => isLive (implies required)⟩

theorem Holds.begin (holds : table.Holds live position) : table.begin.Holds False position :=
  let ⟨entry, found, _⟩ := holds
  ⟨entry, found, False.elim⟩

theorem Holds.sweep (holds : table.Holds live position) (filed : table.Filed) (required : live) :
    table.sweep.2.Holds live position := by
  obtain ⟨entry, found, isLive⟩ := holds
  refine ⟨entry, ?_, isLive⟩
  rw [filed.entryAt_sweep, found]
  exact Option.filter_eq_some_iff.mpr ⟨rfl, isLive required⟩

theorem Holds.keepSubtree {root : Position} (holds : table.Holds live position)
    (implies : other → live ∨ position.startsWith root = true) :
    (table.keepSubtree root).Holds other position := by
  obtain ⟨entry, found, isLive⟩ := holds
  refine ⟨entry, found, fun required => isLive_keepSubtree.mpr ?_⟩
  rw [position_of_entryAt found]
  exact (implies required).imp_left isLive

theorem Retains.refl (table : Table Input Output) : Retains table table :=
  ⟨id⟩

theorem Retains.trans (earlier : Retains before middle) (later : Retains middle after) :
    Retains before after :=
  ⟨fun holds => later.holds (earlier.holds holds)⟩

theorem retains_count (table : Table Input Output) (stats : Stats) :
    Retains table { table with stats } :=
  ⟨id⟩

theorem retains_keepSubtree (table : Table Input Output) (root : Position) :
    Retains table (table.keepSubtree root) :=
  ⟨fun holds => holds.keepSubtree .inl⟩

theorem Puts.holds (puts : Puts before entry after)
    (current : entry.generation = before.generation) : after.Holds True entry.position := by
  refine ⟨entry, ?_, fun _ => isLive_iff.mpr (.inl (current.trans puts.generation.symm))⟩
  rw [puts.entryAt, if_pos rfl]

theorem Puts.retains (puts : Puts before entry after)
    (current : entry.generation = before.generation) : Retains before after where
  holds {live position} holds := by
    by_cases here : position = entry.position
    · rw [here]
      exact (puts.holds current).weaken fun _ => trivial
    · obtain ⟨present, found, isLive⟩ := holds
      refine ⟨present, ?_, fun required => puts.isLive_eq ▸ isLive required⟩
      rw [puts.entryAt, if_neg here, found]

end Occupation

end Memo.Table

end Phrasing
