import Phrasing.Proofs.Memo.Counting
import Phrasing.Proofs.Memo.Keeping

/-!
# Lookups with a known answer

A table answers certain inputs at a position when it has an entry with their fingerprint and with
inputs that compare equal.  Then a lookup for these inputs hits, and it changes nothing that
another lookup could tell.
-/

namespace Phrasing.Memo.Table

variable {Input Output : Type} [BEq Input]

/-- The table has an output for inputs at a position, which outlives a sweep if so required. -/
def Answers (table : Table Input Output) (live : Prop) (position : Position)
    (fingerprint : ContentHash) (inputs : Input) (output : Output) : Prop :=
  ∃ entry, table.entryAt position = some entry ∧ entry.fingerprint = fingerprint ∧
    (entry.inputs == inputs) = true ∧ entry.output = output ∧ (live → table.isLive entry = true)

/-- Within a region, one table answers what another one answers. -/
structure Transfers (region : Position → Prop) (before : Table Input Output) (live : Prop)
    (after : Table Input Output) (other : Prop) : Prop where
  /-- Answers are the same. -/
  answers {position : Position} {fingerprint : ContentHash} {inputs : Input} {output : Output} :
    region position → before.Answers live position fingerprint inputs output →
    after.Answers other position fingerprint inputs output

variable {table before middle after : Table Input Output} {live other : Prop}
  {region : Position → Prop} {position : Position} {fingerprint : ContentHash} {inputs : Input}
  {output : Output} {entry : Entry Input Output}

theorem Transfers.refl (region : Position → Prop) (table : Table Input Output) (live : Prop) :
    Transfers region table live table live :=
  ⟨fun _ answers => answers⟩

theorem Transfers.trans {last : Prop} (earlier : Transfers region before live middle other)
    (later : Transfers region middle other after last) : Transfers region before live after last :=
  ⟨fun inside answers => later.answers inside (earlier.answers inside answers)⟩

theorem transfers_begin (region : Position → Prop) (table : Table Input Output) (live : Prop) :
    Transfers region table live table.begin False :=
  ⟨fun _ ⟨entry, found, fingerprint_eq, same, output_eq, _⟩ =>
    ⟨entry, found, fingerprint_eq, same, output_eq, False.elim⟩⟩

theorem transfers_keepSubtree (region : Position → Prop) (table : Table Input Output) (live : Prop)
    (root : Position) : Transfers region table live (table.keepSubtree root) live :=
  ⟨fun _ ⟨entry, found, fingerprint_eq, same, output_eq, isLive⟩ =>
    ⟨entry, found, fingerprint_eq, same, output_eq,
      fun required => isLive_keepSubtree.mpr (.inl (isLive required))⟩⟩

theorem Filed.transfers_sweep (filed : table.Filed) (region : Position → Prop) :
    Transfers region table True table.sweep.2 True where
  answers := by
    rintro position _ _ _ - ⟨entry, found, fingerprint_eq, same, output_eq, isLive⟩
    refine ⟨entry, ?_, fingerprint_eq, same, output_eq, isLive⟩
    rw [filed.entryAt_sweep, found]
    exact Option.filter_eq_some_iff.mpr ⟨rfl, isLive trivial⟩

theorem ChangesWithin.transfers {changed : Position → Prop}
    (changes : ChangesWithin changed before after)
    (apart : ∀ position, region position → ¬ changed position) :
    Transfers region before live after live where
  answers := by
    rintro position _ _ _ inside ⟨entry, found, fingerprint_eq, same, output_eq, isLive⟩
    refine ⟨entry, (changes.entryAt (apart position inside)).trans found, fingerprint_eq, same,
      output_eq, fun required => ?_⟩
    exact isLive_of_liveRoots (isLive required) changes.generation fun _ => changes.liveRoots

theorem Puts.answers (puts : Puts before entry after) (here : entry.position = position)
    (current : entry.generation = before.generation) (fingerprint_eq : entry.fingerprint = fingerprint)
    (same : (entry.inputs == inputs) = true) :
    after.Answers True position fingerprint inputs entry.output := by
  refine ⟨entry, ?_, fingerprint_eq, same, rfl, fun _ => ?_⟩
  · rw [puts.entryAt, if_pos here.symm]
  · exact isLive_iff.mpr (.inl (current.trans puts.generation.symm))

/-- A new stamp on an entry does not change what a table answers. -/
theorem Puts.transfers_stamp (puts : Puts before { entry with generation := before.generation } after)
    (found : before.entryAt position = some entry) (region : Position → Prop) :
    Transfers region before False after False where
  answers := by
    rintro other fingerprint inputs output - ⟨present, present_eq, fingerprint_eq, same, output_eq, -⟩
    have at_entry := puts.entryAt other
    split at at_entry
    · next here =>
        have entry_here : entry.position = position := position_of_entryAt found
        rw [here, entry_here, found] at present_eq
        obtain rfl := Option.some.inj present_eq
        exact ⟨_, at_entry, fingerprint_eq, same, output_eq, False.elim⟩
    · exact ⟨present, at_entry.trans present_eq, fingerprint_eq, same, output_eq, False.elim⟩

/-- What a table answers, it answers a lookup with, unless the lookup is misled. -/
theorem Answers.lookup (answers : table.Answers live position fingerprint inputs output)
    (filed : table.Filed) :
    (∃ after, table.lookup position fingerprint inputs = .ok (.hit output, after) ∧ after.Filed ∧
        Transfers (fun _ => True) table False after False ∧
        after.stats.stores = table.stats.stores) ∨
      table.Overfull ∧ ∃ found,
        table.lookup position fingerprint inputs = .error (.misfiled table.name position found) := by
  obtain ⟨entry, entry_eq, fingerprint_eq, same, rfl, -⟩ := answers
  have looked := filed.looked position fingerprint inputs
  generalize lookup_eq : table.lookup position fingerprint inputs = outcome at looked
  cases looked with
  | hit found _ _ puts =>
      obtain rfl := Option.some.inj (entry_eq.symm.trans found)
      exact .inl ⟨_, rfl, puts.filed, puts.transfers_stamp found _,
        (lookup_grows lookup_eq).stores_eq⟩
  | missed _ _ apart =>
      rw [apart entry entry_eq fingerprint_eq] at same
      cases same
  | misfiled overfull => exact .inr ⟨overfull, _, rfl⟩

end Phrasing.Memo.Table
