import Mathlib.Data.List.Induction
import Phrasing.Proofs.Store.Runs

/-!
# How long expansions are remembered by content

An expansion is used when it is stored and whenever it is found by content.  It carries the generation
of its last use as a stamp, so a sweep finds it exactly when that use was in the generation of the sweep
or in the one before.  A look-up that meets another element with the same content hash is no use.
-/

namespace Phrasing.Store

/-- An expansion is stored under a content hash. -/
def Remembers (store : Store) (hash : ContentHash) : Prop :=
  (store.adHoc.lookup hash).isSome = true

/-- An operation stores an expansion under a content hash, or finds the one that is there. -/
def Uses (store : Store) (hash : ContentHash) : Operation → Prop
  | .storeAdHoc element _ => element.contentHash = hash
  | .lookupAdHoc element =>
      element.contentHash = hash ∧ (store.lookupAdHoc element).1.isSome = true
  | _ => False

/-- An operation clears the store, or is a sweep that drops what is stored under a content hash. -/
def Drops (store : Store) (hash : ContentHash) : Operation → Prop
  | .clear => True
  | .sweep => store.Remembers hash ∧ ¬ store.sweep.2.Remembers hash
  | _ => False

/-- The operations on a new store last used a content hash in the given generation, and have not
dropped what is stored there since. -/
inductive LastUsed (hash : ContentHash) : List Operation → Nat → Prop
  | use {operations : List Operation} {use : Operation}
      (uses : (empty.run operations).Uses hash use) :
      LastUsed hash (operations ++ [use]) (empty.run operations).generation
  | pass {operations : List Operation} {next : Operation} {generation : Nat}
      (earlier : LastUsed hash operations generation)
      (idle : ¬ (empty.run operations).Uses hash next)
      (kept : ¬ (empty.run operations).Drops hash next) :
      LastUsed hash (operations ++ [next]) generation

/-- The stamp of what is stored under a content hash. -/
def stamp? (store : Store) (hash : ContentHash) : Option Nat :=
  (store.adHoc.lookup hash).map AdHocEntry.generation

section Steps

variable {store : Store} {hash : ContentHash} {operation : Operation}

theorem remembers_iff : store.Remembers hash ↔ ∃ generation, store.stamp? hash = some generation := by
  rw [Remembers, ← Option.isSome_iff_exists, stamp?, Option.isSome_map]

theorem distinct_perform (distinct : Distinct store.adHoc) (operation : Operation) :
    Distinct (store.perform operation).adHoc := by
  cases operation with
  | lookupAdHoc element =>
      rcases store.adHoc_lookupAdHoc element with ⟨-, -, entry, adHoc_eq⟩ | ⟨-, adHoc_eq⟩
      · exact adHoc_eq ▸ distinct.put _ _
      · exact adHoc_eq ▸ distinct
  | storeAdHoc element expansion => exact distinct.put _ _
  | sweep => exact distinct.filter _
  | clear => exact List.nodup_nil
  | _ => exact distinct

theorem distinct_run (operations : List Operation) : Distinct (empty.run operations).adHoc := by
  induction operations using List.reverseRecOn with
  | nil => exact List.nodup_nil
  | append_singleton operations last induction =>
      rw [run_append_singleton]
      exact distinct_perform induction last

/-- What is used has the stamp of the current generation. -/
theorem stamp?_of_uses (uses : store.Uses hash operation) :
    (store.perform operation).stamp? hash = some store.generation := by
  cases operation with
  | storeAdHoc element expansion =>
      obtain rfl := uses
      simp [perform, stamp?, storeAdHoc, lookup_putAdHoc]
  | lookupAdHoc element =>
      obtain ⟨rfl, found⟩ := uses
      rcases store.adHoc_lookupAdHoc element with ⟨-, -, entry, adHoc_eq⟩ | ⟨missed, -⟩
      · simp [perform, stamp?, adHoc_eq, lookup_putAdHoc]
      · simp [missed] at found
  | _ => exact uses.elim

/-- What is dropped has no stamp. -/
theorem stamp?_of_drops (drops : store.Drops hash operation) :
    (store.perform operation).stamp? hash = none := by
  cases operation with
  | sweep =>
      have gone : ¬ ∃ generation, store.sweep.2.stamp? hash = some generation :=
        fun stamped => drops.2 (remembers_iff.mpr stamped)
      exact Option.eq_none_iff_forall_ne_some.mpr fun generation stamped => gone ⟨generation, stamped⟩
  | clear => rfl
  | _ => exact drops.elim

theorem stamp?_sweep (distinct : Distinct store.adHoc) (hash : ContentHash) :
    store.sweep.2.stamp? hash =
      (store.stamp? hash).filter fun generation => store.generation - 1 ≤ generation := by
  rw [stamp?, stamp?, Option.filter_map]
  exact congrArg _ (distinct.lookup_filter _ hash)

/-- What is neither used nor dropped keeps its stamp. -/
theorem stamp?_of_idle (distinct : Distinct store.adHoc) (idle : ¬ store.Uses hash operation)
    (kept : ¬ store.Drops hash operation) :
    (store.perform operation).stamp? hash = store.stamp? hash := by
  cases operation with
  | storeAdHoc element expansion =>
      have apart : hash ≠ element.contentHash := Ne.symm idle
      simp [perform, stamp?, storeAdHoc, lookup_putAdHoc, apart]
  | lookupAdHoc element =>
      rcases store.adHoc_lookupAdHoc element with ⟨found, -, entry, adHoc_eq⟩ | ⟨-, adHoc_eq⟩
      · have apart : hash ≠ element.contentHash := fun same => idle ⟨same.symm, found⟩
        simp [perform, stamp?, adHoc_eq, lookup_putAdHoc, apart]
      · simp [perform, stamp?, adHoc_eq]
  | sweep =>
      rw [perform, stamp?_sweep distinct]
      cases stamped : store.stamp? hash with
      | none => rfl
      | some generation =>
          by_cases recent : store.generation - 1 ≤ generation
          · rw [Option.filter_some, if_pos (decide_eq_true recent)]
          · have dropped : store.sweep.2.stamp? hash = none := by
              rw [stamp?_sweep distinct, stamped, Option.filter_some,
                if_neg (ne_of_eq_of_ne (decide_eq_false recent) Bool.false_ne_true)]
            refine absurd ⟨remembers_iff.mpr ⟨generation, stamped⟩, fun remembered => ?_⟩ kept
            obtain ⟨left, left_eq⟩ := remembers_iff.mp remembered
            simp [dropped] at left_eq
  | clear => exact absurd trivial kept
  | _ => rfl

end Steps

/-- After any run, the stamp of a content hash is the generation of its last use, unless it has been
dropped since. -/
theorem stamp?_run_eq_some_iff {operations : List Operation} {hash : ContentHash}
    {generation : Nat} :
    (empty.run operations).stamp? hash = some generation ↔ LastUsed hash operations generation := by
  constructor
  · -- Runs grow at their end: what the last operation does depends on the store that it finds.
    intro stamped
    induction operations using List.reverseRecOn generalizing generation with
    | nil => cases stamped
    | append_singleton operations last induction =>
        rw [run_append_singleton] at stamped
        by_cases uses : (empty.run operations).Uses hash last
        · rw [stamp?_of_uses uses] at stamped
          obtain rfl := Option.some.inj stamped
          exact .use uses
        · by_cases drops : (empty.run operations).Drops hash last
          · rw [stamp?_of_drops drops] at stamped
            cases stamped
          · rw [stamp?_of_idle (distinct_run operations) uses drops] at stamped
            exact .pass (induction stamped) uses drops
  · intro used
    induction used with
    | use uses => rw [run_append_singleton, stamp?_of_uses uses]
    | @pass operations next generation _ idle kept induction =>
        rw [run_append_singleton, stamp?_of_idle (distinct_run operations) idle kept, induction]

/-- What is stored under a content hash survives a sweep exactly if its last use was in the generation
of the sweep or in the one before.  A look-up that meets another element is no use, and the stamps are
comparable because the store is always in the same generation as its tables. -/
theorem adHoc_kept_while_used (operations : List Operation) :
    (∀ hash, (empty.run (operations ++ [.sweep])).Remembers hash ↔
      ∃ generation, LastUsed hash operations generation ∧
        (empty.run operations).generation - 1 ≤ generation) ∧
    (∀ (element : Element) (entry : AdHocEntry),
      (empty.run operations).adHoc.lookup element.contentHash = some entry →
      (entry.element == element) = false →
        ((empty.run operations).lookupAdHoc element).1 = none ∧
        ((empty.run operations).lookupAdHoc element).2.adHoc = (empty.run operations).adHoc) ∧
    (empty.run operations).InStep := by
  refine ⟨fun hash => ?_, fun element entry found other => ?_, inStep_empty.run operations⟩
  · rw [run_append_singleton, perform, remembers_iff, stamp?_sweep (distinct_run operations)]
    simp only [Option.filter_eq_some_iff, stamp?_run_eq_some_iff, decide_eq_true_eq]
  · simp [lookupAdHoc, found, other]

/-- The node of a primitive without props and children. -/
def bare (id : NodeId) (builtIn : Primitive) (hash : ContentHash) : Element :=
  .node id (.primitive builtIn) [] [] hash

/-- Two expansions are stored.  In the next generation one of them is found again, and a look-up with
the content hash of the other one meets a different element. -/
def turns : List Operation :=
  [.storeAdHoc (bare 0 .sequence ⟨1, 0⟩) (.structural (bare 0 .sequence ⟨1, 0⟩) none []),
    .storeAdHoc (bare 1 .choice ⟨2, 0⟩) (.structural (bare 1 .choice ⟨2, 0⟩) none []), .begin,
    .lookupAdHoc (bare 2 .optional ⟨2, 0⟩), .lookupAdHoc (bare 3 .sequence ⟨1, 0⟩), .begin]

theorem adHoc_kept_while_used_turns :
    (empty.run (turns ++ [.sweep])).Remembers ⟨1, 0⟩ ∧
      ¬ (empty.run (turns ++ [.sweep])).Remembers ⟨2, 0⟩ ∧
      ((empty.run turns).lookupAdHoc (bare 2 .optional ⟨2, 0⟩)).1 = none ∧
      ((empty.run turns).lookupAdHoc (bare 2 .optional ⟨2, 0⟩)).2.adHoc = (empty.run turns).adHoc := by
  have found : (empty.run (turns.take 4)).Uses ⟨1, 0⟩ (.lookupAdHoc (bare 3 .sequence ⟨1, 0⟩)) :=
    ⟨rfl, by decide +kernel⟩
  have generation : (empty.run (turns.take 4)).generation = 1 := by decide +kernel
  have used : LastUsed ⟨1, 0⟩ turns 1 :=
    generation ▸ @LastUsed.pass _ (turns.take 5) .begin _ (@LastUsed.use _ (turns.take 4) _ found) id id
  refine ⟨((adHoc_kept_while_used turns).1 _).mpr ⟨1, used, by decide +kernel⟩, ?_, ?_⟩
  · unfold Remembers
    decide +kernel
  · have meets : ((empty.run turns).adHoc.lookup ⟨2, 0⟩).any
        (fun entry => !(entry.element == bare 2 .optional ⟨2, 0⟩)) = true := by decide +kernel
    obtain ⟨here, other⟩ := (Option.any_eq_true_iff_get _ _).mp meets
    exact (adHoc_kept_while_used turns).2.1 _ _ (Option.some_get here).symm
      (by simpa using other)

end Phrasing.Store
