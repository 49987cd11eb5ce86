import Phrasing.Proofs.Expansion.Passes
import Phrasing.Proofs.Memo.Keeping
import Phrasing.Processor

/-!
# Covered expansions

A store covers an expansion when it has an entry for whatever was computed for any node in it.  A
store is stocked when it covers every expansion that is stored in it, so that a stored expansion can
be reused as a whole today and its parts one by one tomorrow.
-/

namespace Phrasing

open Memo

/-- A node is at a position in an expansion whose root has a given position. -/
inductive Expansion.Located : Position → Expansion → Position → Expansion → Prop
  | here {root : Position} {expansion : Expansion} : Located root expansion root expansion
  | child {root position : Position} {element : Element} {data : Option Value}
      {children : List Expansion} {index : Nat} {child node : Expansion}
      (present : children[index]? = some child)
      (located : Located (root.child index) child position node) :
      Located root (.structural element data children) position node
  | body {root position : Position} {element : Element} {data : Option Value}
      {body node : Expansion} (located : Located root.expansion body position node) :
      Located root (.described element data body) position node

theorem Expansion.Located.startsWith {root position : Position} {expansion node : Expansion}
    (located : expansion.Located root position node) : position.startsWith root = true := by
  induction located with
  | here => exact Position.startsWith_refl _
  | child _ _ induction => exact Position.startsWith_trans induction (Position.child_startsWith _ _)
  | body _ induction => exact Position.startsWith_trans induction (Position.expansion_startsWith _)

theorem Expansion.Located.eq_of_root {root : Position} {expansion node : Expansion}
    (located : expansion.Located root root node) : node = expansion := by
  cases located with
  | here => rfl
  | child _ located => exact absurd located.startsWith (Position.not_startsWith_child _ _)
  | body located => exact absurd located.startsWith (Position.not_startsWith_expansion _)

theorem Expansion.Located.trans {root upper position : Position} {expansion middle node : Expansion}
    (above : expansion.Located root upper middle) (located : middle.Located upper position node) :
    expansion.Located root position node := by
  induction above with
  | here => exact located
  | child present _ induction => exact .child present (induction located)
  | body _ induction => exact .body (induction located)

namespace Engine

variable {σ : Type}

/-- The store has the data of an element of a given type. -/
def Observed (engine : Engine σ) (store : Store) (live : Prop) (position : Position)
    (type : NodeType) (element : Element) (data : Option Value) : Prop :=
  match engine.processor.derivation? engine.vocabulary type with
  | none => data = none
  | some _ => ∃ entry,
      store.observations.Keeps live position (ObserveInputs.ofElement element) entry ∧
        Value.formOption .comparison data = some (entry.output.form .comparison)

/-- The store has whatever callbacks computed for a node. -/
structure Recorded (engine : Engine σ) (census : Census σ) (ambient : σ) (store : Store)
    (live : Prop) (position : Position) (node : Expansion) : Prop where
  /-- The node is listed. -/
  knows : census.Knows ambient (ObserveInputs.ofElement node.element)
  /-- Its data are in the store. -/
  observed {type : NodeType} : node.element.kind = .custom type →
    engine.Observed store live position type node.element node.data
  /-- Its expansion is in the store, if it is described. -/
  described {type : NodeType} : node.element.kind = .custom type →
    (engine.vocabulary type).describe.isSome →
    ∃ entry, store.expansions.Keeps live position
      (DescribeInputs.ofElement node.element node.data) entry

/-- The store has whatever callbacks computed for any node of an expansion. -/
def Covers (engine : Engine σ) (census : Census σ) (ambient : σ) (store : Store) (live : Prop)
    (root : Position) (expansion : Expansion) : Prop :=
  ∀ position node, expansion.Located root position node →
    engine.Recorded census ambient store live position node

/-- A stored expansion is that of its inputs, and its body is covered; if the entry outlives a sweep,
so do the entries that cover it. -/
structure Nested (engine : Engine σ) (census : Census σ) (ambient : σ) (store : Store)
    (position : Position) (entry : Entry DescribeInputs Expansion) (element : Element)
    (data : Option Value) (body : Expansion) : Prop where
  /-- The inputs are those of the node. -/
  inputs_eq : entry.inputs = .ofElement element data
  /-- The output is that of the node. -/
  output_eq : entry.output = .described element data body
  /-- The body is covered. -/
  covers : engine.Covers census ambient store (store.expansions.isLive entry = true)
    position.expansion body

/-- An observation that is stored as it should be. -/
structure ProperObservation [Digest] (census : Census σ) (ambient : σ)
    (entry : Entry ObserveInputs Value) : Prop where
  /-- Its inputs are listed. -/
  inputs : census.Knows ambient entry.inputs
  /-- Its output is listed. -/
  output : census.Knows ambient entry.output
  /-- Its fingerprint is that of its inputs. -/
  fingerprint_eq : entry.fingerprint = entry.inputs.fingerprint

/-- A description that is stored as it should be. -/
structure ProperDescription [Digest] (census : Census σ) (ambient : σ)
    (entry : Entry DescribeInputs Expansion) : Prop where
  /-- Its inputs are listed. -/
  inputs : census.Knows ambient entry.inputs
  /-- Its fingerprint is that of its inputs. -/
  fingerprint_eq : entry.fingerprint = entry.inputs.fingerprint

/-- Every stored expansion is covered, but for those that a position lies in. -/
structure Stocked [Digest] (engine : Engine σ) (census : Census σ) (ambient : σ) (store : Store)
    (root : Position) : Prop where
  /-- The observations are consistent. -/
  observations : store.observations.Consistent (ProperObservation census ambient)
  /-- The expansions are consistent. -/
  expansions : store.expansions.Consistent (ProperDescription census ambient)
  /-- Stored expansions are covered. -/
  nested {position : Position} {entry : Entry DescribeInputs Expansion} :
    ¬ position.expansion.Below root → store.expansions.entryAt position = some entry →
    ∃ element data body, engine.Nested census ambient store position entry element data body

variable {engine : Engine σ} {census : Census σ} {ambient later : σ} {before after store : Store}
  {live other : Prop} {root position : Position} {node expansion : Expansion}

theorem observed_some {type : NodeType}
    {element : Element} {data : Option Value} {derive : Element → Action σ EngineError Value}
    (derivation : engine.processor.derivation? engine.vocabulary type = some derive) :
    engine.Observed store live position type element data ↔ ∃ entry,
      store.observations.Keeps live position (ObserveInputs.ofElement element) entry ∧
        Value.formOption .comparison data = some (entry.output.form .comparison) := by
  rw [Observed, derivation]

theorem observed_none {type : NodeType}
    {element : Element} {data : Option Value}
    (silent : engine.processor.derivation? engine.vocabulary type = none) :
    engine.Observed store live position type element data ↔ data = none := by
  rw [Observed, silent]

theorem Observed.congr {type : NodeType}
    {left right : Element} {left_data right_data : Option Value}
    (observed : engine.Observed store live position type left left_data)
    (forms : Structured.form .comparison (ObserveInputs.ofElement left) =
      Structured.form .comparison (ObserveInputs.ofElement right))
    (data_forms : Value.formOption .comparison left_data =
      Value.formOption .comparison right_data) :
    engine.Observed store live position type right right_data := by
  cases derivation : engine.processor.derivation? engine.vocabulary type with
  | none =>
      rw [observed_none derivation] at observed ⊢
      subst observed
      exact Option.map_eq_none_iff.mp data_forms.symm
  | some derive =>
      rw [observed_some derivation] at observed ⊢
      obtain ⟨entry, kept, data_eq⟩ := observed
      exact ⟨entry, ⟨kept.found, kept.form_eq.trans forms, kept.isLive⟩,
        data_forms.symm.trans data_eq⟩

theorem Observed.imp {type : NodeType} {element : Element} {data : Option Value}
    (observed : engine.Observed before live position type element data)
    (keeps : ∀ inputs entry, before.observations.Keeps live position inputs entry →
      after.observations.Keeps other position inputs entry) :
    engine.Observed after other position type element data := by
  rw [Observed] at observed ⊢
  cases derivation : engine.processor.derivation? engine.vocabulary type with
  | none =>
      rw [derivation] at observed
      exact observed
  | some derive =>
      rw [derivation] at observed
      obtain ⟨entry, kept, data_eq⟩ := observed
      exact ⟨entry, keeps _ _ kept, data_eq⟩

theorem Recorded.imp (recorded : engine.Recorded census ambient before live position node)
    (grows : census.Grows ambient later)
    (observations : ∀ inputs entry, before.observations.Keeps live position inputs entry →
      after.observations.Keeps other position inputs entry)
    (expansions : ∀ inputs entry, before.expansions.Keeps live position inputs entry →
      after.expansions.Keeps other position inputs entry) :
    engine.Recorded census later after other position node where
  knows := recorded.knows.grow grows
  observed kind := (recorded.observed kind).imp observations
  described kind present :=
    let ⟨entry, kept⟩ := recorded.described kind present
    ⟨entry, expansions _ _ kept⟩

theorem Recorded.frame {region : Position → Prop}
    (recorded : engine.Recorded census ambient before live position node)
    (grows : census.Grows ambient later) (changes : before.ChangesWithin region after)
    (outside : ¬ region position) : engine.Recorded census later after live position node :=
  recorded.imp grows (fun _ _ kept => kept.frame changes.observations outside)
    fun _ _ kept => kept.frame changes.expansions outside

theorem Covers.grow (covers : engine.Covers census ambient store live root expansion)
    (grows : census.Grows ambient later) : engine.Covers census later store live root expansion :=
  fun position node located =>
    (covers position node located).imp grows (fun _ _ => id) fun _ _ => id

theorem Covers.weaken (covers : engine.Covers census ambient store live root expansion)
    (implies : other → live) : engine.Covers census ambient store other root expansion :=
  fun position node located =>
    (covers position node located).imp (.refl census _) (fun _ _ kept => kept.weaken implies)
      fun _ _ kept => kept.weaken implies

theorem Covers.frame {region : Position → Prop}
    (covers : engine.Covers census ambient before live root expansion)
    (grows : census.Grows ambient later) (changes : before.ChangesWithin region after)
    (outside : ∀ position, root.Below position → ¬ region position) :
    engine.Covers census later after live root expansion :=
  fun position node located =>
    (covers position node located).frame grows changes (outside position located.startsWith)

theorem Covers.keepSubtree {lower : Position}
    (covers : engine.Covers census ambient store live root expansion)
    (implies : other → live ∨ root.startsWith lower = true) :
    engine.Covers census ambient (store.keepSubtree lower) other root expansion := by
  intro position node located
  have implies_here (required : other) : live ∨ position.startsWith lower = true :=
    (implies required).imp_right (Position.startsWith_trans located.startsWith)
  exact (covers position node located).imp (.refl census _)
    (fun _ _ kept => kept.keepSubtree implies_here) fun _ _ kept => kept.keepSubtree implies_here

theorem Covers.begin (covers : engine.Covers census ambient store live root expansion) :
    engine.Covers census ambient store.begin False root expansion :=
  fun position node located =>
    (covers position node located).imp (.refl census _) (fun _ _ kept => kept.begin)
      fun _ _ kept => kept.begin

theorem Covers.sweep (covers : engine.Covers census ambient store live root expansion)
    (observations_filed : store.observations.Filed) (expansions_filed : store.expansions.Filed)
    (required : live) : engine.Covers census ambient store.sweep.2 live root expansion :=
  fun position node located =>
    (covers position node located).imp (.refl census _)
      (fun _ _ kept => kept.sweep observations_filed required)
      fun _ _ kept => kept.sweep expansions_filed required

theorem Nested.frame {region : Position → Prop} {entry : Entry DescribeInputs Expansion}
    {element : Element} {data : Option Value} {body : Expansion}
    (nested : engine.Nested census ambient before position entry element data body)
    (changes : before.ChangesWithin region after)
    (isLive_eq : after.expansions.isLive = before.expansions.isLive)
    (outside : ∀ other, position.expansion.Below other → ¬ region other) :
    engine.Nested census ambient after position entry element data body where
  inputs_eq := nested.inputs_eq
  output_eq := nested.output_eq
  covers := by
    rw [isLive_eq]
    exact nested.covers.frame (.refl census _) changes outside

/-- A stored expansion that is reused as a whole keeps its body covered. -/
theorem Nested.keepSubtree {entry : Entry DescribeInputs Expansion} {element : Element}
    {data : Option Value} {body : Expansion} {expansions : Table DescribeInputs Expansion}
    (nested : engine.Nested census ambient store root entry element data body)
    (puts : store.expansions.Puts { entry with generation := store.expansions.generation } expansions)
    (here : entry.position = root) :
    engine.Covers census ambient (Store.keepSubtree { store with expansions } root.expansion) True
      root.expansion body := by
  have changes : store.ChangesWithin (· = root) { store with expansions } :=
    ⟨.refl _ _, puts.changesWithin here⟩
  refine (nested.covers.frame (.refl census _) changes ?_).keepSubtree fun _ =>
    .inr (Position.startsWith_refl _)
  rintro _ below rfl
  exact Position.not_startsWith_expansion _ below

section Stocked

variable [Digest]

theorem stocked_empty (ambient : σ) (root : Position) :
    engine.Stocked census ambient .empty root where
  observations := Table.consistent_empty _
  expansions := Table.consistent_empty _
  nested _ found := nomatch found

theorem Stocked.grow (stocked : engine.Stocked census ambient store root)
    (grows : census.Grows ambient later) : engine.Stocked census later store root where
  observations := stocked.observations.imp fun _ proper =>
    ⟨proper.inputs.grow grows, proper.output.grow grows, proper.fingerprint_eq⟩
  expansions := stocked.expansions.imp fun _ proper =>
    ⟨proper.inputs.grow grows, proper.fingerprint_eq⟩
  nested apart found :=
    let ⟨element, data, body, nested⟩ := stocked.nested apart found
    ⟨element, data, body, nested.inputs_eq, nested.output_eq, nested.covers.grow grows⟩

/-- Fewer stored expansions contain a position than one below it. -/
theorem Stocked.descend {lower : Position} (stocked : engine.Stocked census ambient store root)
    (below : lower.startsWith root = true) : engine.Stocked census ambient store lower where
  observations := stocked.observations
  expansions := stocked.expansions
  nested apart found :=
    stocked.nested (fun inside => apart (Position.startsWith_trans below inside)) found

theorem Stocked.ascend {index : Nat}
    (stocked : engine.Stocked census ambient store (root.child index)) :
    engine.Stocked census ambient store root where
  observations := stocked.observations
  expansions := stocked.expansions
  nested {position _} apart found := by
    refine stocked.nested (fun inside => ?_) found
    rcases Position.child_startsWith_iff.mp inside with same | inside
    · exact Position.child_ne_expansion _ _ _ same.symm
    · exact apart inside

/-- A stored expansion that is covered completes a store. -/
theorem Stocked.complete (stocked : engine.Stocked census ambient store root.expansion)
    {entry : Entry DescribeInputs Expansion} {element : Element} {data : Option Value}
    {body : Expansion} (found : store.expansions.entryAt root = some entry)
    (nested : engine.Nested census ambient store root entry element data body) :
    engine.Stocked census ambient store root where
  observations := stocked.observations
  expansions := stocked.expansions
  nested {position present} apart present_eq := by
    by_cases here : position = root
    · subst here
      obtain rfl := Option.some.inj (found.symm.trans present_eq)
      exact ⟨element, data, body, nested⟩
    · refine stocked.nested (fun inside => ?_) present_eq
      rcases Position.expansion_startsWith_iff.mp inside with same | inside
      · exact here (Position.expansion_inj.mp same)
      · exact apart inside

theorem Stocked.countObservations (stocked : engine.Stocked census ambient store root)
    (stats : Stats) :
    engine.Stocked census ambient { store with observations := { store.observations with stats } }
      root where
  observations := stocked.observations.count stats
  expansions := stocked.expansions
  nested apart found := by
    obtain ⟨element, data, body, nested⟩ := stocked.nested apart found
    have changes : store.ChangesWithin (fun _ => False)
        { store with observations := { store.observations with stats } } :=
      ⟨⟨fun _ => rfl, fun _ => rfl, rfl, id⟩, .refl _ _⟩
    exact ⟨element, data, body, nested.frame changes rfl fun _ _ => id⟩

theorem Stocked.countExpansions (stocked : engine.Stocked census ambient store root)
    (stats : Stats) :
    engine.Stocked census ambient { store with expansions := { store.expansions with stats } }
      root where
  observations := stocked.observations
  expansions := stocked.expansions.count stats
  nested apart found := by
    obtain ⟨element, data, body, nested⟩ := stocked.nested apart found
    have changes : store.ChangesWithin (fun _ => False)
        { store with expansions := { store.expansions with stats } } :=
      ⟨.refl _ _, ⟨fun _ => rfl, fun _ => rfl, rfl, id⟩⟩
    exact ⟨element, data, body, nested.frame changes rfl fun _ _ => id⟩

theorem Stocked.keepSubtree (stocked : engine.Stocked census ambient store root)
    (lower : Position) : engine.Stocked census ambient (store.keepSubtree lower) root where
  observations := stocked.observations.keepSubtree lower
  expansions := stocked.expansions.keepSubtree lower
  nested {position entry} apart found := by
    obtain ⟨element, data, body, nested⟩ := stocked.nested apart found
    refine ⟨element, data, body, nested.inputs_eq, nested.output_eq, ?_⟩
    refine nested.covers.keepSubtree fun kept => ?_
    rw [← Table.position_of_entryAt found]
    exact (Table.isLive_keepSubtree.mp kept).imp_right
      (Position.startsWith_trans (Position.expansion_startsWith _))

theorem Stocked.begin (stocked : engine.Stocked census ambient store root) :
    engine.Stocked census ambient store.begin root where
  observations := stocked.observations.begin
  expansions := stocked.expansions.begin
  nested apart found := by
    obtain ⟨element, data, body, nested⟩ := stocked.nested apart found
    refine ⟨element, data, body, nested.inputs_eq, nested.output_eq, ?_⟩
    exact nested.covers.begin.weaken
      (Table.not_isLive_begin (stocked.expansions.generation_le found))

theorem Stocked.sweep (stocked : engine.Stocked census ambient store root) :
    engine.Stocked census ambient store.sweep.2 root where
  observations := stocked.observations.sweep
  expansions := stocked.expansions.sweep
  nested {position entry} apart found := by
    have kept : (store.expansions.entryAt position).filter store.expansions.isLive = some entry :=
      (stocked.expansions.filed.entryAt_sweep position).symm.trans found
    obtain ⟨found_before, isLive⟩ := Option.filter_eq_some_iff.mp kept
    obtain ⟨element, data, body, nested⟩ := stocked.nested apart found_before
    exact ⟨element, data, body, nested.inputs_eq, nested.output_eq,
      nested.covers.sweep stocked.observations.filed stocked.expansions.filed isLive⟩

theorem Stocked.putObservation (stocked : engine.Stocked census ambient store root)
    {entry : Entry ObserveInputs Value} {observations : Table ObserveInputs Value}
    (puts : store.observations.Puts entry observations) (here : entry.position = root)
    (proper : ProperObservation census ambient entry)
    (current : entry.generation = store.observations.generation) :
    engine.Stocked census ambient { store with observations } root where
  observations := stocked.observations.put puts proper current
  expansions := stocked.expansions
  nested apart found := by
    obtain ⟨element, data, body, nested⟩ := stocked.nested apart found
    have changes : store.ChangesWithin (· = root) { store with observations } :=
      ⟨puts.changesWithin here, .refl _ _⟩
    refine ⟨element, data, body, nested.frame changes rfl ?_⟩
    rintro _ inside rfl
    exact apart inside

/-- While an expansion is computed, its entry may be replaced at will. -/
theorem Stocked.putExpansion (stocked : engine.Stocked census ambient store root.expansion)
    {entry : Entry DescribeInputs Expansion} {expansions : Table DescribeInputs Expansion}
    (puts : store.expansions.Puts entry expansions) (here : entry.position = root)
    (proper : ProperDescription census ambient entry)
    (current : entry.generation = store.expansions.generation) :
    engine.Stocked census ambient { store with expansions } root.expansion where
  observations := stocked.observations
  expansions := stocked.expansions.put puts proper current
  nested {position present} apart found := by
    have elsewhere : position ≠ root := by
      rintro rfl
      exact apart (Position.startsWith_refl _)
    rw [puts.entryAt, if_neg (here ▸ elsewhere)] at found
    obtain ⟨element, data, body, nested⟩ := stocked.nested apart found
    have changes : store.ChangesWithin (· = root) { store with expansions } :=
      ⟨.refl _ _, puts.changesWithin here⟩
    refine ⟨element, data, body, nested.frame changes puts.isLive_eq ?_⟩
    rintro _ inside rfl
    exact apart (Position.startsWith_trans (Position.expansion_startsWith _) inside)

/-- Reusing a stored expansion as a whole leaves a store stocked. -/
theorem Stocked.reuse (stocked : engine.Stocked census ambient store root)
    {entry : Entry DescribeInputs Expansion} {element : Element} {data : Option Value}
    {body : Expansion} {expansions : Table DescribeInputs Expansion}
    (found : store.expansions.entryAt root = some entry)
    (nested : engine.Nested census ambient store root entry element data body)
    (puts : store.expansions.Puts { entry with generation := store.expansions.generation }
      expansions) :
    engine.Stocked census ambient (Store.keepSubtree { store with expansions } root.expansion)
      root := by
  have here : entry.position = root := Table.position_of_entryAt found
  have proper := stocked.expansions.proper found
  have put : engine.Stocked census ambient { store with expansions } root.expansion :=
    (stocked.descend (Position.expansion_startsWith root)).putExpansion puts here
      ⟨proper.inputs, proper.fingerprint_eq⟩ rfl
  have found_after : expansions.entryAt root =
      some { entry with generation := store.expansions.generation } := by
    rw [puts.entryAt, if_pos here.symm]
  exact (put.keepSubtree root.expansion).complete found_after
    ⟨nested.inputs_eq, nested.output_eq, (nested.keepSubtree puts here).weaken fun _ => trivial⟩

end Stocked

end Engine

end Phrasing
