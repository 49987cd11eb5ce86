import Phrasing.Proofs.Expansion.Coverage
import Phrasing.Proofs.Expansion.Meaning

/-!
# Callbacks that are spared

An expansion with a stocked store covers what it gives and leaves the store stocked.  On the way it
spares the callbacks of every node whose inputs are those of a node that the store has recorded at
the same position.
-/

namespace Phrasing

open Memo

variable {σ : Type}

/-- A pass goes on within a region. -/
structure Pass.Progress (census : Census σ) (region : Position → Prop) (before after : Pass σ) :
    Prop where
  /-- What was listed stays listed. -/
  grows : census.Grows before.world.ambient after.world.ambient
  /-- The store changes within the region. -/
  changes : before.store.ChangesWithin region after.store
  /-- Callbacks are run within the region. -/
  calls : ∀ call ∈ after.calls, call ∈ before.calls ∨ region call.position

/-- No callbacks are run at a position. -/
def Pass.Spares (position : Position) (before after : Pass σ) : Prop :=
  ∀ call ∈ after.calls, call.position = position → call ∈ before.calls

namespace Pass

variable {census : Census σ} {region other : Position → Prop} {position : Position}
  {first second third : Pass σ}

theorem Spares.refl (position : Position) (pass : Pass σ) : Spares position pass pass :=
  fun _ member _ => member

theorem Spares.trans (earlier : Spares position first second)
    (later : Spares position second third) : Spares position first third :=
  fun call member here => earlier call (later call member here) here

theorem Progress.refl (region : Position → Prop) (pass : Pass σ) :
    Progress census region pass pass :=
  ⟨.refl census _, .refl region _, fun _ => .inl⟩

theorem Progress.trans (earlier : Progress census region first second)
    (later : Progress census region second third) : Progress census region first third where
  grows := earlier.grows.trans later.grows
  changes := earlier.changes.trans later.changes
  calls call member := (later.calls call member).elim (earlier.calls call) .inr

theorem Progress.widen (progress : Progress census region first second)
    (wider : ∀ position, region position → other position) : Progress census other first second where
  grows := progress.grows
  changes := progress.changes.widen wider
  calls call member := (progress.calls call member).imp_right (wider call.position)

theorem Progress.call {pass : Pass σ} {world : World σ}
    (grows : census.Grows pass.world.ambient world.ambient) (call : Call) :
    Progress census (· = call.position) pass { pass with world, calls := pass.calls ++ [call] } where
  grows := grows
  changes := .refl _ _
  calls other member := by
    refine (List.mem_append.mp member).imp_right fun last => ?_
    rw [List.mem_singleton.mp last]

theorem Progress.putObservation {pass : Pass σ} {entry : Entry ObserveInputs Value}
    {observations : Table ObserveInputs Value}
    (puts : pass.store.observations.Puts entry observations) (here : entry.position = position) :
    Progress census (· = position) pass (pass.withObservations observations) :=
  ⟨.refl census _, putObservation_changesWithin puts here, fun _ => .inl⟩

theorem Progress.putExpansion {pass : Pass σ} {entry : Entry DescribeInputs Expansion}
    {expansions : Table DescribeInputs Expansion}
    (puts : pass.store.expansions.Puts entry expansions) (here : entry.position = position) :
    Progress census (· = position) pass (pass.withExpansions expansions) :=
  ⟨.refl census _, putExpansion_changesWithin puts here, fun _ => .inl⟩

theorem Progress.spares (progress : Progress census region first second)
    (outside : ¬ region position) : Spares position first second := by
  intro call member here
  exact (progress.calls call member).resolve_right (here ▸ outside)

end Pass

namespace Engine

variable [Digest] {engine : Engine σ} {census : Census σ}

/-! ## Data -/

/-- A pass has come by the data of an element at a position. -/
structure Derives (engine : Engine σ) (census : Census σ) (position : Position) (type : NodeType)
    (element : Element) (before : Pass σ) (data : Option Value) (after : Pass σ) : Prop where
  /-- The store is stocked. -/
  stocked : engine.Stocked census after.world.ambient after.store position
  /-- Nothing has changed elsewhere. -/
  progress : Pass.Progress census (· = position) before after
  /-- The table of expansions keeps what it kept. -/
  expansions {inputs : DescribeInputs} {entry : Entry DescribeInputs Expansion} :
    before.store.expansions.Keeps False position inputs entry →
    after.store.expansions.Keeps False position inputs entry
  /-- The data are listed. -/
  knows : census.Knows after.world.ambient data
  /-- The data are in the store. -/
  observed : engine.Observed after.store True position type element data
  /-- Data that were in the store for these inputs have been reused. -/
  reuses {old : Element} {old_data : Option Value} :
    engine.Observed before.store False position type old old_data →
    Structured.form .comparison (ObserveInputs.ofElement old) =
      Structured.form .comparison (ObserveInputs.ofElement element) →
    Value.formOption .comparison old_data = Value.formOption .comparison data ∧
      Pass.Spares position before after

theorem computeData_derives (orderly : engine.Orderly census) {position : Position}
    {type : NodeType} {element : Element} {derive : Element → Action σ EngineError Value}
    (derivation : engine.processor.derivation? engine.vocabulary type = some derive)
    {before after : Pass σ} {data : Option Value}
    (stocked : engine.Stocked census before.world.ambient before.store position)
    (knows : census.Knows before.world.ambient element)
    (addressable : before.store.observations.Addressable position)
    (fresh : ∀ old old_data, engine.Observed before.store False position type old old_data →
      Structured.form .comparison (ObserveInputs.ofElement old) ≠
        Structured.form .comparison (ObserveInputs.ofElement element))
    (run : computeData position element derive before = .ok data after) :
    engine.Derives census position type element before data after := by
  obtain ⟨value, late, calling, run⟩ := bind_eq_ok.mp run
  obtain ⟨world, deriving_run, rfl⟩ := Pass.of_run_ok calling
  obtain ⟨id, stored, storing, run⟩ := bind_eq_ok.mp run
  obtain ⟨observations, store_eq, rfl⟩ := Pass.of_onObservations_ok storing
  obtain ⟨rfl, rfl⟩ := EStateM.Result.ok.inj run
  obtain ⟨grows, knows_value⟩ := orderly.derivation derivation knows deriving_run
  obtain ⟨_, other, other_eq, puts⟩ := stocked.observations.filed.store_ok addressable
    (ObserveInputs.ofElement element).fingerprint (ObserveInputs.ofElement element) value
  obtain ⟨rfl, rfl⟩ := Prod.mk.inj (Except.ok.inj (store_eq.symm.trans other_eq))
  have knows_after : census.Knows world.ambient element := knows.grow grows
  exact {
    stocked := (stocked.grow grows).putObservation puts rfl
      ⟨knows_after.observeInputs, knows_value, rfl⟩ rfl
    progress := (Pass.Progress.call grows ⟨position, .data⟩).trans (.putObservation puts rfl)
    expansions := fun kept => kept
    knows := Census.knows_some.mpr knows_value
    observed := (observed_some derivation).mpr ⟨_, puts.keeps rfl rfl rfl, rfl⟩
    reuses := fun observed forms => absurd forms (fresh _ _ observed) }

/-- Data that are in the store are reused. -/
theorem reuseData_derives {position : Position} {type : NodeType} {element : Element}
    {derive : Element → Action σ EngineError Value}
    (derivation : engine.processor.derivation? engine.vocabulary type = some derive)
    {before : Pass σ} {entry : Entry ObserveInputs Value} {observations : Table ObserveInputs Value}
    (stocked : engine.Stocked census before.world.ambient before.store position)
    (found : before.store.observations.entryAt position = some entry)
    (forms : Structured.form .comparison entry.inputs =
      Structured.form .comparison (ObserveInputs.ofElement element))
    (puts : before.store.observations.Puts
      { entry with generation := before.store.observations.generation } observations) :
    engine.Derives census position type element before (some entry.output)
      (before.withObservations observations) := by
  have proper := stocked.observations.proper found
  have here : entry.position = position := Table.position_of_entryAt found
  exact {
    stocked := stocked.putObservation puts here
      ⟨proper.inputs, proper.output, proper.fingerprint_eq⟩ rfl
    progress := .putObservation puts here
    expansions := fun kept => kept
    knows := Census.knows_some.mpr proper.output
    observed := (observed_some derivation).mpr ⟨_, puts.keeps here rfl forms, rfl⟩
    reuses := fun observed _ => by
      obtain ⟨present, kept, data_eq⟩ := (observed_some derivation).mp observed
      obtain rfl := Option.some.inj (found.symm.trans kept.found)
      exact ⟨data_eq, fun _ member _ => member⟩ }

/-- A lookup that fails rules out that the store has data for inputs of this form. -/
theorem Stocked.no_observation (defined : Number.Defined census.number) {ambient : σ} {store : Store}
    {position : Position} {inputs other : ObserveInputs} {live : Prop}
    {entry : Entry ObserveInputs Value}
    (stocked : engine.Stocked census ambient store position)
    (apart : ∀ entry, store.observations.entryAt position = some entry →
      entry.fingerprint = inputs.fingerprint → (entry.inputs == inputs) = false)
    (kept : store.observations.Keeps live position other entry) :
    Structured.form .comparison other ≠ Structured.form .comparison inputs := by
  intro forms
  have proper := stocked.observations.proper kept.found
  have entry_forms := kept.form_eq.trans forms
  have unlike := apart entry kept.found
    (proper.fingerprint_eq.trans (ObserveInputs.fingerprint_eq_of_form_eq entry_forms))
  rw [ObserveInputs.beq_of_form_eq defined proper.inputs entry_forms] at unlike
  cases unlike

/-- A lookup that fails rules out that the store has an expansion for inputs of this form. -/
theorem Stocked.no_description (defined : Number.Defined census.number) {ambient : σ} {store : Store}
    {position : Position} {inputs other : DescribeInputs} {live : Prop}
    {entry : Entry DescribeInputs Expansion}
    (stocked : engine.Stocked census ambient store position)
    (apart : ∀ entry, store.expansions.entryAt position = some entry →
      entry.fingerprint = inputs.fingerprint → (entry.inputs == inputs) = false)
    (kept : store.expansions.Keeps live position other entry) :
    Structured.form .comparison other ≠ Structured.form .comparison inputs := by
  intro forms
  have proper := stocked.expansions.proper kept.found
  have entry_forms := kept.form_eq.trans forms
  have unlike := apart entry kept.found
    (proper.fingerprint_eq.trans (DescribeInputs.fingerprint_eq_of_form_eq entry_forms))
  rw [DescribeInputs.beq_of_form_eq defined proper.inputs entry_forms] at unlike
  cases unlike

theorem memoizedData_derives (defined : Number.Defined census.number)
    (orderly : engine.Orderly census) {position : Position} {type : NodeType} {element : Element}
    {before after : Pass σ} {data : Option Value}
    (stocked : engine.Stocked census before.world.ambient before.store position)
    (knows : census.Knows before.world.ambient element)
    (run : engine.memoizedData position type element before = .ok data after) :
    engine.Derives census position type element before data after := by
  rw [memoizedData] at run
  cases derivation : engine.processor.derivation? engine.vocabulary type with
  | none =>
      rw [derivation] at run
      obtain ⟨rfl, rfl⟩ := EStateM.Result.ok.inj run
      exact {
        stocked
        progress := .refl _ _
        expansions := fun kept => kept
        knows := Census.knows_none
        observed := (observed_none derivation).mpr rfl
        reuses := fun observed _ =>
          ⟨by rw [(observed_none derivation).mp observed], .refl position before⟩ }
  | some derive =>
      rw [derivation] at run
      obtain ⟨outcome, looked_up, looking, run⟩ := bind_eq_ok.mp run
      obtain ⟨observations, lookup_eq, rfl⟩ := Pass.of_onObservations_ok looking
      have looked := stocked.observations.filed.looked position
        (ObserveInputs.ofElement element).fingerprint (ObserveInputs.ofElement element)
      rw [lookup_eq] at looked
      cases looked with
      | @hit entry _ found _ same puts =>
          obtain ⟨rfl, rfl⟩ := EStateM.Result.ok.inj run
          exact reuseData_derives derivation stocked found (ObserveInputs.form_eq_of_beq
            (census.discerns_comparison _) (stocked.observations.proper found).inputs
            knows.observeInputs same) puts
      | @missed _ stats outcome_eq addressable apart =>
          have fresh (old : Element) (old_data : Option Value)
              (observed : engine.Observed before.store False position type old old_data) :
              Structured.form .comparison (ObserveInputs.ofElement old) ≠
                Structured.form .comparison (ObserveInputs.ofElement element) := by
            obtain ⟨entry, kept, -⟩ := (observed_some derivation).mp observed
            exact stocked.no_observation defined apart kept
          have derives : engine.Derives census position type element
              (before.withObservations { before.store.observations with stats }) data after := by
            refine computeData_derives orderly derivation (stocked.countObservations stats) knows
              addressable (fun _ _ observed => fresh _ _ (observed.imp fun _ _ kept =>
                ⟨kept.found, kept.form_eq, kept.isLive⟩)) ?_
            rcases outcome_eq with rfl | rfl
            · exact run
            · exact run
          have counting : Pass.Progress census (· = position) before
              (before.withObservations { before.store.observations with stats }) :=
            ⟨.refl census _, Pass.countObservations_changesWithin _ _ _, fun _ => .inl⟩
          exact {
            stocked := derives.stocked
            progress := counting.trans derives.progress
            expansions := derives.expansions
            knows := derives.knows
            observed := derives.observed
            reuses := fun observed forms => absurd forms (fresh _ _ observed) }

/-! ## Nodes -/

/-- A pass has expanded a tree at a position. -/
structure Yields (engine : Engine σ) (census : Census σ) (root : Position) (before : Pass σ)
    (expansion : Expansion) (after : Pass σ) : Prop where
  /-- The store is stocked. -/
  stocked : engine.Stocked census after.world.ambient after.store root
  /-- Nothing has changed elsewhere. -/
  progress : Pass.Progress census root.Below before after
  /-- The store covers the expansion. -/
  covers : engine.Covers census after.world.ambient after.store True root expansion
  /-- Callbacks are spared where the store had recorded a node with these inputs. -/
  spares {position : Position} {old node : Expansion} :
    engine.Recorded census before.world.ambient before.store False position old →
    expansion.Located root position node →
    Structured.form .comparison (ObserveInputs.ofElement old.element) =
      Structured.form .comparison (ObserveInputs.ofElement node.element) →
    Pass.Spares position before after

/-- A pass has expanded the children of a node from an index on. -/
structure YieldsEach (engine : Engine σ) (census : Census σ) (root : Position) (start : Nat)
    (before : Pass σ) (expansions : List Expansion) (after : Pass σ) : Prop where
  /-- The store is stocked. -/
  stocked : engine.Stocked census after.world.ambient after.store root
  /-- Nothing has changed elsewhere. -/
  progress : Pass.Progress census (root.BelowChildren start (start + expansions.length)) before after
  /-- The store covers the expansions. -/
  covers {index : Nat} {expansion : Expansion} : expansions[index]? = some expansion →
    engine.Covers census after.world.ambient after.store True (root.child (start + index)) expansion
  /-- Callbacks are spared where the store had recorded a node with these inputs. -/
  spares {index : Nat} {expansion : Expansion} {position : Position} {old node : Expansion} :
    expansions[index]? = some expansion →
    engine.Recorded census before.world.ambient before.store False position old →
    expansion.Located (root.child (start + index)) position node →
    Structured.form .comparison (ObserveInputs.ofElement old.element) =
      Structured.form .comparison (ObserveInputs.ofElement node.element) →
    Pass.Spares position before after

theorem YieldsEach.nil {root : Position} {start : Nat} {pass : Pass σ}
    (stocked : engine.Stocked census pass.world.ambient pass.store root) :
    engine.YieldsEach census root start pass [] pass where
  stocked := stocked
  progress := .refl _ pass
  covers present := nomatch present
  spares present := nomatch present

theorem YieldsEach.cons {root : Position} {start : Nat} {before middle after : Pass σ}
    {expansion : Expansion} {expansions : List Expansion}
    (fits : start + (expansions.length + 1) ≤ UInt32.size)
    (first : engine.Yields census (root.child start) before expansion middle)
    (rest : engine.YieldsEach census root (start + 1) middle expansions after) :
    engine.YieldsEach census root start before (expansion :: expansions) after := by
  have apart {position : Position} (below : (root.child start).Below position) :
      ¬ root.BelowChildren (start + 1) (start + 1 + expansions.length) position :=
    Position.not_belowChildren (Nat.lt_succ_self start) (by omega) below
  have index_eq (index : Nat) : start + (index + 1) = start + 1 + index := by omega
  refine ⟨rest.stocked, ?_, ?_, ?_⟩
  · refine (first.progress.widen ?_).trans (rest.progress.widen ?_)
    · intro position below
      exact ⟨start, Nat.le_refl start, by simp, below⟩
    · rintro position ⟨index, start_le, index_lt, below⟩
      exact ⟨index, by omega, by rw [List.length_cons]; omega, below⟩
  · rintro (_ | index) present present_eq
    · obtain rfl := Option.some.inj present_eq
      exact first.covers.frame rest.progress.grows rest.progress.changes fun _ => apart
    · rw [index_eq]
      exact rest.covers present_eq
  · rintro (_ | index) present position old node present_eq recorded located forms
    · obtain rfl := Option.some.inj present_eq
      exact (first.spares recorded located forms).trans
        (rest.progress.spares (apart located.startsWith))
    · rw [List.getElem?_cons_succ] at present_eq
      rw [index_eq] at located
      have index_lt : index < expansions.length := (List.getElem?_eq_some_iff.mp present_eq).1
      have outside : ¬ (root.child start).Below position := by
        intro inside
        exact apart inside ⟨start + 1 + index, by omega, by omega, located.startsWith⟩
      exact (first.progress.spares outside).trans
        (rest.spares present_eq (recorded.frame first.progress.grows first.progress.changes outside)
          located forms)

/-- The children of a node are expanded one after another. -/
theorem mapM_yields {root : Position} {expand : Position → Element → EStateM EngineError (Pass σ) Expansion}
    (yields : ∀ position element before expansion after,
      engine.Stocked census before.world.ambient before.store position →
      census.Knows before.world.ambient element →
      expand position element before = .ok expansion after →
      engine.Yields census position before expansion after)
    {elements : List Element} {start : Nat} (fits : start + elements.length ≤ UInt32.size)
    {before after : Pass σ} {expansions : List Expansion}
    (stocked : engine.Stocked census before.world.ambient before.store root)
    (knows : ∀ element ∈ elements, census.Knows before.world.ambient element)
    (run : (elements.zipIdx start).mapM (fun entry => expand (root.child entry.2) entry.1) before =
      .ok expansions after) :
    engine.YieldsEach census root start before expansions after ∧
      expansions.length = elements.length := by
  induction elements generalizing start before expansions with
  | nil =>
      obtain ⟨rfl, rfl⟩ := EStateM.Result.ok.inj run
      exact ⟨.nil stocked, rfl⟩
  | cons element rest induction =>
      rw [List.zipIdx_cons, List.mapM_cons] at run
      obtain ⟨expansion, middle, first_run, run⟩ := bind_eq_ok.mp run
      obtain ⟨others, last, rest_run, run⟩ := bind_eq_ok.mp run
      obtain ⟨rfl, rfl⟩ := EStateM.Result.ok.inj run
      rw [List.length_cons] at fits
      have first := yields _ element before expansion middle
        (stocked.descend (Position.child_startsWith root start)) (knows element List.mem_cons_self)
        first_run
      obtain ⟨each, length_eq⟩ := induction (by omega) first.stocked.ascend
        (fun other member =>
          (knows other (List.mem_cons_of_mem element member)).grow first.progress.grows) rest_run
      exact ⟨.cons (by omega) first each, by rw [List.length_cons, List.length_cons, length_eq]⟩

/-- A node whose children are expanded in place, once its data are there. -/
theorem YieldsEach.structural {root : Position} {before middle after : Pass σ} {element : Element}
    {data : Option Value} {children : List Expansion}
    (opening : Pass.Progress census (· = root) before middle)
    (each : engine.YieldsEach census root 0 middle children after)
    (recorded : engine.Recorded census after.world.ambient after.store True root
      (.structural element data children))
    (spares_root : ∀ old, engine.Recorded census before.world.ambient before.store False root old →
      Structured.form .comparison (ObserveInputs.ofElement old.element) =
        Structured.form .comparison (ObserveInputs.ofElement element) →
      Pass.Spares root before middle) :
    engine.Yields census root before (.structural element data children) after where
  stocked := each.stocked
  progress := by
    refine (opening.widen fun _ => Position.below_of_eq).trans (each.progress.widen ?_)
    rintro position ⟨index, -, -, below⟩
    exact Position.startsWith_trans below (Position.child_startsWith root index)
  covers := by
    intro position node located
    cases located with
    | here => exact recorded
    | @child _ _ _ _ _ index _ _ present located =>
        rw [← Nat.zero_add index] at located
        exact each.covers present position node located
  spares := by
    intro position old node recorded_old located forms
    cases located with
    | here =>
        exact (spares_root old recorded_old forms).trans
          (each.progress.spares (Position.not_belowChildren_root root _ _))
    | @child _ _ _ _ _ index _ _ present located =>
        have elsewhere : position ≠ root := by
          rintro rfl
          exact Position.not_startsWith_child _ index located.startsWith
        rw [← Nat.zero_add index] at located
        exact (opening.spares elsewhere).trans (each.spares present
          (recorded_old.frame opening.grows opening.changes elsewhere) located forms)

/-- The callbacks for data are spared where the store had recorded a node with these inputs. -/
theorem Derives.spares {root : Position} {type : NodeType} {element : Element}
    {data : Option Value} {before after : Pass σ} {old : Expansion}
    (derives : engine.Derives census root type element before data after)
    (kind : element.kind = .custom type)
    (recorded : engine.Recorded census before.world.ambient before.store False root old)
    (forms : Structured.form .comparison (ObserveInputs.ofElement old.element) =
      Structured.form .comparison (ObserveInputs.ofElement element)) :
    Value.formOption .comparison old.data = Value.formOption .comparison data ∧
      Pass.Spares root before after := by
  have kind_eq : old.element.kind = element.kind := congrArg ObserveInputs.kind forms
  exact derives.reuses (recorded.observed (kind_eq.trans kind)) forms

/-- A stored expansion is reused as a whole. -/
theorem Derives.reuse {root : Position} {type : NodeType} {element : Element} {data : Option Value}
    {before middle : Pass σ}
    (derives : engine.Derives census root type element before data middle)
    (kind : element.kind = .custom type) {entry : Entry DescribeInputs Expansion}
    {expansions : Table DescribeInputs Expansion}
    (found : middle.store.expansions.entryAt root = some entry)
    (forms : Structured.form .comparison entry.inputs =
      Structured.form .comparison (DescribeInputs.ofElement element data))
    (puts : middle.store.expansions.Puts
      { entry with generation := middle.store.expansions.generation } expansions) :
    engine.Yields census root before entry.output
      { middle.withExpansions expansions with
        store := (middle.withExpansions expansions).store.keepSubtree root.expansion } := by
  obtain ⟨node, node_data, body, nested⟩ :=
    derives.stocked.nested (Position.not_startsWith_expansion root) found
  have here : entry.position = root := Table.position_of_entryAt found
  have body_covered := nested.keepSubtree puts here
  have node_forms : Structured.form .comparison (ObserveInputs.ofElement node) =
        Structured.form .comparison (ObserveInputs.ofElement element) ∧
      Value.formOption .comparison node_data = Value.formOption .comparison data := by
    rw [nested.inputs_eq] at forms
    exact DescribeInputs.form_eq_iff.mp forms
  have reusing : Pass.Progress census (· = root) middle
      { middle.withExpansions expansions with
        store := (middle.withExpansions expansions).store.keepSubtree root.expansion } :=
    ⟨.refl census _, (Pass.putExpansion_changesWithin puts here).trans
      (Store.keepSubtree_changesWithin _ _ _), fun _ => .inl⟩
  rw [nested.output_eq]
  refine ⟨derives.stocked.reuse found nested puts,
    (derives.progress.trans reusing).widen fun _ => Position.below_of_eq, ?_, ?_⟩
  · intro position present located
    cases located with
    | here =>
        have kept : expansions.Keeps True root (DescribeInputs.ofElement node node_data)
            { entry with generation := middle.store.expansions.generation } :=
          puts.keeps here rfl (by rw [nested.inputs_eq])
        refine ⟨?_, fun kind_eq => ?_, fun _ _ => ⟨_, kept.keepSubtree .inl⟩⟩
        · have knows := nested.inputs_eq ▸ (derives.stocked.expansions.proper found).inputs
          exact knows.2
        · have same_kind : node.kind = element.kind := congrArg ObserveInputs.kind node_forms.1
          obtain rfl : _ = type := Kind.custom.inj (kind_eq.symm.trans (same_kind.trans kind))
          exact (derives.observed.congr node_forms.1.symm node_forms.2.symm).imp
            fun _ _ kept => kept.keepSubtree .inl
    | body located => exact body_covered position present located
  · intro position old present recorded located old_forms
    have unchanged : Pass.Spares position middle _ := fun call member _ => member
    by_cases at_root : position = root
    · subst at_root
      obtain rfl := located.eq_of_root
      exact (derives.spares kind recorded (old_forms.trans node_forms.1)).2.trans unchanged
    · exact (derives.progress.spares at_root).trans unchanged

theorem Derives.count {root : Position} {type : NodeType} {element : Element} {data : Option Value}
    {before middle : Pass σ} (derives : engine.Derives census root type element before data middle)
    (stats : Stats) :
    engine.Derives census root type element before data
      (middle.withExpansions { middle.store.expansions with stats }) where
  stocked := derives.stocked.countExpansions stats
  progress := derives.progress.trans
    ⟨.refl census _, Pass.countExpansions_changesWithin _ _ _, fun _ => .inl⟩
  expansions kept :=
    let ⟨found, form_eq, isLive⟩ := derives.expansions kept
    ⟨found, form_eq, isLive⟩
  knows := derives.knows
  observed := derives.observed.imp fun _ _ kept => kept
  reuses := derives.reuses

/-- A node that is described, once its body is expanded and its expansion stored. -/
theorem Yields.described {root : Position} {before middle late : Pass σ} {element : Element}
    {data : Option Value} {body : Expansion} {entry : Entry DescribeInputs Expansion}
    {expansions : Table DescribeInputs Expansion}
    (opening : Pass.Progress census (· = root) before middle)
    (below : engine.Yields census root.expansion middle body late)
    (puts : late.store.expansions.Puts entry expansions) (here : entry.position = root)
    (inputs_eq : entry.inputs = .ofElement element data)
    (output_eq : entry.output = .described element data body)
    (proper : ProperDescription census late.world.ambient entry)
    (current : entry.generation = late.store.expansions.generation)
    (observed : ∀ type, element.kind = .custom type →
      engine.Observed late.store True root type element data)
    (fresh : ∀ old, engine.Recorded census before.world.ambient before.store False root old →
      Structured.form .comparison (ObserveInputs.ofElement old.element) ≠
        Structured.form .comparison (ObserveInputs.ofElement element)) :
    engine.Yields census root before (.described element data body)
      (late.withExpansions expansions) := by
  have put : Pass.Progress census (· = root) late (late.withExpansions expansions) :=
    .putExpansion puts here
  have apart : ¬ root.expansion.Below root := Position.not_startsWith_expansion root
  have body_covered : engine.Covers census late.world.ambient
      (late.withExpansions expansions).store True root.expansion body := by
    refine below.covers.frame put.grows put.changes ?_
    rintro _ inside rfl
    exact apart inside
  have kept : expansions.Keeps True root (DescribeInputs.ofElement element data) entry :=
    puts.keeps here current (by rw [inputs_eq])
  have knows : census.Knows late.world.ambient (ObserveInputs.ofElement element) :=
    (inputs_eq ▸ proper.inputs : census.Knows _ (DescribeInputs.ofElement element data)).2
  refine ⟨?_, ?_, ?_, ?_⟩
  · exact (below.stocked.putExpansion puts here proper current).complete kept.found
      ⟨inputs_eq, output_eq, body_covered.weaken fun _ => trivial⟩
  · refine ((opening.widen fun _ => Position.below_of_eq).trans (below.progress.widen ?_)).trans
      (put.widen fun _ => Position.below_of_eq)
    intro position inside
    exact Position.startsWith_trans inside (Position.expansion_startsWith root)
  · intro position node located
    cases located with
    | here => exact ⟨knows, observed _, fun _ _ => ⟨entry, kept⟩⟩
    | body located => exact body_covered position node located
  · intro position old node recorded located forms
    cases located with
    | here => exact absurd forms (fresh old recorded)
    | body located =>
        have elsewhere : position ≠ root := by
          rintro rfl
          exact apart located.startsWith
        exact ((opening.spares elsewhere).trans (below.spares
          (recorded.frame opening.grows opening.changes elsewhere) located forms)).trans
          (put.spares elsewhere)

/-- An expansion that is not in the store is computed and stored. -/
theorem Derives.compute (orderly : engine.Orderly census) {root : Position} {type : NodeType}
    {element : Element} {data : Option Value} {before middle after : Pass σ}
    {expansion : Expansion} {describe : DescribeContext → Action σ Fault Element}
    {expand : Element → EStateM EngineError (Pass σ) Expansion}
    (derives : engine.Derives census root type element before data middle)
    (kind : element.kind = .custom type)
    (present : (engine.vocabulary type).describe = some describe)
    (knows : census.Knows middle.world.ambient element)
    (addressable : middle.store.expansions.Addressable root)
    (fresh : ∀ old, engine.Recorded census before.world.ambient before.store False root old →
      Structured.form .comparison (ObserveInputs.ofElement old.element) ≠
        Structured.form .comparison (ObserveInputs.ofElement element))
    (yields : ∀ output start body last,
      engine.Stocked census start.world.ambient start.store root.expansion →
      census.Knows start.world.ambient output → expand output start = .ok body last →
      engine.Yields census root.expansion start body last)
    (run : computeExpansion root type element data describe expand middle = .ok expansion after) :
    engine.Yields census root before expansion after := by
  obtain ⟨output, described, calling, run⟩ := bind_eq_ok.mp run
  obtain ⟨world, describing, rfl⟩ := Pass.of_run_ok calling
  obtain ⟨body, late, expanding, run⟩ := bind_eq_ok.mp run
  obtain ⟨id, stored, storing, run⟩ := bind_eq_ok.mp run
  obtain ⟨expansions, store_eq, rfl⟩ := Pass.of_onExpansions_ok storing
  obtain ⟨rfl, rfl⟩ := EStateM.Result.ok.inj run
  obtain ⟨grows, knows_output⟩ := (orderly.describe present).gives
    (knows.describeContext derives.knows) (surfacing_eq_ok.mp describing)
  have below := yields output _ body late
    ((derives.stocked.grow grows).descend (Position.expansion_startsWith root)) knows_output expanding
  have apart : ¬ root.expansion.Below root := Position.not_startsWith_expansion root
  have addressable_late : late.store.expansions.Addressable root :=
    below.progress.changes.expansions.addressable apart addressable
  obtain ⟨_, other, other_eq, puts⟩ := below.stocked.expansions.filed.store_ok addressable_late
    (DescribeInputs.ofElement element data).fingerprint (DescribeInputs.ofElement element data)
    (.described element data body)
  obtain ⟨rfl, rfl⟩ := Prod.mk.inj (Except.ok.inj (store_eq.symm.trans other_eq))
  have grows_late := grows.trans below.progress.grows
  have knows_inputs :=
    (knows.grow grows_late).describeInputs (derives.knows.grow grows_late)
  refine .described (derives.progress.trans (.call grows ⟨root, .description⟩)) below puts rfl rfl rfl
    ⟨knows_inputs, rfl⟩ rfl (fun other custom => ?_) fresh
  obtain rfl : other = type := Kind.custom.inj (custom.symm.trans kind)
  exact derives.observed.imp fun _ _ kept =>
    kept.frame below.progress.changes.observations apart

theorem recallExpansion_yields (defined : Number.Defined census.number)
    (orderly : engine.Orderly census) {root : Position} {type : NodeType} {element : Element}
    {data : Option Value} {before middle after : Pass σ} {expansion : Expansion}
    {describe : DescribeContext → Action σ Fault Element}
    {expand : Element → EStateM EngineError (Pass σ) Expansion}
    (derives : engine.Derives census root type element before data middle)
    (kind : element.kind = .custom type)
    (present : (engine.vocabulary type).describe = some describe)
    (knows : census.Knows middle.world.ambient element)
    (yields : ∀ output start body last,
      engine.Stocked census start.world.ambient start.store root.expansion →
      census.Knows start.world.ambient output → expand output start = .ok body last →
      engine.Yields census root.expansion start body last)
    (run : recallExpansion root element data
      (computeExpansion root type element data describe expand) middle = .ok expansion after) :
    engine.Yields census root before expansion after := by
  obtain ⟨outcome, looked_up, looking, run⟩ := bind_eq_ok.mp run
  obtain ⟨expansions, lookup_eq, rfl⟩ := Pass.of_onExpansions_ok looking
  have knows_inputs := knows.describeInputs derives.knows
  have looked := derives.stocked.expansions.filed.looked root
    (DescribeInputs.ofElement element data).fingerprint (DescribeInputs.ofElement element data)
  rw [lookup_eq] at looked
  cases looked with
  | @hit entry _ found _ same puts =>
      obtain ⟨rfl, rfl⟩ := EStateM.Result.ok.inj run
      have proper := derives.stocked.expansions.proper found
      exact derives.reuse kind found (DescribeInputs.form_eq_of_beq
        (census.discerns_comparison _) proper.inputs knows_inputs same) puts
  | @missed _ stats outcome_eq addressable apart =>
      have fresh (old : Expansion)
          (recorded : engine.Recorded census before.world.ambient before.store False root old) :
          Structured.form .comparison (ObserveInputs.ofElement old.element) ≠
            Structured.form .comparison (ObserveInputs.ofElement element) := by
        intro forms
        have kind_eq : old.element.kind = element.kind := congrArg ObserveInputs.kind forms
        have described : (engine.vocabulary type).describe.isSome := by rw [present]; rfl
        obtain ⟨entry, kept⟩ := recorded.described (kind_eq.trans kind) described
        exact derives.stocked.no_description defined apart (derives.expansions kept)
          (DescribeInputs.form_eq_iff.mpr ⟨forms, (derives.spares kind recorded forms).1⟩)
      refine (derives.count stats).compute orderly kind present knows addressable fresh yields ?_
      rcases outcome_eq with rfl | rfl
      · exact run
      · exact run

/-- With a stocked store, memoized expansion covers what it gives, leaves the store stocked, and
spares the callbacks of nodes that were recorded with the same inputs. -/
theorem memoizedAt_yields (defined : Number.Defined census.number)
    (narrow : ∀ node, census.node node → node.children.length < UInt32.size)
    (orderly : engine.Orderly census) {room : Nat} {root : Position} {element : Element}
    {before after : Pass σ} {expansion : Expansion}
    (stocked : engine.Stocked census before.world.ambient before.store root)
    (knows : census.Knows before.world.ambient element)
    (run : engine.memoizedAt room root element before = .ok expansion after) :
    engine.Yields census root before expansion after := by
  induction room generalizing root element before expansion after with
  | zero => exact nomatch run
  | succ room induction =>
      have fits : 0 + element.children.length ≤ UInt32.size := by
        cases element
        have := narrow _ knows.1.2
        omega
      have children_yield {start last : Pass σ} {children : List Expansion}
          (start_stocked : engine.Stocked census start.world.ambient start.store root)
          (start_knows : census.Knows start.world.ambient element)
          (children_run : element.children.zipIdx.mapM (fun entry =>
            engine.memoizedAt room (root.child entry.2) entry.1) start = .ok children last) :
          engine.YieldsEach census root 0 start children last :=
        (mapM_yields (fun _ _ _ _ _ stocked knows run => induction stocked knows run) fits
          start_stocked (fun child member => start_knows.child member) children_run).1
      rw [memoizedAt] at run
      cases kind : element.kind with
      | primitive builtIn =>
          rw [kind] at run
          obtain ⟨children, last, children_run, run⟩ := bind_eq_ok.mp run
          obtain ⟨rfl, rfl⟩ := EStateM.Result.ok.inj run
          have each := children_yield stocked knows children_run
          refine each.structural (.refl _ before) ?_ fun _ _ _ => .refl root before
          exact ⟨(knows.grow each.progress.grows).observeInputs,
            fun custom => (nomatch kind.symm.trans custom), fun custom => nomatch kind.symm.trans custom⟩
      | custom type =>
          rw [kind] at run
          obtain ⟨data, middle, data_run, run⟩ := bind_eq_ok.mp run
          have derives := memoizedData_derives defined orderly stocked knows data_run
          have knows_middle := knows.grow derives.progress.grows
          cases present : (engine.vocabulary type).describe with
          | none =>
              rw [present] at run
              obtain ⟨children, last, children_run, run⟩ := bind_eq_ok.mp run
              obtain ⟨rfl, rfl⟩ := EStateM.Result.ok.inj run
              have each := children_yield derives.stocked knows_middle children_run
              refine each.structural derives.progress ?_ fun old recorded forms =>
                (derives.spares kind recorded forms).2
              refine ⟨(knows_middle.grow each.progress.grows).observeInputs, fun custom => ?_,
                fun custom described => ?_⟩
              · obtain rfl : type = _ := Kind.custom.inj (kind.symm.trans custom)
                exact derives.observed.imp fun _ _ kept => kept.frame each.progress.changes.observations
                  (Position.not_belowChildren_root root _ _)
              · obtain rfl : type = _ := Kind.custom.inj (kind.symm.trans custom)
                rw [present] at described
                cases described
          | some describe =>
              rw [present] at run
              exact recallExpansion_yields defined orderly derives kind present knows_middle
                (fun _ _ _ _ stocked knows run => induction stocked knows run) run

end Engine

end Phrasing
