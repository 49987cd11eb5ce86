import Phrasing.Proofs.Expansion.Meaning
import Phrasing.Proofs.Expansion.Passes

/-!
# Sound memo stores

A memo store is sound when every stored output has the form that is computed from the form of the
stored inputs.  A lookup that hits then gives what would be computed, whatever the fingerprints are,
and what is stored on the way keeps the store sound.
-/

namespace Phrasing

open Memo

/-- A node with the given inputs. -/
def ObserveInputs.element (inputs : ObserveInputs) : Element :=
  .node 0 inputs.kind inputs.props inputs.children ⟨0, 0⟩

/-- A node with the given inputs. -/
def DescribeInputs.element (inputs : DescribeInputs) : Element :=
  .node 0 inputs.kind inputs.props inputs.children ⟨0, 0⟩

/-- What a description with the given inputs is given. -/
def DescribeInputs.context (inputs : DescribeInputs) : DescribeContext :=
  { data := inputs.data, props := inputs.props, children := inputs.children }

theorem ObserveInputs.element_form (element : Element) :
    (Structured.form .structural (ObserveInputs.ofElement element)).element =
      element.form .structural := by
  cases element
  rfl

theorem DescribeInputs.element_form (element : Element) (data : Option Value) :
    (Structured.form .structural (DescribeInputs.ofElement element data)).element =
      element.form .structural := by
  cases element
  rfl

theorem DescribeInputs.context_form (element : Element) (data : Option Value) :
    (Structured.form .structural (DescribeInputs.ofElement element data)).context =
      Structured.form .structural
        ({ data, props := element.props, children := element.children } : DescribeContext) :=
  rfl

namespace Engine

variable {σ : Type}

/-- The data are what is computed from the structure of the inputs. -/
def MeansData (engine : Engine σ) (meaning : Meaning) (inputs : ObserveInputs) (data : Value) :
    Prop :=
  ∃ type derive, inputs.kind = .custom type ∧ engine.meantDerivation? meaning type = some derive ∧
    derive inputs.element = .ok data

/-- The expansion is what is computed at the position from the structure of the inputs. -/
def MeansExpansion (engine : Engine σ) (meaning : Meaning) (position : Position)
    (inputs : DescribeInputs) (expansion : Expansion) : Prop :=
  ∃ type output body, inputs.kind = .custom type ∧
    surfaced type .describe (meaning.describe type inputs.context) = .ok output ∧
    engine.meantAt meaning (engine.config.maxDepth - position.depth) position.expansion output =
      .ok body ∧
    expansion = .described inputs.element inputs.data body

/-- Every stored output is what is computed from the structure of its inputs. -/
structure Sound (engine : Engine σ) (census : Census σ) (meaning : Meaning) (ambient : σ)
    (store : Store) : Prop where
  /-- The observations are filed. -/
  observations_filed : store.observations.Filed
  /-- The expansions are filed. -/
  expansions_filed : store.expansions.Filed
  /-- Stored observations are listed in the census, with what is computed from them. -/
  observation {position : Position} {entry : Entry ObserveInputs Value} :
    store.observations.entryAt position = some entry →
    census.Knows ambient entry.inputs ∧ census.Knows ambient entry.output ∧
      engine.MeansData meaning (Structured.form .structural entry.inputs)
        (entry.output.form .structural)
  /-- Stored descriptions are listed in the census, with what is computed from them. -/
  description {position : Position} {entry : Entry DescribeInputs Expansion} :
    store.expansions.entryAt position = some entry →
    census.Knows ambient entry.inputs ∧
      engine.MeansExpansion meaning position (Structured.form .structural entry.inputs)
        (entry.output.form .structural)

/-- The regime of a memoized expansion at a position.  The only error that is excused is that a
table has more entries than addresses. -/
def memoizing (engine : Engine σ) (census : Census σ) (meaning : Meaning) (position : Position) :
    Regime (Pass σ) where
  Valid pass := engine.Sound census meaning pass.world.ambient pass.store
  Leads before after :=
    census.Grows before.world.ambient after.world.ambient ∧
      before.store.ChangesWithin position.Below after.store
  Excuses error pass :=
    (∃ table position found, error = .table (.misfiled table position found)) ∧
      pass.store.Overfull
  refl _ := ⟨.refl census _, .refl position.Below _⟩
  trans earlier later := ⟨earlier.1.trans later.1, earlier.2.trans later.2⟩

variable {engine : Engine σ} {census : Census σ} {meaning : Meaning}

theorem memoizing_narrows {root lower : Position} (below : lower.startsWith root = true) :
    (engine.memoizing census meaning lower).Narrows (engine.memoizing census meaning root) where
  valid sound := sound
  leads := fun ⟨grows, changes⟩ =>
    ⟨grows, changes.widen fun _ inside => Position.startsWith_trans inside below⟩
  excuses excuse := excuse

theorem Sound.grow {before after : σ} {store : Store}
    (sound : engine.Sound census meaning before store) (grows : census.Grows before after) :
    engine.Sound census meaning after store where
  observations_filed := sound.observations_filed
  expansions_filed := sound.expansions_filed
  observation found :=
    let ⟨knows_inputs, knows_output, means⟩ := sound.observation found
    ⟨knows_inputs.grow grows, knows_output.grow grows, means⟩
  description found :=
    let ⟨knows_inputs, means⟩ := sound.description found
    ⟨knows_inputs.grow grows, means⟩

theorem Sound.putObservation {ambient : σ} {store : Store}
    (sound : engine.Sound census meaning ambient store) {entry : Entry ObserveInputs Value}
    {observations : Table ObserveInputs Value} (puts : store.observations.Puts entry observations)
    (knows_inputs : census.Knows ambient entry.inputs)
    (knows_output : census.Knows ambient entry.output)
    (means : engine.MeansData meaning (Structured.form .structural entry.inputs)
      (entry.output.form .structural)) :
    engine.Sound census meaning ambient { store with observations } where
  observations_filed := puts.filed
  expansions_filed := sound.expansions_filed
  observation {position} _ found := by
    rw [puts.entryAt] at found
    split at found
    · obtain rfl := Option.some.inj found
      exact ⟨knows_inputs, knows_output, means⟩
    · exact sound.observation found
  description := sound.description

theorem Sound.putDescription {ambient : σ} {store : Store}
    (sound : engine.Sound census meaning ambient store) {entry : Entry DescribeInputs Expansion}
    {expansions : Table DescribeInputs Expansion} (puts : store.expansions.Puts entry expansions)
    (knows_inputs : census.Knows ambient entry.inputs)
    (means : engine.MeansExpansion meaning entry.position
      (Structured.form .structural entry.inputs) (entry.output.form .structural)) :
    engine.Sound census meaning ambient { store with expansions } where
  observations_filed := sound.observations_filed
  expansions_filed := puts.filed
  observation := sound.observation
  description {position} _ found := by
    rw [puts.entryAt] at found
    split at found
    · next here =>
        obtain rfl := Option.some.inj found
        exact ⟨knows_inputs, here ▸ means⟩
    · exact sound.description found

theorem Sound.keepSubtree {ambient : σ} {store : Store}
    (sound : engine.Sound census meaning ambient store) (root : Position) :
    engine.Sound census meaning ambient (store.keepSubtree root) where
  observations_filed := sound.observations_filed.keepSubtree root
  expansions_filed := sound.expansions_filed.keepSubtree root
  observation := sound.observation
  description := sound.description

theorem Sound.countObservations {ambient : σ} {store : Store}
    (sound : engine.Sound census meaning ambient store) (stats : Stats) :
    engine.Sound census meaning ambient
      { store with observations := { store.observations with stats } } :=
  ⟨⟨sound.observations_filed.distinct, sound.observations_filed.indexed⟩, sound.expansions_filed,
    sound.observation, sound.description⟩

theorem Sound.countExpansions {ambient : σ} {store : Store}
    (sound : engine.Sound census meaning ambient store) (stats : Stats) :
    engine.Sound census meaning ambient
      { store with expansions := { store.expansions with stats } } :=
  ⟨sound.observations_filed, ⟨sound.expansions_filed.distinct, sound.expansions_filed.indexed⟩,
    sound.observation, sound.description⟩

theorem run_meets {α β : Type} {root : Position} {pass : Pass σ} {call : Call}
    {callbacks : Action σ EngineError β} {reads : World σ → β → α → Prop}
    {expected : Except EngineError α}
    (sound : engine.Sound census meaning pass.world.ambient pass.store)
    (meets : census.running.Meets pass.world reads (callbacks pass.world) expected) :
    (engine.memoizing census meaning root).Meets pass (fun after => reads after.world)
      (Pass.run call callbacks pass) expected := by
  rw [Pass.run, Pass.act]
  simp only
  generalize callbacks pass.world = outcome at meets ⊢
  cases meets with
  | ok _ grows as_expected => exact .ok (sound.grow grows) ⟨grows, .refl root.Below _⟩ as_expected
  | failed _ grows => exact .failed (sound.grow grows) ⟨grows, .refl root.Below _⟩
  | excused _ _ excuse => exact excuse.elim

theorem MeansData.meantData {type : NodeType} {element : Element} {data : Value}
    (means : engine.MeansData meaning
      (Structured.form .structural (ObserveInputs.ofElement element)) data)
    (kind : element.kind = .custom type) :
    engine.meantData meaning type (element.form .structural) = .ok (some data) := by
  obtain ⟨other, derive, kind_eq, derive_eq, data_eq⟩ := means
  obtain rfl : type = other := Kind.custom.inj (kind.symm.trans kind_eq)
  rw [ObserveInputs.element_form] at data_eq
  rw [Engine.meantData, derive_eq]
  simp only [data_eq]
  rfl

theorem MeansExpansion.meant {position : Position} {type : NodeType} {element : Element}
    {data : Option Value} {room : Nat} {expansion : Expansion}
    (means : engine.MeansExpansion meaning position
      (Structured.form .structural (DescribeInputs.ofElement element data)) expansion)
    (kind : element.kind = .custom type) (fits : room + position.depth = engine.config.maxDepth) :
    meantExpansion meaning type (element.form .structural) (Structured.form .structural data)
      (engine.meantAt meaning room position.expansion) = .ok expansion := by
  obtain ⟨other, output, body, kind_eq, described, expanded, rfl⟩ := means
  obtain rfl : type = other := Kind.custom.inj (kind.symm.trans kind_eq)
  rw [DescribeInputs.context_form] at described
  rw [← fits, Nat.add_sub_cancel] at expanded
  rw [DescribeInputs.element_form]
  have described_here : surfaced type .describe (meaning.describe type
      { data := Structured.form .structural data
        props := (element.form .structural).props
        children := (element.form .structural).children }) = .ok output := by
    simpa [Structured.form] using described
  rw [meantExpansion, described_here]
  change (engine.meantAt meaning room position.expansion output >>= _) = _
  rw [expanded]
  rfl

variable [Digest]

theorem computeData_meets {position : Position} {type : NodeType} {element : Element}
    {derive : Element → Action σ EngineError Value} {meant : Element → Except EngineError Value}
    (kind : element.kind = .custom type)
    (derivation : engine.meantDerivation? meaning type = some meant)
    (derive_meets : ∀ element world, census.Knows world.ambient element →
      census.running.Meets world census.Reads (derive element world)
        (meant (element.form .structural)))
    (pass : Pass σ) (sound : engine.Sound census meaning pass.world.ambient pass.store)
    (addressable : pass.store.observations.Addressable position)
    (knows : census.Knows pass.world.ambient element) :
    (engine.memoizing census meaning position).Meets pass (fun after => census.Reads after.world)
      (computeData position element derive pass) (some <$> meant (element.form .structural)) := by
  rw [computeData, map_eq_pure_bind]
  have below : position.expansion.startsWith position = true := Position.expansion_startsWith _
  have apart := Position.not_startsWith_expansion position
  refine .bind (memoizing_narrows below) (run_meets sound (derive_meets element _ knows)) ?_
  rintro data form after meant_eq after_sound ⟨grows, changes⟩ ⟨knows_data, rfl⟩
  obtain ⟨id, observations, store_eq, puts⟩ := after_sound.observations_filed.store_ok
    (changes.observations.addressable apart addressable)
    (ObserveInputs.ofElement element).fingerprint (ObserveInputs.ofElement element) data
  rw [bind_of_ok (Pass.onObservations_ok store_eq)]
  have means : engine.MeansData meaning
      (Structured.form .structural (ObserveInputs.ofElement element)) (data.form .structural) :=
    ⟨type, meant, kind, derivation, (ObserveInputs.element_form element).symm ▸ meant_eq⟩
  exact .ok (after_sound.putObservation puts (knows.grow grows).observeInputs knows_data means)
    ⟨.refl census _, Pass.putObservation_changesWithin puts (Position.startsWith_refl _)⟩
    ⟨Census.knows_some.mpr knows_data, rfl⟩

theorem memoizedData_meets (discerns : ∀ ambient,
      Focus.structural.Discerns census.number (census.Lists ambient))
    (orderly : engine.Orderly census) (computes : engine.Computes census meaning)
    {position : Position} {type : NodeType} {element : Element}
    (kind : element.kind = .custom type) (pass : Pass σ)
    (sound : engine.Sound census meaning pass.world.ambient pass.store)
    (knows : census.Knows pass.world.ambient element) :
    (engine.memoizing census meaning position).Meets pass (fun after => census.Reads after.world)
      (engine.memoizedData position type element pass)
      (engine.meantData meaning type (element.form .structural)) := by
  rw [memoizedData]
  cases derivation : engine.processor.derivation? engine.vocabulary type with
  | none =>
      rw [Engine.meantData, meantDerivation?_eq_none derivation]
      exact .pure sound ⟨Census.knows_none, rfl⟩
  | some derive =>
      obtain ⟨meant, meant_eq, derive_meets⟩ := derivation_meets orderly computes derivation
      have looked := sound.observations_filed.looked position
        (ObserveInputs.ofElement element).fingerprint (ObserveInputs.ofElement element)
      generalize lookup_eq : pass.store.observations.lookup position _ _ = outcome at looked
      simp only [recallData]
      cases looked with
      | @hit entry after found _ same puts =>
          obtain ⟨knows_inputs, knows_output, means⟩ := sound.observation found
          rw [bind_of_ok (Pass.onObservations_ok lookup_eq)]
          have means_here := means
          rw [ObserveInputs.form_eq_of_beq (discerns _) knows_inputs knows.observeInputs same]
            at means_here
          rw [means_here.meantData kind]
          exact .ok (sound.putObservation puts knows_inputs knows_output means)
            ⟨.refl census _, Pass.putObservation_changesWithin puts
              (Table.position_of_entryAt found ▸ Position.startsWith_refl _)⟩
            ⟨Census.knows_some.mpr knows_output, rfl⟩
      | @missed _ stats outcome_eq addressable _ =>
          rw [bind_of_ok (Pass.onObservations_ok lookup_eq), Engine.meantData, meant_eq]
          have leads : (engine.memoizing census meaning position).Leads pass
              (pass.withObservations { pass.store.observations with stats }) :=
            ⟨.refl census _, Pass.countObservations_changesWithin _ pass stats⟩
          have counted : engine.Sound census meaning pass.world.ambient
              (pass.withObservations { pass.store.observations with stats }).store :=
            sound.countObservations stats
          have computed := computeData_meets kind meant_eq derive_meets
            (pass.withObservations { pass.store.observations with stats }) counted addressable knows
          rcases outcome_eq with rfl | rfl
          · exact computed.after leads
          · exact computed.after leads
      | misfiled overfull =>
          rw [bind_of_error (Pass.onObservations_error lookup_eq)]
          exact .excused sound ⟨.refl census _, .refl position.Below _⟩ ⟨⟨_, _, _, rfl⟩, .inl overfull⟩

/-- The expansion has the form. -/
def ExpansionReads (_pass : Pass σ) (result form : Expansion) : Prop :=
  result.form .structural = form

theorem computeExpansion_meets (orderly : engine.Orderly census)
    (computes : engine.Computes census meaning) {room : Nat} {position : Position} {type : NodeType}
    {element : Element} {data : Option Value}
    {describe : DescribeContext → Action σ Fault Element}
    {expand : Element → EStateM EngineError (Pass σ) Expansion}
    (kind : element.kind = .custom type)
    (present : (engine.vocabulary type).describe = some describe)
    (fits : room + position.depth = engine.config.maxDepth)
    (expands : ∀ output pass, engine.Sound census meaning pass.world.ambient pass.store →
      census.Knows pass.world.ambient output →
      (engine.memoizing census meaning position.expansion).Meets pass ExpansionReads
        (expand output pass)
        (engine.meantAt meaning room position.expansion (output.form .structural)))
    (pass : Pass σ) (sound : engine.Sound census meaning pass.world.ambient pass.store)
    (addressable : pass.store.expansions.Addressable position)
    (knows : census.Knows pass.world.ambient element)
    (knows_data : census.Knows pass.world.ambient data) :
    (engine.memoizing census meaning position).Meets pass ExpansionReads
      (computeExpansion position type element data describe expand pass)
      (meantExpansion meaning type (element.form .structural) (Structured.form .structural data)
        (engine.meantAt meaning room position.expansion)) := by
  have below : position.expansion.startsWith position = true := Position.expansion_startsWith _
  have apart := Position.not_startsWith_expansion position
  rw [computeExpansion, meantExpansion]
  refine .bind (memoizing_narrows below)
    (run_meets sound (describing_meets orderly computes present knows knows_data)) ?_
  rintro output form later described later_sound ⟨grows, changes⟩ ⟨knows_output, rfl⟩
  refine .bind (memoizing_narrows below) (expands output later later_sound knows_output) ?_
  rintro body form after expanded after_sound ⟨grows_on, changes_on⟩ rfl
  have knows_after := knows.grow (grows.trans grows_on)
  have knows_data_after := knows_data.grow (grows.trans grows_on)
  obtain ⟨id, expansions, store_eq, puts⟩ := after_sound.expansions_filed.store_ok
    ((changes.expansions.trans changes_on.expansions).addressable apart addressable)
    (DescribeInputs.ofElement element data).fingerprint (DescribeInputs.ofElement element data)
    (.described element data body)
  rw [bind_of_ok (Pass.onExpansions_ok store_eq)]
  have means : engine.MeansExpansion meaning position
      (Structured.form .structural (DescribeInputs.ofElement element data))
      ((Expansion.described element data body).form .structural) := by
    refine ⟨type, output.form .structural, body.form .structural, kind, ?_, ?_, ?_⟩
    · rw [DescribeInputs.context_form]
      simpa [Structured.form] using described
    · rw [← fits, Nat.add_sub_cancel]
      exact expanded
    · rw [DescribeInputs.element_form]
      rfl
  exact .ok (after_sound.putDescription puts (knows_after.describeInputs knows_data_after) means)
    ⟨.refl census _, Pass.putExpansion_changesWithin puts (Position.startsWith_refl _)⟩ rfl

theorem recallExpansion_meets (discerns : ∀ ambient,
      Focus.structural.Discerns census.number (census.Lists ambient))
    (orderly : engine.Orderly census) (computes : engine.Computes census meaning) {room : Nat}
    {position : Position} {type : NodeType} {element : Element} {data : Option Value}
    {describe : DescribeContext → Action σ Fault Element}
    {expand : Element → EStateM EngineError (Pass σ) Expansion}
    (kind : element.kind = .custom type)
    (present : (engine.vocabulary type).describe = some describe)
    (fits : room + position.depth = engine.config.maxDepth)
    (expands : ∀ output pass, engine.Sound census meaning pass.world.ambient pass.store →
      census.Knows pass.world.ambient output →
      (engine.memoizing census meaning position.expansion).Meets pass ExpansionReads
        (expand output pass)
        (engine.meantAt meaning room position.expansion (output.form .structural)))
    (pass : Pass σ) (sound : engine.Sound census meaning pass.world.ambient pass.store)
    (knows : census.Knows pass.world.ambient element)
    (knows_data : census.Knows pass.world.ambient data) :
    (engine.memoizing census meaning position).Meets pass ExpansionReads
      (recallExpansion position element data
        (computeExpansion position type element data describe expand) pass)
      (meantExpansion meaning type (element.form .structural) (Structured.form .structural data)
        (engine.meantAt meaning room position.expansion)) := by
  have looked := sound.expansions_filed.looked position
    (DescribeInputs.ofElement element data).fingerprint (DescribeInputs.ofElement element data)
  generalize lookup_eq : pass.store.expansions.lookup position _ _ = outcome at looked
  rw [recallExpansion]
  cases looked with
  | @hit entry expansions found _ same puts =>
      obtain ⟨knows_inputs, means⟩ := sound.description found
      rw [bind_of_ok (Pass.onExpansions_ok lookup_eq)]
      have means_here := means
      rw [DescribeInputs.form_eq_of_beq (discerns _) knows_inputs
        (knows.describeInputs knows_data) same] at means_here
      rw [means_here.meant kind fits]
      have here : entry.position = position := Table.position_of_entryAt found
      have below : entry.position.startsWith position = true := by
        rw [here]
        exact Position.startsWith_refl position
      have put := sound.putDescription puts knows_inputs (here.symm ▸ means)
      exact .ok (put.keepSubtree position.expansion)
        ⟨.refl census _, (Pass.putExpansion_changesWithin puts below).trans
          (Store.keepSubtree_changesWithin _ _ position.expansion)⟩ rfl
  | @missed _ stats outcome_eq addressable _ =>
      rw [bind_of_ok (Pass.onExpansions_ok lookup_eq)]
      have leads : (engine.memoizing census meaning position).Leads pass
          (pass.withExpansions { pass.store.expansions with stats }) :=
        ⟨.refl census _, Pass.countExpansions_changesWithin _ pass stats⟩
      have counted : engine.Sound census meaning pass.world.ambient
          (pass.withExpansions { pass.store.expansions with stats }).store :=
        sound.countExpansions stats
      have computed := computeExpansion_meets orderly computes kind present fits expands
        (pass.withExpansions { pass.store.expansions with stats }) counted addressable knows
        knows_data
      rcases outcome_eq with rfl | rfl
      · exact computed.after leads
      · exact computed.after leads
  | misfiled overfull =>
      rw [bind_of_error (Pass.onExpansions_error lookup_eq)]
      exact .excused sound ⟨.refl census _, .refl position.Below _⟩ ⟨⟨_, _, _, rfl⟩, .inr overfull⟩

/-- With a sound store, memoized expansion gives what is computed from the structure of the element,
and leaves the store sound. -/
theorem memoizedAt_meets (discerns : ∀ ambient,
      Focus.structural.Discerns census.number (census.Lists ambient))
    (orderly : engine.Orderly census) (computes : engine.Computes census meaning) (room : Nat)
    (position : Position) (element : Element)
    (fits : room + position.depth = engine.config.maxDepth + 1) (pass : Pass σ)
    (sound : engine.Sound census meaning pass.world.ambient pass.store)
    (knows : census.Knows pass.world.ambient element) :
    (engine.memoizing census meaning position).Meets pass ExpansionReads
      (engine.memoizedAt room position element pass)
      (engine.meantAt meaning room position (element.form .structural)) := by
  induction room generalizing position element pass with
  | zero => exact .failed sound ((engine.memoizing census meaning position).refl pass)
  | succ room induction =>
      have children_meet (state : Pass σ)
          (valid : engine.Sound census meaning state.world.ambient state.store)
          (grows : census.Grows pass.world.ambient state.world.ambient) :
          (engine.memoizing census meaning position).Meets state
            (fun _ => List.Forall₂ fun result form => result.form .structural = form)
            (element.children.zipIdx.mapM (fun entry =>
              engine.memoizedAt room (position.child entry.2) entry.1) state)
            (element.children.zipIdx.mapM fun entry =>
              engine.meantAt meaning room (position.child entry.2) (entry.1.form .structural)) := by
        refine .mapM valid fun entry member later later_valid ⟨grows_later, _⟩ => ?_
        have depth_eq : room + (position.child entry.2).depth = engine.config.maxDepth + 1 := by
          rw [Position.depth_child]
          omega
        exact (induction _ _ depth_eq later later_valid
          ((knows.child (List.fst_mem_of_mem_zipIdx member)).grow
            (grows.trans grows_later))).weaken
          (memoizing_narrows (Position.child_startsWith position entry.2)) fun _ _ _ same => same
      rw [memoizedAt, meantAt, Element.kind_form]
      simp only [Element.mapM_children_form]
      cases kind : element.kind with
      | primitive builtIn =>
          refine .bind (.refl _) (children_meet pass sound (.refl census _)) ?_
          intro results forms after _ valid _ expected
          refine .pure valid ?_
          rw [ExpansionReads, Expansion.form, Expansion.forms_eq expected]
          rfl
      | custom type =>
          refine .bind (.refl _)
            (memoizedData_meets discerns orderly computes kind pass sound knows) ?_
          rintro data form after - valid ⟨grows, -⟩ ⟨knows_data, rfl⟩
          have knows_after : census.Knows after.world.ambient element := knows.grow grows
          cases present : (engine.vocabulary type).describe with
          | none =>
              refine .bind (.refl _) (children_meet after valid grows) ?_
              intro results forms last _ last_valid _ expected
              refine .pure last_valid ?_
              rw [ExpansionReads, Expansion.form, Expansion.forms_eq expected]
              rfl
          | some describe =>
              have room_fits : room + position.depth = engine.config.maxDepth := by omega
              have depth_eq : room + position.expansion.depth = engine.config.maxDepth + 1 := by
                rw [Position.depth_expansion]
                omega
              exact recallExpansion_meets discerns orderly computes kind present room_fits
                (induction position.expansion · depth_eq) after valid knows_after knows_data

end Engine

end Phrasing
