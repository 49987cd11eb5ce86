import Phrasing.Proofs.Expansion.Trailing

/-!
# A memo store only saves work

Whatever went before, a compilation that remembers runs some of the callbacks that a compilation
without the store runs, in the same order and for the same arguments.  If a callback fails, both end
with it.
-/

namespace Phrasing

open Memo
open scoped List

namespace Engine

variable {σ : Type} {engine : Engine σ} {census : Census σ} {meaning : Meaning}

/-- Callbacks that are expected to give the same give results of the same form. -/
theorem alike_of_ok {α : Type} [Structured α] {start other after last : World (Recording σ)}
    {recorded partner : Action (Recording σ) EngineError α}
    {plain plain_partner : Action σ EngineError α} {result value : α}
    {expected : Except EngineError α} (run : recorded start = .ok result after)
    (other_run : partner other = .ok value last) (erases : Erases World.erase recorded plain)
    (other_erases : Erases World.erase partner plain_partner)
    (meets : census.running.Meets start.erase census.Reads (plain start.erase) expected)
    (other_meets : census.running.Meets other.erase census.Reads (plain_partner other.erase)
      expected) :
    census.Grows start.ambient.kept after.ambient.kept ∧
      census.Knows after.ambient.kept result ∧ census.Knows last.ambient.kept value ∧
      Structured.form .structural result = Structured.form .structural value := by
  rw [erases.ok run] at meets
  rw [other_erases.ok other_run] at other_meets
  obtain ⟨form, rfl, -, grows, knows, form_eq⟩ := meets.of_ok
  obtain ⟨other_form, same, -, -, knows_value, other_eq⟩ := other_meets.of_ok
  obtain rfl := Except.ok.inj same
  exact ⟨grows, knows, knows_value, form_eq.trans other_eq.symm⟩

/-! ## Callbacks -/

section Callbacks

variable {α β : Type} [Structured α] [Structured β] {start other : World (Recording σ)}

/-- A pure callback is run alike in both runs. -/
theorem recording_trails {callback : α → Action σ Fault β} {meant : α → Except Fault β}
    (computes : census.Computes callback meant) (request : α → Request)
    (typing : List Invocation → Option NodeType) {type : NodeType} {stage : Stage}
    (stages : ∀ argument, (request argument).stage = stage) {argument partner : α}
    (knows : census.Knows start.ambient.kept argument)
    (knows_partner : census.Knows other.ambient.kept partner)
    (same : Structured.form .structural argument = Structured.form .structural partner)
    (typed : typing start.ambient.invocations = some type)
    (other_typed : typing other.ambient.invocations = some type) :
    Watch.world.Trails start other
      (surfacing type stage (recording request typing callback argument) start)
      (surfacing type stage (recording request typing callback partner) other) := by
  have computed := computes argument start.erase knows
  have other_computed := computes partner other.erase knows_partner
  rw [← same, ← computed] at other_computed
  rw [surfacing, surfacing, recording, recording, ← same, typed, other_typed,
    ← stages (Structured.form .structural argument)]
  cases run : callback argument start.erase with
  | ok result after =>
      rw [run] at other_computed
      cases other_run : callback partner other.erase with
      | ok value last =>
          refine .ok (.refl [_]) ?_ rfl rfl
          simp [Quiet]
      | error fault last =>
          rw [other_run] at other_computed
          cases other_computed
  | error fault after =>
      rw [run] at other_computed
      cases other_run : callback partner other.erase with
      | ok value last =>
          rw [other_run] at other_computed
          cases other_computed
      | error other_fault last =>
          rw [other_run] at other_computed
          obtain rfl := Except.error.inj other_computed
          exact .failed (.refl []) quiet_nil (.fault _ type other_fault) rfl rfl

end Callbacks

section Data

variable {type : NodeType} {start other : World (Recording σ)}

theorem lastType_transforming {request : Value → Request} {transform : Option (Transform σ)}
    {value result : Value} {after : World (Recording σ)}
    (run : transforming (transform.map (recording request lastType)) value start =
      .ok result after) :
    lastType after.ambient.invocations = lastType start.ambient.invocations := by
  cases transform with
  | none =>
      obtain ⟨-, rfl⟩ := EStateM.Result.ok.inj run
      rfl
  | some transform => rw [(recording_ok run).2, lastType_append_singleton]

/-- A pure transform is run alike in both runs, if it is there. -/
theorem transforming_trails {transform : Option (Transform σ)} {meant : Value → Except Fault Value}
    (computes : ∀ callback, transform = some callback → census.Computes callback meant)
    (request : Value → Request) {stage : Stage} (stages : ∀ value, (request value).stage = stage)
    {value partner : Value} (knows : census.Knows start.ambient.kept value)
    (knows_partner : census.Knows other.ambient.kept partner)
    (same : value.form .structural = partner.form .structural)
    (typed : lastType start.ambient.invocations = some type)
    (other_typed : lastType other.ambient.invocations = some type) :
    Watch.world.Trails start other
      (surfacing type stage (transforming (transform.map (recording request lastType)) value) start)
      (surfacing type stage (transforming (transform.map (recording request lastType)) partner)
        other) := by
  cases transform with
  | none => exact .pure value partner
  | some callback =>
      exact recording_trails (computes callback rfl) request lastType stages knows knows_partner same
        typed other_typed

/-- What is observed goes through the common source and the registration in both runs. -/
theorem processing_trails (orderly : engine.Orderly census)
    (computes : engine.Computes census meaning) {observed partner : Value}
    (knows : census.Knows start.ambient.kept observed)
    (knows_partner : census.Knows other.ambient.kept partner)
    (same : observed.form .structural = partner.form .structural)
    (typed : lastType start.ambient.invocations = some type)
    (other_typed : lastType other.ambient.invocations = some type) :
    Watch.world.Trails start other
      ((do
        let raw ← surfacing type .source (engine.processor.recorded.sourced observed)
        surfacing type .register (engine.processor.recorded.registered raw)) start)
      ((do
        let raw ← surfacing type .source (engine.processor.recorded.sourced partner)
        surfacing type .register (engine.processor.recorded.registered raw)) other) := by
  refine .bind (transforming_trails (fun _ => computes.source) .source (fun _ => rfl) knows
    knows_partner same typed other_typed)
    (fun raw => (adds_transforming .register _ raw).surfacing type .register) ?_
  intro raw other_raw after last run other_run
  have other_meets : census.running.Meets other.erase census.Reads
      (surfacing type .source (engine.processor.sourced partner) other.erase)
      (engine.meantSourced meaning type (observed.form .structural)) :=
    same ▸ sourced_meets orderly computes knows_partner type
  obtain ⟨-, knows_raw, knows_other, same_raw⟩ := alike_of_ok run other_run
    ((erases_sourced _ observed).surfacing type .source)
    ((erases_sourced _ partner).surfacing type .source)
    (sourced_meets orderly computes knows type) other_meets
  have after_typed := (lastType_transforming (surfacing_eq_ok.mp run)).trans typed
  have last_typed := (lastType_transforming (surfacing_eq_ok.mp other_run)).trans other_typed
  exact transforming_trails (fun _ => computes.register) .register (fun _ => rfl) knows_raw
    knows_other same_raw after_typed last_typed

/-- What is observed of nodes of the same form is observed, and processed, by the same callbacks. -/
theorem observing_trails (orderly : engine.Orderly census)
    (computes : engine.Computes census meaning)
    {observe : ObserveContext → Action σ Fault Value}
    (present : (engine.vocabulary type).observe = some observe) {context partner : ObserveContext}
    (knows : census.Knows start.ambient.kept context)
    (knows_partner : census.Knows other.ambient.kept partner)
    (same : Structured.form .structural context = Structured.form .structural partner) :
    Watch.world.Trails start other (engine.recordedObservation type observe context start)
      (engine.recordedObservation type observe partner other) := by
  refine .bind (recording_trails (computes.observe present) .observe _ (fun _ => rfl) knows
    knows_partner same rfl rfl) (adds_processing engine.processor type) ?_
  intro observed other_observed after last run other_run
  have other_meets : census.running.Meets other.erase census.Reads
      (surfacing type .observe (observe partner) other.erase)
      (surfaced type .observe (meaning.observe type (Structured.form .structural context))) :=
    same ▸ surfacing_meets (orderly.observe present) (computes.observe present) knows_partner type
      .observe
  obtain ⟨-, knows_observed, knows_other, same_observed⟩ := alike_of_ok run other_run
    ((erases_recording _ _ observe context).surfacing type .observe)
    ((erases_recording _ _ observe partner).surfacing type .observe)
    (surfacing_meets (orderly.observe present) (computes.observe present) knows type .observe)
    other_meets
  refine processing_trails orderly computes knows_observed knows_other same_observed ?_ ?_
  · rw [(recording_ok (surfacing_eq_ok.mp run)).2, lastType_append_singleton]
  · rw [(recording_ok (surfacing_eq_ok.mp other_run)).2, lastType_append_singleton]

/-- Data are derived by the same callbacks in both runs. -/
theorem derivation_trails (orderly : engine.Orderly census)
    (computes : engine.Computes census meaning)
    {derive : Element → Action (Recording σ) EngineError Value}
    (derivation : engine.recorded.processor.derivation? engine.recorded.vocabulary type = some derive)
    {element partner : Element} (knows : census.Knows start.ambient.kept element)
    (knows_partner : census.Knows other.ambient.kept partner)
    (same : element.form .structural = partner.form .structural) :
    Watch.world.Trails start other (derive element start) (derive partner other) := by
  obtain ⟨source, present, rfl⟩ | ⟨observe, present, rfl⟩ := recorded_derivation derivation
  · refine recording_trails (computes.sourceFor present) .sourceFor _ (fun _ => rfl)
      (Census.knows_element.mpr knows) (Census.knows_element.mpr knows_partner) ?_ rfl rfl
    simp only [Structured.form, Value.form, same]
  · obtain ⟨same_props, same_children⟩ := Element.parts_eq_of_form same
    refine observing_trails orderly computes present knows.observeContext
      knows_partner.observeContext ?_
    simp only [Structured.form, same_props, same_children]

end Data

theorem succeeds_of_meets {α β : Type} {recorded : Action (Recording σ) EngineError β}
    {plain : Action σ EngineError β} {other : World (Recording σ)} {reads : World σ → β → α → Prop}
    {value : α} (erases : Erases World.erase recorded plain)
    (meets : census.running.Meets other.erase reads (plain other.erase) (.ok value)) :
    ∃ result after, recorded other = .ok result after := by
  rw [erases other] at meets
  cases run : recorded other with
  | ok result after => exact ⟨result, after, rfl⟩
  | error error after =>
      rw [run] at meets
      cases meets with
      | excused _ _ excuse => exact excuse.elim

section Recall

variable [Digest] {pass : Pass (Recording σ)} {other : World (Recording σ)}

theorem computeData_trails (orderly : engine.Orderly census)
    (computes : engine.Computes census meaning) (pass : Pass (Recording σ)) {position : Position}
    {type : NodeType}
    {derive : Element → Action (Recording σ) EngineError Value}
    (derivation : engine.recorded.processor.derivation? engine.recorded.vocabulary type = some derive)
    {element partner : Element} (filed : pass.store.observations.Filed)
    (addressable : pass.store.observations.Addressable position)
    (knows : census.Knows pass.world.ambient.kept element)
    (knows_partner : census.Knows other.ambient.kept partner)
    (same : element.form .structural = partner.form .structural) :
    Watch.pass.Trails pass other (computeData position element derive pass)
      (engine.recorded.freshData type partner other) := by
  rw [computeData, freshData, derivation]
  simp only [map_eq_pure_bind]
  refine .bind (derivation_trails orderly computes derivation knows knows_partner same).run
    (fun _ => adds_pure _) ?_
  intro data value after last run fresh_run
  obtain ⟨world, -, rfl⟩ := Pass.of_run_ok run
  obtain ⟨id, observations, store_eq, -⟩ := filed.store_ok addressable
    (ObserveInputs.ofElement element).fingerprint (ObserveInputs.ofElement element) data
  rw [bind_of_ok (Pass.onObservations_ok store_eq)]
  exact .saved (adds_pure _) rfl rfl

theorem memoizedData_trails (discerns : ∀ ambient,
      Focus.structural.Discerns census.number (census.Lists ambient))
    (orderly : engine.Orderly census) (computes : engine.Computes census meaning)
    (position : Position) {type : NodeType} {element partner : Element}
    (kind : element.kind = .custom type)
    (sound : engine.Sound census meaning pass.world.ambient.kept pass.store)
    (knows : census.Knows pass.world.ambient.kept element)
    (knows_partner : census.Knows other.ambient.kept partner)
    (same : element.form .structural = partner.form .structural) :
    Watch.pass.Trails pass other (engine.recorded.memoizedData position type element pass)
      (engine.recorded.freshData type partner other) := by
  have adds := adds_freshData engine type partner
  rw [memoizedData]
  cases derivation : engine.recorded.processor.derivation? engine.recorded.vocabulary type with
  | none =>
      rw [freshData, derivation]
      exact .pure none none
  | some derive =>
      have looked := sound.observations_filed.looked position
        (ObserveInputs.ofElement element).fingerprint (ObserveInputs.ofElement element)
      generalize lookup_eq : pass.store.observations.lookup position _ _ = outcome at looked
      simp only [recallData]
      cases looked with
      | @hit entry observations found _ same_inputs puts =>
          obtain ⟨knows_inputs, knows_output, means⟩ := sound.observation found
          rw [ObserveInputs.form_eq_of_beq (discerns _) knows_inputs knows.observeInputs same_inputs]
            at means
          have fresh : census.running.Meets other.erase census.Reads
              (engine.freshData type partner other.erase) _ :=
            freshData_meets orderly computes type knows_partner
          rw [← same, means.meantData kind] at fresh
          obtain ⟨value, last, fresh_run⟩ :=
            succeeds_of_meets (engine.erases_freshData type partner) fresh
          rw [bind_of_ok (Pass.onObservations_ok lookup_eq)]
          exact .saved adds fresh_run rfl
      | @missed _ stats outcome_eq addressable _ =>
          have computed := computeData_trails orderly computes
            (pass.withObservations { pass.store.observations with stats }) derivation
            (sound.countObservations stats).observations_filed addressable knows knows_partner same
          rw [bind_of_ok (Pass.onObservations_ok lookup_eq)]
          rcases outcome_eq with rfl | rfl
          · exact computed.of_same rfl
          · exact computed.of_same rfl
      | misfiled overfull =>
          rw [bind_of_error (Pass.onObservations_error lookup_eq)]
          exact .broken adds ⟨⟨_, _, _, rfl⟩, .inl overfull⟩ rfl

/-- What holds after both runs have come by the data of a node. -/
theorem memoizedData_alike (discerns : ∀ ambient,
      Focus.structural.Discerns census.number (census.Lists ambient))
    (orderly : engine.Orderly census) (computes : engine.Computes census meaning)
    {position : Position} {type : NodeType} {element partner : Element}
    (kind : element.kind = .custom type)
    (sound : engine.Sound census meaning pass.world.ambient.kept pass.store)
    (knows : census.Knows pass.world.ambient.kept element)
    (knows_partner : census.Knows other.ambient.kept partner)
    (same : element.form .structural = partner.form .structural) {data value : Option Value}
    {after : Pass (Recording σ)} {last : World (Recording σ)}
    (run : engine.recorded.memoizedData position type element pass = .ok data after)
    (other_run : engine.recorded.freshData type partner other = .ok value last) :
    engine.Sound census meaning after.world.ambient.kept after.store ∧
      census.Grows pass.world.ambient.kept after.world.ambient.kept ∧
      census.Grows other.ambient.kept last.ambient.kept ∧
      census.Knows after.world.ambient.kept data ∧ census.Knows last.ambient.kept value ∧
      Structured.form .structural data = Structured.form .structural value := by
  have meets : (engine.memoizing census meaning position).Meets pass.erase _ _ _ :=
    memoizedData_meets discerns orderly computes kind pass.erase sound knows
  have other_meets : census.running.Meets other.erase census.Reads
      (engine.freshData type partner other.erase) _ :=
    freshData_meets orderly computes type knows_partner
  rw [(engine.erases_memoizedData position type element).ok run] at meets
  rw [(engine.erases_freshData type partner).ok other_run, ← same] at other_meets
  obtain ⟨form, meant_eq, after_sound, ⟨grows, -⟩, knows_data, form_eq⟩ := meets.of_ok
  obtain ⟨other_form, other_meant, -, other_grows, knows_value, other_eq⟩ := other_meets.of_ok
  obtain rfl := Except.ok.inj (meant_eq.symm.trans other_meant)
  exact ⟨after_sound, grows, other_grows, knows_data, knows_value, form_eq.trans other_eq.symm⟩

end Recall

/-! ## Expansions -/

/-- The expansion of a described node, computed anew. -/
def freshExpansion (type : NodeType) (element : Element) (data : Option Value)
    (describe : DescribeContext → Action σ Fault Element)
    (expand : Element → Action σ EngineError Expansion) : Action σ EngineError Expansion := do
  let output ← surfacing type .describe
    (describe { data, props := element.props, children := element.children })
  return .described element data (← expand output)

theorem freshExpansion_meets (orderly : engine.Orderly census)
    (computes : engine.Computes census meaning) (room : Nat) (position : Position) {type : NodeType}
    {element : Element} {data : Option Value} {describe : DescribeContext → Action σ Fault Element}
    (present : (engine.vocabulary type).describe = some describe) {world : World σ}
    (knows : census.Knows world.ambient element) (knows_data : census.Knows world.ambient data) :
    census.running.Meets world (fun _ result form => result.form .structural = form)
      (freshExpansion type element data describe (engine.freshAt room position.expansion) world)
      (meantExpansion meaning type (element.form .structural) (Structured.form .structural data)
        (engine.meantAt meaning room position.expansion)) := by
  refine .bind (.refl _) (describing_meets orderly computes present knows knows_data) ?_
  rintro output form last - - - ⟨knows_output, rfl⟩
  refine .bind (.refl _)
    (freshAt_meets orderly computes room position.expansion output last knows_output) ?_
  rintro body form final - - - rfl
  exact .pure trivial rfl

/-- A description as the recording engine runs it. -/
def recordedDescribe (type : NodeType) (describe : DescribeContext → Action σ Fault Element) :
    DescribeContext → Action (Recording σ) Fault Element :=
  recording .describe (fun _ => some type) describe

theorem adds_freshExpansion (engine : Engine σ) (room : Nat) (position : Position) (type : NodeType)
    (element : Element) (data : Option Value)
    (describe : DescribeContext → Action σ Fault Element) :
    Adds (freshExpansion type element data (recordedDescribe type describe)
      (engine.recorded.freshAt room position.expansion)) :=
  ((adds_recording _ _ describe _).surfacing type .describe).bind fun output =>
    (adds_freshAt engine room position.expansion output).bind fun _ => adds_pure _

theorem erases_freshExpansion (engine : Engine σ) (room : Nat) (position : Position)
    (type : NodeType) (element : Element) (data : Option Value)
    (describe : DescribeContext → Action σ Fault Element) :
    Erases World.erase
      (freshExpansion type element data (recordedDescribe type describe)
        (engine.recorded.freshAt room position.expansion))
      (freshExpansion type element data describe (engine.freshAt room position.expansion)) :=
  ((erases_recording _ _ describe _).surfacing type .describe).bind fun output =>
    (engine.erases_freshAt room position.expansion output).bind fun _ => .pure _

theorem freshAt_erased {room : Nat} {position : Position} {other : World (Recording σ)}
    {element : Element} (orderly : engine.Orderly census)
    (computes : engine.Computes census meaning)
    (knows : census.Knows other.ambient.kept element) {expansion : Expansion}
    {after : World (Recording σ)}
    (run : engine.recorded.freshAt room position element other = .ok expansion after) :
    census.Grows other.ambient.kept after.ambient.kept := by
  have meets := freshAt_meets orderly computes room position element other.erase knows
  rw [(engine.erases_freshAt room position element).ok run] at meets
  exact meets.leads

theorem children_pairs {element partner : Element}
    (same : element.form .structural = partner.form .structural) :
    List.Forall₂ (fun (entry other : Element × Nat) =>
      entry.1.form .structural = other.1.form .structural ∧ entry.2 = other.2)
      element.children.zipIdx partner.children.zipIdx := by
  have same_children := (Element.parts_eq_of_form same).2
  rw [Element.formChildren_eq_map, Element.formChildren_eq_map] at same_children
  have same_entries := congrArg List.zipIdx same_children
  rw [List.zipIdx_map, List.zipIdx_map] at same_entries
  rw [← List.forall₂_eq_eq_eq, List.forall₂_map_left_iff, List.forall₂_map_right_iff] at same_entries
  exact same_entries.imp fun _ _ pair => Prod.ext_iff.mp pair

/-- The engine with the memo store left aside. -/
def forgetful (engine : Engine σ) : Engine σ :=
  engine.withConfig { engine.config with remember := false }

theorem freshAt_withConfig (engine : Engine σ) (config : Config)
    (same : config.maxDepth = engine.config.maxDepth) (room : Nat) (position : Position)
    (element : Element) :
    (engine.withConfig config).freshAt room position element =
      engine.freshAt room position element := by
  induction room generalizing position element with
  | zero => rw [freshAt, freshAt, withConfig, same]
  | succ room induction =>
      simp only [freshAt, induction]
      rfl

section Expansions

variable [Digest]

/-- Memoized expansion at a position trails fresh expansion of whatever has the same form. -/
def TrailsAt (engine : Engine σ) (census : Census σ) (meaning : Meaning) (room : Nat)
    (position : Position) : Prop :=
  ∀ ⦃element partner : Element⦄ ⦃pass : Pass (Recording σ)⦄ ⦃other : World (Recording σ)⦄,
    engine.Sound census meaning pass.world.ambient.kept pass.store →
    census.Knows pass.world.ambient.kept element → census.Knows other.ambient.kept partner →
    element.form .structural = partner.form .structural →
    Watch.pass.Trails pass other (engine.recorded.memoizedAt room position element pass)
      (engine.recorded.freshAt room position partner other)

variable {room : Nat} {position : Position} {pass : Pass (Recording σ)}
  {other : World (Recording σ)} {element partner : Element}

/-- What holds after an expansion that remembers has given a result. -/
theorem memoizedAt_erased (discerns : ∀ ambient,
      Focus.structural.Discerns census.number (census.Lists ambient))
    (orderly : engine.Orderly census) (computes : engine.Computes census meaning)
    (fits : room + position.depth = engine.config.maxDepth + 1)
    (sound : engine.Sound census meaning pass.world.ambient.kept pass.store)
    (knows : census.Knows pass.world.ambient.kept element) {expansion : Expansion}
    {after : Pass (Recording σ)}
    (run : engine.recorded.memoizedAt room position element pass = .ok expansion after) :
    engine.Sound census meaning after.world.ambient.kept after.store ∧
      census.Grows pass.world.ambient.kept after.world.ambient.kept ∧
      pass.store.ChangesWithin position.Below after.store := by
  have meets := memoizedAt_meets discerns orderly computes room position element fits pass.erase
    sound knows
  rw [(engine.erases_memoizedAt room position element).ok run] at meets
  obtain ⟨-, -, after_sound, ⟨grows, changes⟩, -⟩ := meets.of_ok
  exact ⟨after_sound, grows, changes⟩

theorem computeExpansion_trails (discerns : ∀ ambient,
      Focus.structural.Discerns census.number (census.Lists ambient))
    (orderly : engine.Orderly census) (computes : engine.Computes census meaning)
    (pass : Pass (Recording σ)) {type : NodeType}
    {describe : DescribeContext → Action σ Fault Element}
    (present : (engine.vocabulary type).describe = some describe)
    (fits : room + position.depth = engine.config.maxDepth)
    (trails : engine.TrailsAt census meaning room position.expansion)
    (sound : engine.Sound census meaning pass.world.ambient.kept pass.store)
    (addressable : pass.store.expansions.Addressable position)
    (knows : census.Knows pass.world.ambient.kept element)
    (knows_partner : census.Knows other.ambient.kept partner)
    (same : element.form .structural = partner.form .structural) {data value : Option Value}
    (knows_data : census.Knows pass.world.ambient.kept data)
    (knows_value : census.Knows other.ambient.kept value)
    (same_data : Structured.form .structural data = Structured.form .structural value) :
    Watch.pass.Trails pass other
      (computeExpansion position type element data (recordedDescribe type describe)
        (engine.recorded.memoizedAt room position.expansion) pass)
      (freshExpansion type partner value (recordedDescribe type describe)
        (engine.recorded.freshAt room position.expansion) other) := by
  obtain ⟨same_props, same_children⟩ := Element.parts_eq_of_form same
  have same_context : Structured.form .structural
      ({ data, props := element.props, children := element.children } : DescribeContext) =
      Structured.form .structural
      ({ data := value, props := partner.props, children := partner.children } :
        DescribeContext) := by
    simp only [Structured.form] at same_data ⊢
    simp only [same_props, same_children, same_data]
  rw [computeExpansion, freshExpansion]
  refine .bind (recording_trails (computes.describe present) .describe _ (fun _ => rfl)
    (knows.describeContext knows_data) (knows_partner.describeContext knows_value) same_context rfl
    rfl).run (fun output => (adds_freshAt engine room position.expansion output).bind fun _ =>
      adds_pure _) ?_
  intro output other_output later other_later run other_run
  obtain ⟨world, describing, rfl⟩ := Pass.of_run_ok run
  have other_meets : census.running.Meets other.erase census.Reads (surfacing type .describe _
      other.erase) _ :=
    describing_meets orderly computes present knows_partner knows_value
  rw [← same, ← same_data] at other_meets
  obtain ⟨grows, knows_output, knows_other, same_output⟩ := alike_of_ok describing other_run
    ((erases_recording _ _ describe _).surfacing type .describe)
    ((erases_recording _ _ describe _).surfacing type .describe)
    (describing_meets orderly computes present knows knows_data) other_meets
  have later_sound : engine.Sound census meaning world.ambient.kept pass.store :=
    sound.grow grows
  refine .bind (trails later_sound knows_output knows_other same_output) (fun _ => adds_pure _) ?_
  intro body other_body after last expanding other_expanding
  have depth_eq : room + position.expansion.depth = engine.config.maxDepth + 1 := by
    rw [Position.depth_expansion]
    omega
  obtain ⟨after_sound, -, changes⟩ :=
    memoizedAt_erased discerns orderly computes depth_eq later_sound knows_output expanding
  obtain ⟨id, expansions, store_eq, -⟩ := after_sound.expansions_filed.store_ok
    (changes.expansions.addressable (Position.not_startsWith_expansion position) addressable)
    (DescribeInputs.ofElement element data).fingerprint (DescribeInputs.ofElement element data)
    (.described element data body)
  rw [bind_of_ok (Pass.onExpansions_ok store_eq)]
  exact .saved (adds_pure _) rfl rfl

theorem recallExpansion_trails (discerns : ∀ ambient,
      Focus.structural.Discerns census.number (census.Lists ambient))
    (orderly : engine.Orderly census) (computes : engine.Computes census meaning) {type : NodeType}
    {describe : DescribeContext → Action σ Fault Element} (kind : element.kind = .custom type)
    (present : (engine.vocabulary type).describe = some describe)
    (fits : room + position.depth = engine.config.maxDepth)
    (trails : engine.TrailsAt census meaning room position.expansion)
    (sound : engine.Sound census meaning pass.world.ambient.kept pass.store)
    (knows : census.Knows pass.world.ambient.kept element)
    (knows_partner : census.Knows other.ambient.kept partner)
    (same : element.form .structural = partner.form .structural) {data value : Option Value}
    (knows_data : census.Knows pass.world.ambient.kept data)
    (knows_value : census.Knows other.ambient.kept value)
    (same_data : Structured.form .structural data = Structured.form .structural value) :
    Watch.pass.Trails pass other
      (recallExpansion position element data
        (computeExpansion position type element data (recordedDescribe type describe)
          (engine.recorded.memoizedAt room position.expansion)) pass)
      (freshExpansion type partner value (recordedDescribe type describe)
        (engine.recorded.freshAt room position.expansion) other) := by
  have adds := adds_freshExpansion engine room position type partner value describe
  have looked := sound.expansions_filed.looked position
    (DescribeInputs.ofElement element data).fingerprint (DescribeInputs.ofElement element data)
  generalize lookup_eq : pass.store.expansions.lookup position _ _ = outcome at looked
  rw [recallExpansion]
  cases looked with
  | @hit entry expansions found _ same_inputs puts =>
      obtain ⟨knows_inputs, means⟩ := sound.description found
      rw [DescribeInputs.form_eq_of_beq (discerns _) knows_inputs
        (knows.describeInputs knows_data) same_inputs] at means
      have fresh : census.running.Meets other.erase _
          (freshExpansion type partner value describe (engine.freshAt room position.expansion)
            other.erase) _ :=
        freshExpansion_meets orderly computes room position present knows_partner knows_value
      rw [← same, ← same_data, means.meant kind fits] at fresh
      obtain ⟨expansion, last, fresh_run⟩ := succeeds_of_meets
        (engine.erases_freshExpansion room position type partner value describe) fresh
      rw [bind_of_ok (Pass.onExpansions_ok lookup_eq)]
      exact .saved adds fresh_run rfl
  | @missed _ stats outcome_eq addressable _ =>
      have computed := computeExpansion_trails discerns orderly computes
        (pass.withExpansions { pass.store.expansions with stats }) present fits trails
        (sound.countExpansions stats) addressable knows knows_partner same knows_data knows_value
        same_data
      rw [bind_of_ok (Pass.onExpansions_ok lookup_eq)]
      rcases outcome_eq with rfl | rfl
      · exact computed.of_same rfl
      · exact computed.of_same rfl
  | misfiled overfull =>
      rw [bind_of_error (Pass.onExpansions_error lookup_eq)]
      exact .broken adds ⟨⟨_, _, _, rfl⟩, .inr overfull⟩ rfl

/-- Nodes are expanded one after another. -/
theorem memoizedEach_trails (discerns : ∀ ambient,
      Focus.structural.Discerns census.number (census.Lists ambient))
    (orderly : engine.Orderly census) (computes : engine.Computes census meaning)
    (fits : room + position.depth = engine.config.maxDepth)
    (trails : ∀ index, engine.TrailsAt census meaning room (position.child index))
    {entries partners : List (Element × Nat)}
    (pairs : List.Forall₂ (fun entry partner =>
      entry.1.form .structural = partner.1.form .structural ∧ entry.2 = partner.2) entries partners)
    (sound : engine.Sound census meaning pass.world.ambient.kept pass.store)
    (knows : ∀ entry ∈ entries, census.Knows pass.world.ambient.kept entry.1)
    (knows_partners : ∀ partner ∈ partners, census.Knows other.ambient.kept partner.1) :
    Watch.pass.Trails pass other
      (entries.mapM (fun entry =>
        engine.recorded.memoizedAt room (position.child entry.2) entry.1) pass)
      (partners.mapM (fun partner =>
        engine.recorded.freshAt room (position.child partner.2) partner.1) other) := by
  induction pairs generalizing pass other with
  | nil => exact .pure [] []
  | @cons entry partner entries partners pair pairs induction =>
      obtain ⟨same, index_eq⟩ := pair
      have knows_entry := knows entry List.mem_cons_self
      have knows_partner := knows_partners partner List.mem_cons_self
      have depth_eq : room + (position.child entry.2).depth = engine.config.maxDepth + 1 := by
        rw [Position.depth_child]
        omega
      have adds_rest := adds_composes.mapM (fun partner : Element × Nat =>
        adds_freshAt engine room (position.child partner.2) partner.1) partners
      rw [List.mapM_cons, List.mapM_cons, ← index_eq]
      refine .bind (trails entry.2 sound knows_entry knows_partner same)
        (fun _ => adds_rest.bind fun _ => adds_pure _) ?_
      intro expansion other_expansion after last run other_run
      obtain ⟨after_sound, grows, -⟩ :=
        memoizedAt_erased discerns orderly computes depth_eq sound knows_entry run
      have other_grows := freshAt_erased orderly computes knows_partner other_run
      refine .bind (induction after_sound
        (fun entry member => (knows entry (List.mem_cons_of_mem _ member)).grow grows)
        (fun partner member => (knows_partners partner (List.mem_cons_of_mem _ member)).grow
          other_grows)) (fun _ => adds_pure _) ?_
      exact fun _ _ _ _ _ _ => .pure _ _

/-- With a sound store, memoized expansion runs some of the callbacks of fresh expansion, in order. -/
theorem memoizedAt_trails (discerns : ∀ ambient,
      Focus.structural.Discerns census.number (census.Lists ambient))
    (orderly : engine.Orderly census) (computes : engine.Computes census meaning) (room : Nat)
    (position : Position) (fits : room + position.depth = engine.config.maxDepth + 1) :
    engine.TrailsAt census meaning room position := by
  induction room generalizing position with
  | zero => exact fun _ _ _ _ _ _ _ _ => .throw _
  | succ room induction =>
      intro element partner pass other sound knows knows_partner same
      have room_fits : room + position.depth = engine.config.maxDepth := by omega
      have trails_child (index : Nat) :
          engine.TrailsAt census meaning room (position.child index) := by
        refine induction _ ?_
        rw [Position.depth_child]
        omega
      have children_trail {pass : Pass (Recording σ)} {other : World (Recording σ)}
          (sound : engine.Sound census meaning pass.world.ambient.kept pass.store)
          (knows : census.Knows pass.world.ambient.kept element)
          (knows_partner : census.Knows other.ambient.kept partner) :=
        memoizedEach_trails discerns orderly computes room_fits trails_child (children_pairs same)
          sound (fun _ member => knows.child (List.fst_mem_of_mem_zipIdx member))
          fun _ member => knows_partner.child (List.fst_mem_of_mem_zipIdx member)
      have adds_children := adds_composes.mapM (fun entry : Element × Nat =>
        adds_freshAt engine room (position.child entry.2) entry.1)
        partner.children.zipIdx
      have kind_eq := congrArg Element.kind same
      rw [Element.kind_form, Element.kind_form] at kind_eq
      rw [memoizedAt, freshAt, ← kind_eq]
      cases kind : element.kind with
      | primitive builtIn =>
          exact .bind (children_trail sound knows knows_partner) (fun _ => adds_pure _)
            fun _ _ _ _ _ _ => .pure _ _
      | custom type =>
          have data_trail :=
            memoizedData_trails discerns orderly computes position kind sound knows knows_partner same
          simp only [engine.describe_recorded]
          cases present : (engine.vocabulary type).describe with
          | none =>
              refine .bind data_trail (fun _ => adds_children.bind fun _ => adds_pure _) ?_
              intro data value after last run other_run
              obtain ⟨after_sound, grows, other_grows, -⟩ := memoizedData_alike discerns orderly
                computes kind sound knows knows_partner same run other_run
              exact .bind (children_trail after_sound (knows.grow grows)
                (knows_partner.grow other_grows)) (fun _ => adds_pure _) fun _ _ _ _ _ _ => .pure _ _
          | some describe =>
              refine .bind data_trail (fun value =>
                adds_freshExpansion engine room position type partner value describe) ?_
              intro data value after last run other_run
              obtain ⟨after_sound, grows, other_grows, knows_data, knows_value, same_data⟩ :=
                memoizedData_alike discerns orderly computes kind sound knows knows_partner same run
                  other_run
              have trails_expansion : engine.TrailsAt census meaning room position.expansion := by
                refine induction _ ?_
                rw [Position.depth_expansion]
                omega
              exact recallExpansion_trails discerns orderly computes kind present room_fits
                trails_expansion after_sound (knows.grow grows) (knows_partner.grow other_grows) same
                knows_data knows_value same_data

theorem expand_trails (discerns : ∀ ambient,
      Focus.structural.Discerns census.number (census.Lists ambient))
    (orderly : engine.Orderly census) (computes : engine.Computes census meaning)
    (remember : engine.config.remember = true) {root : Element}
    (sound : engine.Sound census meaning pass.world.ambient.kept pass.store)
    (knows : census.Knows pass.world.ambient.kept root)
    (knows_other : census.Knows other.ambient.kept root) :
    Watch.pass.Trails pass other (engine.recorded.expand root pass)
      (engine.recorded.expandFresh root other) := by
  have remembers : engine.recorded.config.remember = true := remember
  have trails := memoizedAt_trails discerns orderly computes (engine.config.maxDepth + 1) .root rfl
    sound knows knows_other rfl
  rw [expand, if_pos remembers, ← bind_pure (engine.recorded.expandFresh root)]
  refine .bind trails (fun value => adds_pure value) ?_
  intro expansion value after last _ _
  split
  · exact .saved (adds_pure value) rfl rfl
  · exact .pure expansion value

theorem invocations_forgetful (engine : Engine σ) (root : Element) (world : World σ) :
    engine.forgetful.invocations root world =
      (finalState (engine.recorded.expandFresh root
        (World.record { world with store := .empty } []))).ambient.invocations := by
  have fresh_eq : engine.forgetful.recorded.expandFresh root = engine.recorded.expandFresh root :=
    engine.recorded.freshAt_withConfig { engine.config with remember := false } rfl _ .root root
  rw [invocations, finalState_compile, expand]
  change (finalState (Pass.act (engine.forgetful.recorded.expandFresh root)
    (Pass.opening (world.record [])))).closing.ambient.invocations = _
  rw [fresh_eq, Pass.act]
  change _ = (finalState (engine.recorded.expandFresh root
    (Pass.opening (world.record [])).world)).ambient.invocations
  cases engine.recorded.expandFresh root (Pass.opening (world.record [])).world <;> rfl

/-- After any history, the callbacks that a compilation runs are, in order, some of those that it runs
without the memo store, and if one of them fails, it is the last one in both.  The one exception is a
table of more than `2 ^ 32` entries, whose addresses may mislead a lookup before a callback fails. -/
theorem compile_saves_invocations (engine : Engine σ) (census : Census σ) (meaning : Meaning)
    (unsigned : ∀ number, census.number number → number.toBits ≠ 0x8000000000000000)
    (orderly : engine.Orderly census) (computes : engine.Computes census meaning)
    (visits : engine.VisitsStay (engine.Operates census)) {world : World σ}
    (history : engine.History census world) (remember : engine.config.remember = true)
    {root : Element} (knows : census.Knows world.ambient root) (other : World σ)
    (knows_other : census.Knows other.ambient root) :
    engine.invocations root world <+ engine.forgetful.invocations root other ∧
      (∀ invocation ∈ engine.invocations root world, ∀ fault, invocation.fault = some fault →
        (engine.invocations root world).getLast? = some invocation ∧
          (engine.forgetful.invocations root other).getLast? = some invocation ∧
          ∃ type after, invocation.type = some type ∧
            engine.compile root world =
              .error (fault.surface type invocation.request.stage) after) ∧
      ((∀ invocation ∈ engine.forgetful.invocations root other, invocation.fault ≠ none →
          invocation ∈ engine.invocations root world) ∨
        ∃ table position found after,
          engine.compile root world = .error (.table (.misfiled table position found)) after ∧
            after.store.Overfull) := by
  have discerns (ambient : σ) : Focus.structural.Discerns census.number (census.Lists ambient) :=
    Census.discerns (fun left right left_number right_number same =>
      Number.eq_of_same (unsigned left left_number) (unsigned right right_number) same) ambient
  have sound := history.sound discerns orderly computes visits
  have trails : Watch.pass.Trails (Pass.opening (world.record []))
      (World.record { other with store := .empty } []) _ _ :=
    expand_trails discerns orderly computes remember sound.begin knows knows_other
  have compiles_error {error : EngineError} {after : Pass (Recording σ)}
      (failed : engine.recorded.expand root (Pass.opening (world.record [])) = .error error after) :
      engine.compile root world = .error error after.erase.closing := by
    have erases := engine.erases_expand root (Pass.opening (world.record []))
    rw [failed] at erases
    change engine.expand root (Pass.opening world) = _ at erases
    rw [compile_eq, erases]
    rfl
  obtain ⟨sublist, ends, misses⟩ := trails.compare rfl rfl
  rw [invocations_forgetful, invocations, finalState_compile]
  refine ⟨sublist, ?_, misses.imp_right ?_⟩
  · intro invocation member fault failed
    obtain ⟨last, other_last, type, after, type_eq, outcome⟩ := ends invocation member fault failed
    exact ⟨last, other_last, type, _, type_eq, compiles_error outcome⟩
  · rintro ⟨error, after, outcome, ⟨table, position, found, rfl⟩, overfull⟩
    exact ⟨table, position, found, _, compiles_error outcome, overfull⟩

end Expansions

namespace Correspondence

/-- A type whose nodes stand for a greeting. -/
def salutation : NodeType :=
  ⟨1, "Salutation"⟩

/-- A type whose nodes stand for a signature. -/
def signature : NodeType :=
  ⟨2, "Signature"⟩

/-- The literal of a salutation. -/
def salute : Element :=
  .literal 10 "hello"

/-- The callbacks of a salutation and of a signature; nobody signs. -/
def writer : Engine Unit where
  vocabulary type :=
    if type = salutation then { describe := some fun _ => pure salute }
    else if type = signature then { describe := some fun _ => throw (.plain "nobody signs") }
    else {}
  processor := .identity

/-- A letter. -/
def letter : Element :=
  .sequence 3 [.ofType 1 salutation, .ofType 2 signature]

/-- The nodes of the letter. -/
def nodes : Census Unit where
  nodeAt _ id :=
    [letter, .ofType 1 salutation, .ofType 2 signature, salute].find? fun node => node.id = id
  number value := value.toBits ≠ 0x8000000000000000
  node _ := True

private theorem knows_letter : nodes.Knows () letter :=
  ⟨⟨rfl, trivial⟩, trivial, ⟨⟨rfl, trivial⟩, trivial, trivial⟩, ⟨⟨rfl, trivial⟩, trivial, trivial⟩,
    trivial⟩

private theorem knows_salute : nodes.Knows () salute :=
  ⟨⟨rfl, trivial⟩, ⟨by simp [Value.Every], trivial⟩, trivial⟩

private theorem describes {type : NodeType}
    {callback : DescribeContext → Action Unit Fault Element}
    (present : (writer.vocabulary type).describe = some callback) :
    type = salutation ∧ callback = (fun _ => pure salute) ∨
      type = signature ∧ callback = fun _ => throw (.plain "nobody signs") := by
  simp only [writer] at present
  split at present
  · next here => exact .inl ⟨here, (Option.some.inj present).symm⟩
  · split at present
    · next here => exact .inr ⟨here, (Option.some.inj present).symm⟩
    · simp at present

private theorem observes_nothing (type : NodeType) : (writer.vocabulary type).observe = none := by
  simp only [writer]
  split
  · rfl
  · split <;> rfl

private theorem orderly : writer.Orderly nodes where
  observe {type _} present := nomatch (observes_nothing type).symm.trans present
  describe present := by
    rcases describes present with ⟨-, rfl⟩ | ⟨-, rfl⟩
    · refine ⟨fun _ _ => rfl, fun _ _ => .refl nodes _, fun _ run => ?_⟩
      obtain ⟨rfl, rfl⟩ := EStateM.Result.ok.inj run
      exact knows_salute
    · exact ⟨fun _ _ => rfl, fun _ _ => .refl nodes _, nofun⟩
  register present := nomatch present
  source present := nomatch present
  sourceFor present := nomatch present

private def writerMeaning : Meaning where
  observe _ _ := .ok .null
  describe type _ :=
    if type = salutation then .ok (salute.form .structural) else .error (.plain "nobody signs")
  register := .ok
  source := .ok
  sourceFor _ := .ok

private theorem computes : writer.Computes nodes writerMeaning where
  observe {type _} present := nomatch (observes_nothing type).symm.trans present
  describe present := by
    rcases describes present with ⟨rfl, rfl⟩ | ⟨rfl, rfl⟩
    · exact fun _ _ _ => rfl
    · exact fun _ _ _ => rfl
  register present := nomatch present
  source present := nomatch present
  sourceFor present := nomatch present

private theorem visits_nothing : writer.VisitsStay (writer.Operates nodes) := by
  intro type visit present
  simp only [writer] at present
  split at present
  · simp at present
  · split at present <;> simp at present

end Correspondence

open Correspondence in
/-- When a letter that nobody signs is compiled again, only the signature is asked for again, and the
compilation fails there as it does without the memo store. -/
theorem compile_saves_invocations_letter :
    ∃ world, writer.History nodes world ∧
      (writer.invocations letter world).length = 1 ∧
      (writer.forgetful.invocations letter world).length = 2 ∧
      writer.invocations letter world <+ writer.forgetful.invocations letter world ∧
      (∀ invocation ∈ writer.invocations letter world, ∀ fault, invocation.fault = some fault →
        (writer.forgetful.invocations letter world).getLast? = some invocation) := by
  have start : writer.History nodes { store := .empty, ambient := () } := .start ()
  have compiles : writer.Operates nodes { store := .empty, ambient := () }
      (finalState ((writer.withConfig writer.config).compile letter
        { store := .empty, ambient := () })) :=
    .compile rfl knows_letter
  have history := start.operate compiles
  obtain ⟨sublist, ends, -⟩ := compile_saves_invocations writer nodes writerMeaning
    (fun _ number => number) orderly computes visits_nothing history rfl knows_letter _ knows_letter
  refine ⟨_, history, ?_, ?_, sublist, fun invocation member fault failed =>
    (ends invocation member fault failed).2.1⟩
  · decide +kernel
  · decide +kernel

end Engine

end Phrasing
