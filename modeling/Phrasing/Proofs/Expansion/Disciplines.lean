import Phrasing.Proofs.Expansion.Operations

/-!
# Disciplines of expansion

A discipline says what holds of a compilation under way, and of the elements, data and expansions that
it handles.  Every operation on the store keeps to it.  When callbacks and nodes do so as well, then so
does expansion as a whole, fresh or memoized, whether it fails or not.
-/

namespace Phrasing

open Memo

variable {σ : Type}

/-- What holds of a compilation under way and of what it handles. -/
structure Discipline (σ : Type) where
  /-- What holds of a pass. -/
  Valid : Pass σ → Prop
  /-- How a later state of the callbacks is related to an earlier one. -/
  Grows : σ → σ → Prop
  /-- What holds of an element that is expanded. -/
  Input : σ → Element → Prop
  /-- What holds of the data of a node of a custom type. -/
  Datum : σ → NodeType → Element → Option Value → Prop
  /-- What holds of the expansion of an element. -/
  Result : Element → Expansion → Prop
  /-- A state grows into itself. -/
  refl (ambient : σ) : Grows ambient ambient
  /-- Growing goes from state to state. -/
  trans {first second third : σ} : Grows first second → Grows second third → Grows first third
  /-- It goes on holding of an element. -/
  input_grow {before after : σ} {element : Element} :
    Grows before after → Input before element → Input after element
  /-- It goes on holding of data. -/
  datum_grow {before after : σ} {type : NodeType} {element : Element} {data : Option Value} :
    Grows before after → Datum before type element data → Datum after type element data
  /-- It holds of the children of an element. -/
  child {ambient : σ} {element child : Element} :
    Input ambient element → child ∈ element.children → Input ambient child
  /-- The observations are filed. -/
  observations_filed {pass : Pass σ} : Valid pass → pass.store.observations.Filed
  /-- The expansions are filed. -/
  expansions_filed {pass : Pass σ} : Valid pass → pass.store.expansions.Filed
  /-- Callbacks go about their own affairs. -/
  grow {pass : Pass σ} {world : World σ} :
    Valid pass → Grows pass.world.ambient world.ambient → Valid { pass with world }
  /-- A call is logged. -/
  log {pass : Pass σ} (call : Call) :
    Valid pass → Valid { pass with calls := pass.calls ++ [call] }
  /-- A lookup of data is counted. -/
  countObservations {pass : Pass σ} (stats : Stats) :
    Valid pass → Valid (pass.withObservations { pass.store.observations with stats })
  /-- A lookup of an expansion is counted. -/
  countExpansions {pass : Pass σ} (stats : Stats) :
    Valid pass → Valid (pass.withExpansions { pass.store.expansions with stats })
  /-- Entries below a position are kept. -/
  keepSubtree {pass : Pass σ} (root : Position) :
    Valid pass → Valid { pass with store := pass.store.keepSubtree root }
  /-- Stored data are reused. -/
  reuseData {pass : Pass σ} {position : Position} {type : NodeType} {element : Element}
    {entry : Entry ObserveInputs Value} {observations : Table ObserveInputs Value} :
    Valid pass → Input pass.world.ambient element → element.kind = .custom type →
    pass.store.observations.entryAt position = some entry →
    (entry.inputs == ObserveInputs.ofElement element) = true →
    pass.store.observations.Puts { entry with generation := pass.store.observations.generation }
      observations →
    Valid (pass.withObservations observations) ∧
      Datum pass.world.ambient type element (some entry.output)
  /-- Data that were computed are stored. -/
  storeData {pass : Pass σ} {position : Position} {type : NodeType} {element : Element}
    {data : Value} {fingerprint : ContentHash} {generation : Nat}
    {observations : Table ObserveInputs Value} :
    Valid pass → Input pass.world.ambient element → element.kind = .custom type →
    Datum pass.world.ambient type element (some data) → ⟨position, .data⟩ ∈ pass.calls →
    pass.store.observations.Puts
      { position, fingerprint, inputs := .ofElement element, output := data, generation }
      observations →
    Valid (pass.withObservations observations)
  /-- A stored expansion is reused. -/
  reuseExpansion {pass : Pass σ} {position : Position} {type : NodeType} {element : Element}
    {data : Option Value} {entry : Entry DescribeInputs Expansion}
    {expansions : Table DescribeInputs Expansion} :
    Valid pass → Input pass.world.ambient element → element.kind = .custom type →
    Datum pass.world.ambient type element data →
    pass.store.expansions.entryAt position = some entry →
    (entry.inputs == DescribeInputs.ofElement element data) = true →
    pass.store.expansions.Puts { entry with generation := pass.store.expansions.generation }
      expansions →
    Valid (pass.withExpansions expansions) ∧ Result element entry.output
  /-- An expansion that was computed is stored. -/
  storeExpansion {pass : Pass σ} {position : Position} {type : NodeType} {element : Element}
    {data : Option Value} {expansion : Expansion} {fingerprint : ContentHash} {generation : Nat}
    {expansions : Table DescribeInputs Expansion} :
    Valid pass → Input pass.world.ambient element → element.kind = .custom type →
    Datum pass.world.ambient type element data → Result element expansion →
    ⟨position, .description⟩ ∈ pass.calls →
    pass.store.expansions.Puts
      { position, fingerprint, inputs := .ofElement element data, output := expansion, generation }
      expansions →
    Valid (pass.withExpansions expansions)

namespace Discipline

variable {discipline : Discipline σ}

/-- The regime of callbacks: their state grows, and every error is excused. -/
def running (discipline : Discipline σ) : Regime (World σ) where
  Valid _ := True
  Leads before after := discipline.Grows before.ambient after.ambient
  Excuses _ _ := True
  refl _ := discipline.refl _
  trans := discipline.trans

/-- The regime of an expansion at a position, which changes nothing elsewhere in the store. -/
def expanding (discipline : Discipline σ) (root : Position) : Regime (Pass σ) where
  Valid := discipline.Valid
  Leads before after :=
    discipline.Grows before.world.ambient after.world.ambient ∧ before.calls ⊆ after.calls ∧
      before.store.ChangesWithin root.Below after.store
  Excuses _ _ := True
  refl _ := ⟨discipline.refl _, List.Subset.refl _, .refl root.Below _⟩
  trans earlier later :=
    ⟨discipline.trans earlier.1 later.1, List.Subset.trans earlier.2.1 later.2.1,
      earlier.2.2.trans later.2.2⟩

theorem expanding_narrows {root lower : Position} (below : lower.startsWith root = true) :
    (discipline.expanding lower).Narrows (discipline.expanding root) where
  valid valid := valid
  leads := fun ⟨grows, calls, changes⟩ =>
    ⟨grows, calls, changes.widen fun _ inside => Position.startsWith_trans inside below⟩
  excuses excuse := excuse

theorem run_runs {α : Type} {root : Position} {pass : Pass σ} {call : Call}
    {callbacks : Action σ EngineError α} {gives : World σ → α → Prop}
    (valid : discipline.Valid pass)
    (runs : discipline.running.Runs pass.world gives (callbacks pass.world)) :
    (discipline.expanding root).Runs pass
      (fun after result => gives after.world result ∧ call ∈ after.calls)
      (Pass.run call callbacks pass) := by
  have logged : call ∈ pass.calls ++ [call] := List.mem_append_right _ (List.mem_singleton_self call)
  have leads {world : World σ} (grows : discipline.Grows pass.world.ambient world.ambient) :
      (discipline.expanding root).Leads pass { pass with world, calls := pass.calls ++ [call] } :=
    ⟨grows, List.subset_append_left _ _, .refl root.Below _⟩
  rw [Pass.run, Pass.act]
  simp only
  generalize callbacks pass.world = outcome at runs ⊢
  cases runs with
  | ok _ grows given =>
      exact .ok (discipline.log call (discipline.grow valid grows)) (leads grows) ⟨given, logged⟩
  | excused _ grows _ =>
      exact .excused (discipline.log call (discipline.grow valid grows)) (leads grows) trivial

end Discipline

theorem forall₂_of_zipIdx {α β : Type} {items : List α} {results : List β} {relation : α → β → Prop}
    (related : List.Forall₂ (fun entry result => relation entry.1 result) items.zipIdx results) :
    List.Forall₂ relation items results := by
  rw [← List.zipIdx_map_fst 0 items]
  exact List.forall₂_map_left_iff.mpr related

/-- The callbacks of an engine and the nodes of its expansions keep to a discipline. -/
structure Engine.Follows (engine : Engine σ) (discipline : Discipline σ) : Prop where
  /-- A node whose type has no data has none. -/
  bare {ambient : σ} {type : NodeType} {element : Element} :
    engine.processor.derivation? engine.vocabulary type = none → element.kind = .custom type →
    discipline.Input ambient element → discipline.Datum ambient type element none
  /-- Data are computed. -/
  derive {type : NodeType} {derive : Element → Action σ EngineError Value} {element : Element}
    {world : World σ} : engine.processor.derivation? engine.vocabulary type = some derive →
    element.kind = .custom type → discipline.Input world.ambient element →
    discipline.running.Runs world
      (fun after data => discipline.Datum after.ambient type element (some data))
      (derive element world)
  /-- Descriptions are computed, and give expansions. -/
  describe {type : NodeType} {describe : DescribeContext → Action σ Fault Element}
    {element : Element} {data : Option Value} {world : World σ} :
    (engine.vocabulary type).describe = some describe → element.kind = .custom type →
    discipline.Input world.ambient element → discipline.Datum world.ambient type element data →
    discipline.running.Runs world
      (fun after output => discipline.Input after.ambient output ∧
        ∀ body, discipline.Result output body →
          discipline.Result element (.described element data body))
      (surfacing type .describe
        (describe { data, props := element.props, children := element.children }) world)
  /-- The node of a primitive is kept. -/
  primitive {builtIn : Primitive} {element : Element} {children : List Expansion} :
    element.kind = .primitive builtIn →
    List.Forall₂ discipline.Result element.children children →
    discipline.Result element (.structural element none children)
  /-- A node without a description is kept. -/
  kept {ambient : σ} {type : NodeType} {element : Element} {data : Option Value}
    {children : List Expansion} :
    element.kind = .custom type → (engine.vocabulary type).describe = none →
    discipline.Datum ambient type element data →
    List.Forall₂ discipline.Result element.children children →
    discipline.Result element (.structural element data children)

namespace Engine

variable {engine : Engine σ} {discipline : Discipline σ}

theorem freshData_follows (follows : engine.Follows discipline) {type : NodeType} {element : Element}
    (kind : element.kind = .custom type) {world : World σ}
    (input : discipline.Input world.ambient element) :
    discipline.running.Runs world
      (fun after data => discipline.Datum after.ambient type element data)
      (engine.freshData type element world) := by
  rw [freshData]
  cases derivation : engine.processor.derivation? engine.vocabulary type with
  | none => exact .pure trivial (follows.bare derivation kind input)
  | some derive =>
      simp only [map_eq_pure_bind]
      exact .bind (follows.derive derivation kind input) fun data after _ _ datum =>
        .pure trivial datum

/-- Fresh expansion keeps to a discipline that the engine follows. -/
theorem freshAt_follows (follows : engine.Follows discipline) (room : Nat) (position : Position)
    (element : Element) {world : World σ} (input : discipline.Input world.ambient element) :
    discipline.running.Runs world (fun _ expansion => discipline.Result element expansion)
      (engine.freshAt room position element world) := by
  induction room generalizing position element world with
  | zero => exact .excused trivial (discipline.refl _) trivial
  | succ room induction =>
      have children_run {state : World σ} (state_input : discipline.Input state.ambient element) :
          discipline.running.Runs state
            (fun _ children => List.Forall₂ discipline.Result element.children children)
            (element.children.zipIdx.mapM (fun entry =>
              engine.freshAt room (position.child entry.2) entry.1) state) := by
        refine (Regime.Runs.mapM trivial fun entry member later _ grows =>
          induction (position.child entry.2) entry.1 ?_).weaken fun _ _ => forall₂_of_zipIdx
        exact discipline.input_grow grows
          (discipline.child state_input (List.fst_mem_of_mem_zipIdx member))
      rw [freshAt]
      cases kind : element.kind with
      | primitive builtIn =>
          refine .bind (children_run input) fun children after _ _ given => ?_
          exact .pure trivial (follows.primitive kind given)
      | custom type =>
          refine .bind (freshData_follows follows kind input) fun data after _ grows datum => ?_
          have after_input := discipline.input_grow grows input
          cases present : (engine.vocabulary type).describe with
          | none =>
              refine .bind (children_run after_input) fun children last _ _ given => ?_
              exact .pure trivial (follows.kept kind present datum given)
          | some describe =>
              refine .bind (follows.describe present kind after_input datum) ?_
              rintro output last - - ⟨output_input, describes⟩
              refine .bind (induction position.expansion output output_input) ?_
              intro body final _ _ result
              exact .pure trivial (describes body result)

variable [Digest]

theorem computeData_follows (follows : engine.Follows discipline) {position : Position}
    {type : NodeType} {element : Element} {derive : Element → Action σ EngineError Value}
    (kind : element.kind = .custom type)
    (derivation : engine.processor.derivation? engine.vocabulary type = some derive) {pass : Pass σ}
    (valid : discipline.Valid pass) (input : discipline.Input pass.world.ambient element)
    (addressable : pass.store.observations.Addressable position) :
    (discipline.expanding position).Runs pass
      (fun after data => discipline.Datum after.world.ambient type element data)
      (computeData position element derive pass) := by
  have below : position.expansion.startsWith position = true := Position.expansion_startsWith _
  have apart := Position.not_startsWith_expansion position
  rw [computeData]
  refine .bind_within (Discipline.expanding_narrows below)
    (Discipline.run_runs valid (follows.derive derivation kind input)) ?_
  rintro data after after_valid ⟨grows, -, changes⟩ ⟨datum, logged⟩
  obtain ⟨id, observations, store_eq, puts⟩ :=
    (discipline.observations_filed after_valid).store_ok
      (changes.observations.addressable apart addressable)
      (ObserveInputs.ofElement element).fingerprint (ObserveInputs.ofElement element) data
  rw [bind_of_ok (Pass.onObservations_ok store_eq)]
  have stored := discipline.storeData after_valid (discipline.input_grow grows input) kind datum
    logged puts
  exact .ok stored ⟨discipline.refl _, List.Subset.refl _,
    Pass.putObservation_changesWithin puts (Position.startsWith_refl _)⟩ datum

theorem memoizedData_follows (follows : engine.Follows discipline) {position : Position}
    {type : NodeType} {element : Element} (kind : element.kind = .custom type) {pass : Pass σ}
    (valid : discipline.Valid pass) (input : discipline.Input pass.world.ambient element) :
    (discipline.expanding position).Runs pass
      (fun after data => discipline.Datum after.world.ambient type element data)
      (engine.memoizedData position type element pass) := by
  rw [memoizedData]
  cases derivation : engine.processor.derivation? engine.vocabulary type with
  | none => exact .pure valid (follows.bare derivation kind input)
  | some derive =>
      have looked := (discipline.observations_filed valid).looked position
        (ObserveInputs.ofElement element).fingerprint (ObserveInputs.ofElement element)
      generalize lookup_eq : pass.store.observations.lookup position _ _ = outcome at looked
      simp only [recallData]
      cases looked with
      | @hit entry observations found _ same puts =>
          rw [bind_of_ok (Pass.onObservations_ok lookup_eq)]
          obtain ⟨reused, datum⟩ := discipline.reuseData valid input kind found same puts
          exact .ok reused ⟨discipline.refl _, List.Subset.refl _,
            Pass.putObservation_changesWithin puts
              (Table.position_of_entryAt found ▸ Position.startsWith_refl _)⟩ datum
      | @missed _ stats outcome_eq addressable _ =>
          rw [bind_of_ok (Pass.onObservations_ok lookup_eq)]
          have leads : (discipline.expanding position).Leads pass
              (pass.withObservations { pass.store.observations with stats }) :=
            ⟨discipline.refl _, List.Subset.refl _,
              Pass.countObservations_changesWithin _ pass stats⟩
          have computed := computeData_follows follows kind derivation
            (discipline.countObservations stats valid) input addressable
          rcases outcome_eq with rfl | rfl
          · exact computed.after leads
          · exact computed.after leads
      | misfiled overfull =>
          rw [bind_of_error (Pass.onObservations_error lookup_eq)]
          exact .excused valid ((discipline.expanding position).refl pass) trivial

theorem computeExpansion_follows (follows : engine.Follows discipline) {position : Position}
    {type : NodeType} {element : Element} {data : Option Value}
    {describe : DescribeContext → Action σ Fault Element}
    {expand : Element → EStateM EngineError (Pass σ) Expansion}
    (kind : element.kind = .custom type)
    (present : (engine.vocabulary type).describe = some describe)
    (expands : ∀ output pass, discipline.Valid pass → discipline.Input pass.world.ambient output →
      (discipline.expanding position.expansion).Runs pass
        (fun _ body => discipline.Result output body) (expand output pass))
    {pass : Pass σ} (valid : discipline.Valid pass)
    (input : discipline.Input pass.world.ambient element)
    (datum : discipline.Datum pass.world.ambient type element data)
    (addressable : pass.store.expansions.Addressable position) :
    (discipline.expanding position).Runs pass
      (fun _ expansion => discipline.Result element expansion)
      (computeExpansion position type element data describe expand pass) := by
  have below : position.expansion.startsWith position = true := Position.expansion_startsWith _
  have apart := Position.not_startsWith_expansion position
  rw [computeExpansion]
  refine .bind_within (Discipline.expanding_narrows below)
    (Discipline.run_runs valid (follows.describe present kind input datum)) ?_
  rintro output later later_valid ⟨grows, -, changes⟩ ⟨⟨output_input, describes⟩, logged⟩
  refine .bind_within (Discipline.expanding_narrows below)
    (expands output later later_valid output_input) ?_
  rintro body after after_valid ⟨grows_on, calls, changes_on⟩ result
  have grows_all := discipline.trans grows grows_on
  -- All that was stored meanwhile is below the position, which is left as addressable as it was.
  obtain ⟨id, expansions, store_eq, puts⟩ := (discipline.expansions_filed after_valid).store_ok
    ((changes.expansions.trans changes_on.expansions).addressable apart addressable)
    (DescribeInputs.ofElement element data).fingerprint (DescribeInputs.ofElement element data)
    (.described element data body)
  rw [bind_of_ok (Pass.onExpansions_ok store_eq)]
  have stored := discipline.storeExpansion after_valid (discipline.input_grow grows_all input) kind
    (discipline.datum_grow grows_all datum) (describes body result) (calls logged) puts
  exact .ok stored ⟨discipline.refl _, List.Subset.refl _,
    Pass.putExpansion_changesWithin puts (Position.startsWith_refl _)⟩ (describes body result)

theorem recallExpansion_follows (follows : engine.Follows discipline) {position : Position}
    {type : NodeType} {element : Element} {data : Option Value}
    {describe : DescribeContext → Action σ Fault Element}
    {expand : Element → EStateM EngineError (Pass σ) Expansion}
    (kind : element.kind = .custom type)
    (present : (engine.vocabulary type).describe = some describe)
    (expands : ∀ output pass, discipline.Valid pass → discipline.Input pass.world.ambient output →
      (discipline.expanding position.expansion).Runs pass
        (fun _ body => discipline.Result output body) (expand output pass))
    {pass : Pass σ} (valid : discipline.Valid pass)
    (input : discipline.Input pass.world.ambient element)
    (datum : discipline.Datum pass.world.ambient type element data) :
    (discipline.expanding position).Runs pass
      (fun _ expansion => discipline.Result element expansion)
      (recallExpansion position element data
        (computeExpansion position type element data describe expand) pass) := by
  have looked := (discipline.expansions_filed valid).looked position
    (DescribeInputs.ofElement element data).fingerprint (DescribeInputs.ofElement element data)
  generalize lookup_eq : pass.store.expansions.lookup position _ _ = outcome at looked
  rw [recallExpansion]
  cases looked with
  | @hit entry expansions found _ same puts =>
      rw [bind_of_ok (Pass.onExpansions_ok lookup_eq)]
      obtain ⟨reused, result⟩ := discipline.reuseExpansion valid input kind datum found same puts
      have below : entry.position.startsWith position = true :=
        Table.position_of_entryAt found ▸ Position.startsWith_refl _
      exact .ok (discipline.keepSubtree position.expansion reused)
        ⟨discipline.refl _, List.Subset.refl _,
          (Pass.putExpansion_changesWithin puts below).trans
            (Store.keepSubtree_changesWithin _ _ position.expansion)⟩ result
  | @missed _ stats outcome_eq addressable _ =>
      rw [bind_of_ok (Pass.onExpansions_ok lookup_eq)]
      have leads : (discipline.expanding position).Leads pass
          (pass.withExpansions { pass.store.expansions with stats }) :=
        ⟨discipline.refl _, List.Subset.refl _, Pass.countExpansions_changesWithin _ pass stats⟩
      have computed := computeExpansion_follows follows kind present expands
        (discipline.countExpansions stats valid) input datum addressable
      rcases outcome_eq with rfl | rfl
      · exact computed.after leads
      · exact computed.after leads
  | misfiled overfull =>
      rw [bind_of_error (Pass.onExpansions_error lookup_eq)]
      exact .excused valid ((discipline.expanding position).refl pass) trivial

/-- Memoized expansion keeps to a discipline that the engine follows. -/
theorem memoizedAt_follows (follows : engine.Follows discipline) (room : Nat) (position : Position)
    (element : Element) {pass : Pass σ} (valid : discipline.Valid pass)
    (input : discipline.Input pass.world.ambient element) :
    (discipline.expanding position).Runs pass
      (fun _ expansion => discipline.Result element expansion)
      (engine.memoizedAt room position element pass) := by
  induction room generalizing position element pass with
  | zero => exact .excused valid ((discipline.expanding position).refl pass) trivial
  | succ room induction =>
      have children_run {state : Pass σ} (state_valid : discipline.Valid state)
          (state_input : discipline.Input state.world.ambient element) :
          (discipline.expanding position).Runs state
            (fun _ children => List.Forall₂ discipline.Result element.children children)
            (element.children.zipIdx.mapM (fun entry =>
              engine.memoizedAt room (position.child entry.2) entry.1) state) := by
        refine (Regime.Runs.mapM state_valid fun entry member later later_valid leads =>
          (induction (position.child entry.2) entry.1 later_valid ?_).widen
            (Discipline.expanding_narrows (Position.child_startsWith position entry.2))).weaken
              fun _ _ => forall₂_of_zipIdx
        exact discipline.input_grow leads.1
          (discipline.child state_input (List.fst_mem_of_mem_zipIdx member))
      rw [memoizedAt]
      cases kind : element.kind with
      | primitive builtIn =>
          refine .bind (children_run valid input) fun children after after_valid _ given => ?_
          exact .pure after_valid (follows.primitive kind given)
      | custom type =>
          refine .bind (memoizedData_follows follows kind valid input) ?_
          rintro data after after_valid ⟨grows, -⟩ datum
          have after_input := discipline.input_grow grows input
          cases present : (engine.vocabulary type).describe with
          | none =>
              refine .bind (children_run after_valid after_input)
                fun children last last_valid _ given => ?_
              exact .pure last_valid (follows.kept kind present datum given)
          | some describe =>
              exact recallExpansion_follows follows kind present
                (fun output pass pass_valid output_input =>
                  induction position.expansion output pass_valid output_input)
                after_valid after_input datum

/-- A compilation keeps to a discipline that the engine follows; if it succeeds, it may then drop what
it did not reach. -/
theorem expand_follows (follows : engine.Follows discipline) {root : Element} {pass : Pass σ}
    (valid : discipline.Valid pass) (input : discipline.Input pass.world.ambient root) :
    ∃ late, discipline.Valid late ∧
      (finalState (engine.expand root pass) = late ∨
        engine.config.sweep = true ∧ ∃ expansion, engine.expand root pass =
          .ok expansion { late with store := late.store.sweep.2 }) ∧
      ∀ expansion after, engine.expand root pass = .ok expansion after →
        discipline.Result root expansion := by
  by_cases remember : engine.config.remember = true
  · have runs := memoizedAt_follows follows (engine.config.maxDepth + 1) .root root valid input
    rw [expand, if_pos remember, expandMemoized]
    cases expanding : engine.memoizedAt (engine.config.maxDepth + 1) .root root pass with
    | error error late =>
        rw [expanding] at runs
        rw [bind_of_error expanding]
        exact ⟨late, runs.valid, .inl rfl, fun _ _ run => by cases run⟩
    | ok expansion late =>
        rw [expanding] at runs
        obtain ⟨late_valid, -, result⟩ := runs.of_ok
        rw [bind_of_ok expanding]
        refine ⟨late, late_valid, ?_, ?_⟩
        · by_cases sweep : engine.config.sweep = true
          · rw [if_pos sweep]
            exact .inr ⟨sweep, expansion, rfl⟩
          · rw [if_neg sweep]
            exact .inl rfl
        · intro other after run
          obtain rfl : expansion = other := by
            split at run
            · exact (EStateM.Result.ok.inj run).1
            · exact (EStateM.Result.ok.inj run).1
          exact result
  · have runs := freshAt_follows follows (engine.config.maxDepth + 1) .root root input
    rw [expand_fresh (Bool.eq_false_iff.mpr remember), Pass.act, expandFresh]
    cases expanding : engine.freshAt (engine.config.maxDepth + 1) .root root pass.world with
    | error error world =>
        rw [expanding] at runs
        cases runs with
        | excused _ grows _ =>
            exact ⟨_, discipline.grow valid grows, .inl rfl, fun _ _ run => by cases run⟩
    | ok expansion world =>
        rw [expanding] at runs
        obtain ⟨-, grows, result⟩ := runs.of_ok
        refine ⟨_, discipline.grow valid grows, .inl rfl, fun other after run => ?_⟩
        exact (EStateM.Result.ok.inj run).1 ▸ result

end Engine

end Phrasing
