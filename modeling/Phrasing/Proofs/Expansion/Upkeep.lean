import Phrasing.Proofs.Expansion.Deliveries
import Phrasing.Proofs.Expansion.Meaning

/-!
# Expansion keeps stores well kept

When callbacks uphold a standard, memoized expansion leaves a well-kept store well kept, whether it
fails or not, and a successful one delivers its nodes.  Nothing is asked of what callbacks compute
beyond the standard.
-/

namespace Phrasing

open Memo

variable {σ : Type}

namespace Standard

/-- The regime of callbacks: their state grows, and every error is excused. -/
def running (standard : Standard σ) : Regime (World σ) where
  Valid _ := True
  Leads before after := standard.Grows before.ambient after.ambient
  Excuses _ _ := True
  refl _ := standard.refl _
  trans := standard.trans

/-- The regime of a pass with a well-kept store, which retains what it held. -/
def keeping (standard : Standard σ) : Regime (Pass σ) where
  Valid pass := standard.WellKept pass.world.ambient pass.store
  Leads before after :=
    standard.Grows before.world.ambient after.world.ambient ∧ before.store.Retains after.store
  Excuses _ _ := True
  refl _ := ⟨standard.refl _, .refl _⟩
  trans earlier later := ⟨standard.trans earlier.1 later.1, earlier.2.trans later.2⟩

end Standard

/-- The callbacks of an engine keep to a standard, and so do the nodes within its limit on depth. -/
structure Engine.Upholds (engine : Engine σ) (standard : Standard σ) : Prop where
  /-- Data meet the standard. -/
  derive {type : NodeType} {derive : Element → Action σ EngineError Value} {element : Element}
    {world : World σ} : engine.processor.derivation? engine.vocabulary type = some derive →
    standard.Input world.ambient element →
    standard.running.Runs world (fun after data => standard.Datum after.ambient (some data))
      (derive element world)
  /-- Descriptions meet the standard. -/
  describe {type : NodeType} {describe : DescribeContext → Action σ Fault Element}
    {element : Element} {data : Option Value} {world : World σ} :
    (engine.vocabulary type).describe = some describe → standard.Input world.ambient element →
    standard.Datum world.ambient data →
    standard.running.Runs world (fun after output => standard.Input after.ambient output)
      (surfacing type .describe
        (describe { data, props := element.props, children := element.children }) world)
  /-- Nodes meet the standard.  Only nodes of declared types have data. -/
  node {ambient : σ} {position : Position} {element : Element} {data : Option Value} :
    standard.Input ambient element → standard.Datum ambient data →
    (data.isSome = true → ∃ type, element.kind = .custom type) →
    position.depth ≤ engine.config.maxDepth → standard.Node ambient position element data

theorem DescribeInputs.isSome_data_of_beq {left right : DescribeInputs} (same : (left == right) = true) :
    left.data.isSome = right.data.isSome := by
  have data_same : Value.sameOption left.data right.data = true := (Bool.and_eq_true_iff.mp same).2
  match left_eq : left.data, right_eq : right.data with
  | none, none => rfl
  | some _, some _ => rfl
  | none, some _ => simp [left_eq, right_eq, Value.sameOption] at data_same
  | some _, none => simp [left_eq, right_eq, Value.sameOption] at data_same

/-- What asks nothing of callbacks is asked of nodes only. -/
theorem Engine.upholds_steady {engine : Engine σ} {node : Position → Element → Option Value → Prop}
    (allows : ∀ position element data, position.depth ≤ engine.config.maxDepth →
      (data.isSome = true → ∃ type, element.kind = .custom type) → node position element data) :
    engine.Upholds (.steady node) := by
  have runs {α : Type} (world : World σ) (outcome : EStateM.Result EngineError (World σ) α) :
      (Standard.steady node).running.Runs world (fun _ _ => True) outcome := by
    cases outcome with
    | ok _ _ => exact .ok trivial trivial trivial
    | error _ _ => exact .excused trivial trivial trivial
  exact {
    derive := fun _ _ => runs _ _
    describe := fun _ _ _ => runs _ _
    node := fun _ _ custom shallow => allows _ _ _ shallow custom }

namespace Engine

variable {engine : Engine σ} {standard : Standard σ}

theorem freshData_runs (upholds : engine.Upholds standard) (type : NodeType) {element : Element}
    {world : World σ} (input : standard.Input world.ambient element) :
    standard.running.Runs world (fun after data => standard.Datum after.ambient data)
      (engine.freshData type element world) := by
  rw [freshData]
  cases derivation : engine.processor.derivation? engine.vocabulary type with
  | none => exact .ok trivial (standard.refl _) (standard.datum_none _)
  | some derive =>
      simp only [map_eq_pure_bind]
      refine .bind (upholds.derive derivation input) fun data after _ _ datum => ?_
      exact .pure trivial datum

/-- Fresh expansions of children meet the standard one after another. -/
theorem freshEach_runs {root : Position} {expand : Position → Element → Action σ EngineError Expansion}
    (runs : ∀ index element world, standard.Input world.ambient element →
      standard.running.Runs world
        (fun after expansion =>
          standard.Meets after.ambient (Expansion.Located (root.child index) expansion))
        (expand (root.child index) element world))
    {elements : List Element} {start : Nat} {world : World σ}
    (inputs : ∀ element ∈ elements, standard.Input world.ambient element) :
    standard.running.Runs world
      (fun after expansions =>
        standard.Meets after.ambient (Expansion.LocatedAmong root start expansions))
      ((elements.zipIdx start).mapM (fun entry => expand (root.child entry.2) entry.1) world) := by
  induction elements generalizing start world with
  | nil => exact .pure trivial fun _ _ ⟨_, _, present, _⟩ => nomatch present
  | cons element rest induction =>
      rw [List.zipIdx_cons, List.mapM_cons]
      refine .bind (runs start element world (inputs element List.mem_cons_self)) ?_
      intro expansion middle _ grows meets
      refine .bind (induction fun other member =>
        standard.input_grow grows (inputs other (List.mem_cons_of_mem element member))) ?_
      intro expansions after _ grows_on meets_rest
      exact .pure trivial (Standard.meets_cons (meets.grow grows_on) meets_rest)

/-- Every node of a fresh expansion meets the standard. -/
theorem freshAt_runs (upholds : engine.Upholds standard) (room : Nat) (root : Position)
    (element : Element) (fits : room + root.depth = engine.config.maxDepth + 1)
    (world : World σ) (input : standard.Input world.ambient element) :
    standard.running.Runs world
      (fun after expansion => standard.Meets after.ambient (Expansion.Located root expansion))
      (engine.freshAt room root element world) := by
  induction room generalizing root element world with
  | zero => exact .excused trivial (standard.refl _) trivial
  | succ room induction =>
      have shallow : root.depth ≤ engine.config.maxDepth := by omega
      have children_run (state : World σ) (input_then : standard.Input state.ambient element) :
          standard.running.Runs state
            (fun after expansions =>
              standard.Meets after.ambient (Expansion.LocatedAmong root 0 expansions))
            (element.children.zipIdx.mapM (fun entry =>
              engine.freshAt room (root.child entry.2) entry.1) state) := by
        refine freshEach_runs (fun index child world input => ?_)
          fun child member => standard.child input_then member
        have child_fits : room + (root.child index).depth = engine.config.maxDepth + 1 := by
          rw [Position.depth_child]
          omega
        exact induction _ child child_fits world input
      rw [freshAt]
      cases kind : element.kind with
      | primitive builtIn =>
          refine .bind (children_run world input) fun expansions after _ grows meets => ?_
          have meets_here : standard.Node world.ambient root element none :=
            upholds.node input (standard.datum_none _) (absurd · Bool.false_ne_true) shallow
          exact .pure trivial (Standard.meets_structural (standard.node_grow grows meets_here) meets)
      | custom type =>
          refine .bind (freshData_runs upholds type input) fun data middle _ grows datum => ?_
          have input_then := standard.input_grow grows input
          have meets_here : standard.Node middle.ambient root element data :=
            upholds.node input_then datum (fun _ => ⟨type, kind⟩) shallow
          cases present : (engine.vocabulary type).describe with
          | none =>
              refine .bind (children_run middle input_then) fun expansions after _ grows meets => ?_
              exact .pure trivial
                (Standard.meets_structural (standard.node_grow grows meets_here) meets)
          | some describe =>
              refine .bind (upholds.describe present input_then datum) ?_
              intro output late _ grows_late input_output
              have body_fits : room + root.expansion.depth = engine.config.maxDepth + 1 := by
                rw [Position.depth_expansion]
                omega
              refine .bind (induction _ output body_fits late input_output) ?_
              intro body after _ grows_after meets
              exact .pure trivial (Standard.meets_described
                (standard.node_grow (standard.trans grows_late grows_after) meets_here) meets)

theorem run_keeps {α : Type} {pass : Pass σ} {call : Call} {callbacks : Action σ EngineError α}
    {gives : World σ → α → Prop} (kept : standard.WellKept pass.world.ambient pass.store)
    (runs : standard.running.Runs pass.world gives (callbacks pass.world)) :
    standard.keeping.Runs pass
      (fun after result => gives after.world result ∧ after.store = pass.store)
      (Pass.run call callbacks pass) := by
  rw [Pass.run, Pass.act]
  simp only
  generalize callbacks pass.world = outcome at runs ⊢
  cases runs with
  | ok _ grows given => exact .ok (kept.grow grows) ⟨grows, .refl _⟩ ⟨given, rfl⟩
  | excused _ grows _ => exact .excused (kept.grow grows) ⟨grows, .refl _⟩ trivial

variable [Digest]

theorem computeData_runs (upholds : engine.Upholds standard) {root : Position} {type : NodeType}
    {element : Element} {derive : Element → Action σ EngineError Value}
    (derivation : engine.processor.derivation? engine.vocabulary type = some derive) (pass : Pass σ)
    (kept : standard.WellKept pass.world.ambient pass.store)
    (input : standard.Input pass.world.ambient element)
    (addressable : pass.store.observations.Addressable root) :
    standard.keeping.Runs pass
      (fun after data => standard.Obtains after.world.ambient root data pass.store after.store)
      (computeData root element derive pass) := by
  rw [computeData]
  refine .bind (run_keeps kept (upholds.derive derivation input)) ?_
  rintro data after after_kept - ⟨datum, store_eq⟩
  obtain ⟨id, observations, stored, puts⟩ := after_kept.observations.filed.store_ok
    (store_eq ▸ addressable) (ObserveInputs.ofElement element).fingerprint
    (ObserveInputs.ofElement element) data
  rw [bind_of_ok (Pass.onObservations_ok stored)]
  refine .ok (after_kept.putObservation puts rfl datum)
    ⟨standard.refl _, Store.retains_putObservation puts rfl⟩ ?_
  rw [← store_eq]
  exact Standard.obtains_put puts rfl rfl datum

/-- The data of a node are come by, from the store or from callbacks. -/
theorem memoizedData_runs (upholds : engine.Upholds standard) {root : Position} {type : NodeType}
    {element : Element} {pass : Pass σ}
    (kept : standard.WellKept pass.world.ambient pass.store)
    (input : standard.Input pass.world.ambient element) :
    standard.keeping.Runs pass
      (fun after data => standard.Obtains after.world.ambient root data pass.store after.store)
      (engine.memoizedData root type element pass) := by
  rw [memoizedData]
  cases derivation : engine.processor.derivation? engine.vocabulary type with
  | none => exact .pure kept (Standard.obtains_none _ root _)
  | some derive =>
      have looked := kept.observations.filed.looked root
        (ObserveInputs.ofElement element).fingerprint (ObserveInputs.ofElement element)
      generalize lookup_eq : pass.store.observations.lookup root _ _ = outcome at looked
      simp only [recallData]
      cases looked with
      | @hit entry observations found _ _ puts =>
          rw [bind_of_ok (Pass.onObservations_ok lookup_eq)]
          have datum : standard.Datum _ (some entry.output) := kept.observations.proper found
          have here : entry.position = root := Table.position_of_entryAt found
          have obtains := Standard.obtains_put puts here rfl datum
          exact .ok (kept.putObservation puts rfl datum)
            ⟨standard.refl _, Store.retains_putObservation puts rfl⟩ obtains
      | @missed _ stats outcome_eq addressable _ =>
          rw [bind_of_ok (Pass.onObservations_ok lookup_eq)]
          have leads : standard.keeping.Leads pass
              (pass.withObservations { pass.store.observations with stats }) :=
            ⟨standard.refl _, Store.retains_countObservations _ stats⟩
          have counted : standard.WellKept pass.world.ambient
              (pass.withObservations { pass.store.observations with stats }).store :=
            kept.countObservations stats
          have computed := (computeData_runs upholds derivation
            (pass.withObservations { pass.store.observations with stats }) counted input
            addressable).weaken fun after data obtains => obtains.of_countObservations
          rcases outcome_eq with rfl | rfl
          · exact computed.after leads
          · exact computed.after leads
      | misfiled _ =>
          rw [bind_of_error (Pass.onObservations_error lookup_eq)]
          exact .excused kept (standard.keeping.refl pass) trivial

/-- A pass has delivered the nodes of an expansion. -/
def Gives (standard : Standard σ) (root : Position) (before : Store) (after : Pass σ)
    (expansion : Expansion) : Prop :=
  standard.Delivers (expansion.Located root) root.Below expansion.Narrow after.world.ambient before
    after.store

/-- A pass has delivered the nodes of several expansions. -/
def GivesEach (standard : Standard σ) (root : Position) (start : Nat) (before : Store)
    (after : Pass σ) (expansions : List Expansion) : Prop :=
  standard.Delivers (Expansion.LocatedAmong root start expansions)
    (root.BelowChildren start (start + expansions.length))
    (start + expansions.length ≤ UInt32.size ∧ ∀ expansion ∈ expansions, expansion.Narrow)
    after.world.ambient before after.store

omit [Digest] in
/-- The children of a node are expanded one after another. -/
theorem memoizedEach_runs {root : Position}
    {expand : Position → Element → EStateM EngineError (Pass σ) Expansion}
    (runs : ∀ index element pass, standard.WellKept pass.world.ambient pass.store →
      standard.Input pass.world.ambient element →
      standard.keeping.Runs pass (Gives standard (root.child index) pass.store)
        (expand (root.child index) element pass))
    {elements : List Element} {start : Nat} {pass : Pass σ}
    (kept : standard.WellKept pass.world.ambient pass.store)
    (inputs : ∀ element ∈ elements, standard.Input pass.world.ambient element) :
    standard.keeping.Runs pass (GivesEach standard root start pass.store)
      ((elements.zipIdx start).mapM (fun entry => expand (root.child entry.2) entry.1) pass) := by
  induction elements generalizing start pass with
  | nil => exact .pure kept (Standard.delivers_nil _ _)
  | cons element rest induction =>
      rw [List.zipIdx_cons, List.mapM_cons]
      refine .bind (runs start element pass kept (inputs element List.mem_cons_self)) ?_
      rintro expansion middle middle_kept ⟨grows, -⟩ first
      refine .bind (induction middle_kept fun other member =>
        standard.input_grow grows (inputs other (List.mem_cons_of_mem element member))) ?_
      rintro expansions after after_kept ⟨grows_on, retains⟩ others
      exact .pure after_kept (first.cons grows_on retains others)

theorem computeExpansion_runs (upholds : engine.Upholds standard) {root : Position}
    {type : NodeType} {element : Element} {data : Option Value} {before : Store}
    {describe : DescribeContext → Action σ Fault Element}
    {expand : Element → EStateM EngineError (Pass σ) Expansion}
    (present : (engine.vocabulary type).describe = some describe)
    (runs : ∀ output pass, standard.WellKept pass.world.ambient pass.store →
      standard.Input pass.world.ambient output →
      standard.keeping.Runs pass (Gives standard root.expansion pass.store) (expand output pass))
    (pass : Pass σ) (kept : standard.WellKept pass.world.ambient pass.store)
    (input : standard.Input pass.world.ambient element)
    (obtains : standard.Obtains pass.world.ambient root data before pass.store)
    (meets_here : standard.Node pass.world.ambient root element data)
    (addressable : pass.store.expansions.Addressable root) :
    standard.keeping.Runs pass (Gives standard root before)
      (computeExpansion root type element data describe expand pass) := by
  rw [computeExpansion]
  refine .bind (run_keeps kept (upholds.describe present input obtains.datum)) ?_
  rintro output called called_kept ⟨grows, -⟩ ⟨input_output, store_eq⟩
  refine .bind (runs output called called_kept input_output) ?_
  rintro body late late_kept ⟨grows_on, retains⟩ delivers
  rw [Gives, store_eq] at delivers
  have addressable_late : late.store.expansions.Addressable root :=
    delivers.changes.expansions.addressable (Position.not_startsWith_expansion root) addressable
  obtain ⟨id, expansions, stored, puts⟩ := late_kept.expansions.filed.store_ok addressable_late
    (DescribeInputs.ofElement element data).fingerprint (DescribeInputs.ofElement element data)
    (.described element data body)
  rw [bind_of_ok (Pass.onExpansions_ok stored)]
  have delivered := delivers.described obtains (store_eq ▸ retains)
    (standard.node_grow (standard.trans grows grows_on) meets_here) puts rfl rfl rfl
  exact .ok (late_kept.putExpansion puts rfl ⟨⟨element, body, rfl⟩, delivered.meets⟩
    fun _ _ located => delivered.backs located)
    ⟨standard.refl _, Store.retains_putExpansion puts rfl⟩ delivered

/-- The expansion of a described node is delivered, from the store or from callbacks. -/
theorem recallExpansion_runs (upholds : engine.Upholds standard) {root : Position}
    {type : NodeType} {element : Element} {data : Option Value} {before : Store}
    {describe : DescribeContext → Action σ Fault Element}
    {expand : Element → EStateM EngineError (Pass σ) Expansion}
    (present : (engine.vocabulary type).describe = some describe)
    (runs : ∀ output pass, standard.WellKept pass.world.ambient pass.store →
      standard.Input pass.world.ambient output →
      standard.keeping.Runs pass (Gives standard root.expansion pass.store) (expand output pass))
    (pass : Pass σ) (kept : standard.WellKept pass.world.ambient pass.store)
    (input : standard.Input pass.world.ambient element)
    (obtains : standard.Obtains pass.world.ambient root data before pass.store)
    (meets_here : standard.Node pass.world.ambient root element data) :
    standard.keeping.Runs pass (Gives standard root before)
      (recallExpansion root element data
        (computeExpansion root type element data describe expand) pass) := by
  have looked := kept.expansions.filed.looked root
    (DescribeInputs.ofElement element data).fingerprint (DescribeInputs.ofElement element data)
  generalize lookup_eq : pass.store.expansions.lookup root _ _ = outcome at looked
  rw [recallExpansion]
  cases looked with
  | @hit entry expansions found _ same puts =>
      rw [bind_of_ok (Pass.onExpansions_ok lookup_eq)]
      have data_eq : entry.output.data.isSome = data.isSome := by
        obtain ⟨node, body, output_eq⟩ := (kept.expansions.proper found).output_eq
        rw [output_eq]
        exact DescribeInputs.isSome_data_of_beq same
      exact .ok (kept.reuse found puts fun present => obtains.holds (data_eq.symm.trans present))
        ⟨standard.refl _, (Store.retains_putExpansion puts rfl).trans
          (Store.retains_keepSubtree _ root.expansion)⟩
        (Standard.Delivers.reuse obtains kept found puts data_eq)
  | @missed _ stats outcome_eq addressable _ =>
      rw [bind_of_ok (Pass.onExpansions_ok lookup_eq)]
      have leads : standard.keeping.Leads pass
          (pass.withExpansions { pass.store.expansions with stats }) :=
        ⟨standard.refl _, Store.retains_countExpansions _ stats⟩
      have counted : standard.WellKept pass.world.ambient
          (pass.withExpansions { pass.store.expansions with stats }).store :=
        kept.countExpansions stats
      have computed := computeExpansion_runs upholds present runs
        (pass.withExpansions { pass.store.expansions with stats }) counted input
        (obtains.countExpansions stats) meets_here addressable
      rcases outcome_eq with rfl | rfl
      · exact computed.after leads
      · exact computed.after leads
  | misfiled _ =>
      rw [bind_of_error (Pass.onExpansions_error lookup_eq)]
      exact .excused kept (standard.keeping.refl pass) trivial

/-- With a well-kept store, memoized expansion delivers the nodes it gives, and it leaves the store
well kept whether it fails or not. -/
theorem memoizedAt_runs (upholds : engine.Upholds standard) (room : Nat) (root : Position)
    (element : Element) (fits : room + root.depth = engine.config.maxDepth + 1) (pass : Pass σ)
    (kept : standard.WellKept pass.world.ambient pass.store)
    (input : standard.Input pass.world.ambient element) :
    standard.keeping.Runs pass (Gives standard root pass.store)
      (engine.memoizedAt room root element pass) := by
  induction room generalizing root element pass with
  | zero => exact .excused kept (standard.keeping.refl pass) trivial
  | succ room induction =>
      have shallow : root.depth ≤ engine.config.maxDepth := by omega
      have children_run (state : Pass σ)
          (state_kept : standard.WellKept state.world.ambient state.store)
          (state_input : standard.Input state.world.ambient element) :
          standard.keeping.Runs state (GivesEach standard root 0 state.store)
            (element.children.zipIdx.mapM (fun entry =>
              engine.memoizedAt room (root.child entry.2) entry.1) state) := by
        refine memoizedEach_runs (fun index child other other_kept other_input => ?_) state_kept
          fun child member => standard.child state_input member
        have child_fits : room + (root.child index).depth = engine.config.maxDepth + 1 := by
          rw [Position.depth_child]
          omega
        exact induction _ child child_fits other other_kept other_input
      rw [memoizedAt]
      cases kind : element.kind with
      | primitive builtIn =>
          refine .bind (children_run pass kept input) ?_
          rintro expansions after after_kept ⟨grows, retains⟩ children
          have meets_here : standard.Node pass.world.ambient root element none :=
            upholds.node input (standard.datum_none _) nofun shallow
          exact .pure after_kept (.structural (Standard.obtains_none pass.world.ambient _ _) retains
            (standard.node_grow grows meets_here) children)
      | custom type =>
          refine .bind (memoizedData_runs upholds kept input) ?_
          rintro data middle middle_kept ⟨grows, -⟩ obtains
          have input_then := standard.input_grow grows input
          have meets_here : standard.Node middle.world.ambient root element data :=
            upholds.node input_then obtains.datum (fun _ => ⟨type, kind⟩) shallow
          cases present : (engine.vocabulary type).describe with
          | none =>
              refine .bind (children_run middle middle_kept input_then) ?_
              rintro expansions after after_kept ⟨grows_on, retains⟩ children
              exact .pure after_kept (.structural obtains retains
                (standard.node_grow grows_on meets_here) children)
          | some describe =>
              have body_fits : room + root.expansion.depth = engine.config.maxDepth + 1 := by
                rw [Position.depth_expansion]
                omega
              exact recallExpansion_runs upholds present
                (fun output other => induction _ output body_fits other) middle middle_kept
                input_then obtains meets_here

end Engine

end Phrasing
