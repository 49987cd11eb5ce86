import Phrasing.Proofs.Expansion.Operations
import Phrasing.Proofs.Memo.Answering
import Phrasing.Proofs.Traversal.Forms

/-!
# Settled expansions

An expansion is settled in a store when the store answers every lookup that expanding the element
again would make, with what the expansion is made of.  Expanding an element settles its expansion,
whatever was stored before, as long as inputs compare equal to themselves and children have
positions of their own.
-/

namespace Phrasing

open Memo

/-- Within a region, one store answers what another one answers. -/
structure Store.Transfers (region : Position → Prop) (before : Store) (live : Prop) (after : Store)
    (other : Prop) : Prop where
  /-- The observations do. -/
  observations : Table.Transfers region before.observations live after.observations other
  /-- The expansions do. -/
  expansions : Table.Transfers region before.expansions live after.expansions other

theorem Store.ChangesWithin.transfers {region changed : Position → Prop} {before after : Store}
    (changes : before.ChangesWithin changed after) (live : Prop)
    (apart : ∀ position, region position → ¬ changed position) :
    before.Transfers region live after live :=
  ⟨changes.observations.transfers apart, changes.expansions.transfers apart⟩

namespace Engine

variable {σ : Type} [Digest]

/-- The store answers the lookup for the data of an element, if its type has any. -/
def SettledData (engine : Engine σ) (store : Store) (live : Prop) (position : Position)
    (type : NodeType) (element : Element) (data : Option Value) : Prop :=
  match engine.processor.derivation? engine.vocabulary type with
  | none => data = none
  | some _ => ∃ value, data = some value ∧
      store.observations.Answers live position (ObserveInputs.ofElement element).fingerprint
        (ObserveInputs.ofElement element) value

/-- The store answers every lookup of an expansion, with what the expansion is made of. -/
def Settled (engine : Engine σ) (store : Store) (live : Prop) :
    Nat → Position → Element → Expansion → Prop
  | 0, _, _, _ => False
  | room + 1, position, element, expansion =>
      let each := List.Forall₂ (fun entry expansion =>
        engine.Settled store live room (position.child entry.2) entry.1 expansion)
        element.children.zipIdx
      match element.kind with
      | .primitive _ => ∃ children, expansion = .structural element none children ∧ each children
      | .custom type => ∃ data, engine.SettledData store live position type element data ∧
          match (engine.vocabulary type).describe with
          | none => ∃ children, expansion = .structural element data children ∧ each children
          | some _ =>
              store.expansions.Answers live position
                (DescribeInputs.ofElement element data).fingerprint
                (DescribeInputs.ofElement element data) expansion

variable {engine : Engine σ} {before after : Store} {live other : Prop} {position root : Position}

theorem SettledData.transfer {type : NodeType} {element : Element} {data : Option Value}
    {region : Position → Prop} (settled : engine.SettledData before live position type element data)
    (transfers : Table.Transfers region before.observations live after.observations other)
    (inside : region position) : engine.SettledData after other position type element data := by
  rw [SettledData] at settled ⊢
  cases derivation : engine.processor.derivation? engine.vocabulary type with
  | none =>
      rw [derivation] at settled
      exact settled
  | some derive =>
      rw [derivation] at settled
      obtain ⟨value, data_eq, answers⟩ := settled
      exact ⟨value, data_eq, transfers.answers inside answers⟩

/-- A settled expansion stays settled where a store answers the same. -/
theorem Settled.transfer {room : Nat} {element : Element} {expansion : Expansion}
    {region : Position → Prop} (settled : engine.Settled before live room position element expansion)
    (transfers : before.Transfers region live after other)
    (inside : ∀ lower, position.Below lower → region lower) :
    engine.Settled after other room position element expansion := by
  induction room generalizing position element expansion with
  | zero => exact settled
  | succ room induction =>
      have here : region position := inside position (Position.startsWith_refl position)
      have each {children : List Expansion}
          (children_settled : List.Forall₂ (fun entry expansion =>
            engine.Settled before live room (position.child entry.2) entry.1 expansion)
            element.children.zipIdx children) :
          List.Forall₂ (fun entry expansion =>
            engine.Settled after other room (position.child entry.2) entry.1 expansion)
            element.children.zipIdx children := by
        refine children_settled.imp fun entry expansion child_settled => ?_
        refine induction child_settled fun lower below => inside lower ?_
        exact Position.startsWith_trans below (Position.child_startsWith position entry.2)
      rw [Settled] at settled ⊢
      cases kind : element.kind with
      | primitive builtIn =>
          rw [kind] at settled
          obtain ⟨children, rfl, children_settled⟩ := settled
          exact ⟨children, rfl, each children_settled⟩
      | custom type =>
          rw [kind] at settled
          obtain ⟨data, data_settled, settled⟩ := settled
          refine ⟨data, data_settled.transfer transfers.observations here, ?_⟩
          cases present : (engine.vocabulary type).describe with
          | none =>
              rw [present] at settled
              obtain ⟨children, rfl, children_settled⟩ := settled
              exact ⟨children, rfl, each children_settled⟩
          | some describe =>
              rw [present] at settled
              exact transfers.expansions.answers here settled

end Engine

/-- The standard that asks nothing. -/
def Standard.lax {σ : Type} : Standard σ :=
  .steady fun _ _ _ => True

theorem Engine.upholds_lax {σ : Type} (engine : Engine σ) : engine.Upholds .lax :=
  upholds_steady fun _ _ _ _ _ => trivial

/-- Numbers in an element equal themselves, and no node has as many children as there are indices. -/
def Element.Plain (element : Element) : Prop :=
  element.Every (fun number => number.toBits ≠ Number.undefinedBits)
    fun node => node.children.length < UInt32.size

/-- Numbers in an expansion equal themselves. -/
def Expansion.Defined (expansion : Expansion) : Prop :=
  expansion.Every (fun number => number.toBits ≠ Number.undefinedBits) fun _ => True

theorem Element.Plain.child {element child : Element} (plain : element.Plain)
    (member : child ∈ element.children) : child.Plain :=
  Element.Every.child plain member

theorem Expansion.Defined.children {element : Element} {data : Option Value}
    {children : List Expansion} (defined : (structural element data children).Defined) :
    ∀ child ∈ children, child.Defined := by
  obtain ⟨-, -, every⟩ := defined
  intro child member
  induction children with
  | nil => cases member
  | cons first rest induction =>
      rcases List.mem_cons.mp member with rfl | later
      · exact every.1
      · exact induction every.2 later

theorem Element.Plain.observeInputs_beq {element : Element} (plain : element.Plain) :
    (ObserveInputs.ofElement element == ObserveInputs.ofElement element) = true := by
  obtain ⟨id, kind, props, children, hash⟩ := element
  exact ObserveInputs.beq_of_form_eq (fun _ defined => defined) plain.2 rfl

theorem Element.Plain.describeInputs_beq {element : Element} {data : Option Value}
    (plain : element.Plain)
    (defined : Structured.Every (fun number => number.toBits ≠ Number.undefinedBits)
      (fun _ => True) data) :
    (DescribeInputs.ofElement element data == DescribeInputs.ofElement element data) = true := by
  obtain ⟨id, kind, props, children, hash⟩ := element
  have every : Structured.Every (fun number => number.toBits ≠ Number.undefinedBits)
      (fun _ => True) (DescribeInputs.ofElement (.node id kind props children hash) data) :=
    ⟨defined, plain.2.1.imp fun _ _ => trivial, plain.2.2.imp fun _ _ => trivial⟩
  exact DescribeInputs.beq_of_form_eq (fun _ defined => defined) every rfl

namespace Engine

variable {σ : Type} [Digest] {engine : Engine σ}

/-- Coming by the data of an element settles them. -/
theorem memoizedData_settles {position : Position} {type : NodeType} {element : Element}
    {before after : Pass σ} {data : Option Value}
    (same : (ObserveInputs.ofElement element == ObserveInputs.ofElement element) = true)
    (filed : before.store.observations.Filed)
    (run : engine.memoizedData position type element before = .ok data after) :
    engine.SettledData after.store True position type element data := by
  rw [memoizedData] at run
  rw [SettledData]
  cases derivation : engine.processor.derivation? engine.vocabulary type with
  | none =>
      rw [derivation] at run
      exact (EStateM.Result.ok.inj run).1.symm
  | some derive =>
      rw [derivation] at run
      obtain ⟨outcome, looked_up, looking, run⟩ := bind_eq_ok.mp run
      obtain ⟨observations, lookup_eq, rfl⟩ := Pass.of_onObservations_ok looking
      have looked := filed.looked position (ObserveInputs.ofElement element).fingerprint
        (ObserveInputs.ofElement element)
      rw [lookup_eq] at looked
      cases looked with
      | @hit entry _ found fingerprint_eq same puts =>
          obtain ⟨rfl, rfl⟩ := EStateM.Result.ok.inj run
          have here : entry.position = position := Table.position_of_entryAt found
          exact ⟨entry.output, rfl, puts.answers here rfl fingerprint_eq same⟩
      | @missed _ stats outcome_eq addressable _ =>
          have computing : computeData position element derive
              (before.withObservations { before.store.observations with stats }) =
                .ok data after := by
            rcases outcome_eq with rfl | rfl
            · exact run
            · exact run
          obtain ⟨value, late, calling, run⟩ := bind_eq_ok.mp computing
          obtain ⟨world, -, rfl⟩ := Pass.of_run_ok calling
          obtain ⟨id, stored, storing, run⟩ := bind_eq_ok.mp run
          obtain ⟨observations, store_eq, rfl⟩ := Pass.of_onObservations_ok storing
          obtain ⟨rfl, rfl⟩ := EStateM.Result.ok.inj run
          have counted : { before.store.observations with stats }.Filed :=
            ⟨filed.distinct, filed.indexed⟩
          obtain ⟨_, stored_table, stored_eq, puts⟩ := counted.store_ok addressable
            (ObserveInputs.ofElement element).fingerprint (ObserveInputs.ofElement element) value
          obtain ⟨rfl, rfl⟩ := Prod.mk.inj (Except.ok.inj (store_eq.symm.trans stored_eq))
          exact ⟨value, rfl, puts.answers rfl rfl rfl same⟩

/-- Computing and storing an expansion settles it, if its inputs equal themselves. -/
theorem computeExpansion_settles {position : Position} {type : NodeType} {element : Element}
    {data : Option Value} (before : Pass σ) {after : Pass σ} {expansion : Expansion}
    {describe : DescribeContext → Action σ Fault Element}
    {expand : Element → EStateM EngineError (Pass σ) Expansion}
    (expands : ∀ output start body last,
      Standard.lax.WellKept start.world.ambient start.store → expand output start = .ok body last →
      Standard.lax.WellKept last.world.ambient last.store ∧
        start.store.ChangesWithin position.expansion.Below last.store)
    (kept : Standard.lax.WellKept before.world.ambient before.store)
    (addressable : before.store.expansions.Addressable position)
    (same : ∀ body, expansion = .described element data body →
      (DescribeInputs.ofElement element data == DescribeInputs.ofElement element data) = true)
    (run : computeExpansion position type element data describe expand before = .ok expansion after) :
    after.store.expansions.Answers True position (DescribeInputs.ofElement element data).fingerprint
        (DescribeInputs.ofElement element data) expansion ∧
      before.store.observations.ChangesWithin position.expansion.Below after.store.observations := by
  obtain ⟨output, described, calling, run⟩ := bind_eq_ok.mp run
  obtain ⟨world, -, rfl⟩ := Pass.of_run_ok calling
  obtain ⟨body, late, expanding, run⟩ := bind_eq_ok.mp run
  obtain ⟨id, stored, storing, run⟩ := bind_eq_ok.mp run
  obtain ⟨expansions, store_eq, rfl⟩ := Pass.of_onExpansions_ok storing
  obtain ⟨rfl, rfl⟩ := EStateM.Result.ok.inj run
  have called_kept : Standard.lax.WellKept world.ambient before.store := kept.grow trivial
  obtain ⟨late_kept, changes⟩ := expands output _ body late called_kept expanding
  have addressable_late : late.store.expansions.Addressable position :=
    changes.expansions.addressable (Position.not_startsWith_expansion position) addressable
  obtain ⟨_, stored_table, stored_eq, puts⟩ := late_kept.expansions.filed.store_ok addressable_late
    (DescribeInputs.ofElement element data).fingerprint (DescribeInputs.ofElement element data)
    (.described element data body)
  obtain ⟨rfl, rfl⟩ := Prod.mk.inj (Except.ok.inj (store_eq.symm.trans stored_eq))
  exact ⟨puts.answers rfl rfl rfl (same body rfl), changes.observations⟩

/-- Expanding a described node settles its expansion. -/
theorem recallExpansion_settles {position : Position} {type : NodeType} {element : Element}
    {data : Option Value} {before after : Pass σ} {expansion : Expansion}
    {describe : DescribeContext → Action σ Fault Element}
    {expand : Element → EStateM EngineError (Pass σ) Expansion}
    (expands : ∀ output start body last,
      Standard.lax.WellKept start.world.ambient start.store → expand output start = .ok body last →
      Standard.lax.WellKept last.world.ambient last.store ∧
        start.store.ChangesWithin position.expansion.Below last.store)
    (kept : Standard.lax.WellKept before.world.ambient before.store)
    (same : ∀ body, expansion = .described element data body →
      (DescribeInputs.ofElement element data == DescribeInputs.ofElement element data) = true)
    (run : recallExpansion position element data
      (computeExpansion position type element data describe expand) before = .ok expansion after) :
    after.store.expansions.Answers True position (DescribeInputs.ofElement element data).fingerprint
        (DescribeInputs.ofElement element data) expansion ∧
      before.store.observations.ChangesWithin position.expansion.Below after.store.observations := by
  obtain ⟨outcome, looked_up, looking, run⟩ := bind_eq_ok.mp run
  obtain ⟨expansions, lookup_eq, rfl⟩ := Pass.of_onExpansions_ok looking
  have looked := kept.expansions.filed.looked position
    (DescribeInputs.ofElement element data).fingerprint (DescribeInputs.ofElement element data)
  rw [lookup_eq] at looked
  cases looked with
  | @hit entry _ found fingerprint_eq alike puts =>
      obtain ⟨rfl, rfl⟩ := EStateM.Result.ok.inj run
      have here : entry.position = position := Table.position_of_entryAt found
      have answers := puts.answers here rfl fingerprint_eq alike
      have kept_answers := (Table.transfers_keepSubtree (fun _ => True) _ _ position.expansion).answers
        trivial answers
      exact ⟨kept_answers, (Store.keepSubtree_changesWithin _ before.store _).observations⟩
  | @missed _ stats outcome_eq addressable _ =>
      have computing : computeExpansion position type element data describe expand
          (before.withExpansions { before.store.expansions with stats }) = .ok expansion after := by
        rcases outcome_eq with rfl | rfl
        · exact run
        · exact run
      have counted : Standard.lax.WellKept before.world.ambient
          (before.withExpansions { before.store.expansions with stats }).store :=
        kept.countExpansions stats
      exact computeExpansion_settles (before.withExpansions { before.store.expansions with stats })
        expands counted addressable same computing

/-- What memoized expansion does to a store, whatever callbacks compute. -/
theorem memoizedAt_changes {room : Nat} {position : Position} {element : Element}
    {before after : Pass σ} {expansion : Expansion}
    (fits : room + position.depth = engine.config.maxDepth + 1)
    (kept : Standard.lax.WellKept before.world.ambient before.store)
    (run : engine.memoizedAt room position element before = .ok expansion after) :
    Standard.lax.WellKept after.world.ambient after.store ∧
      before.store.ChangesWithin position.Below after.store := by
  have runs := memoizedAt_runs engine.upholds_lax room position element fits before kept trivial
  rw [run] at runs
  obtain ⟨after_kept, -, gives⟩ := runs.of_ok
  exact ⟨after_kept, gives.changes⟩

/-- Expanding children one after another settles their expansions. -/
theorem memoizedEach_settles {room : Nat} {root : Position}
    (settles : ∀ index element before expansion after, element.Plain →
      Standard.lax.WellKept before.world.ambient before.store →
      engine.memoizedAt room (root.child index) element before = .ok expansion after →
      expansion.Defined → engine.Settled after.store True room (root.child index) element expansion)
    (fits : room + (root.depth + 1) = engine.config.maxDepth + 1)
    {elements : List Element} {start : Nat} (narrow : start + elements.length ≤ UInt32.size)
    (plain : ∀ element ∈ elements, element.Plain) {before after : Pass σ}
    {expansions : List Expansion}
    (kept : Standard.lax.WellKept before.world.ambient before.store)
    (run : (elements.zipIdx start).mapM (fun entry =>
      engine.memoizedAt room (root.child entry.2) entry.1) before = .ok expansions after)
    (defined : ∀ expansion ∈ expansions, expansion.Defined) :
    List.Forall₂ (fun entry expansion =>
      engine.Settled after.store True room (root.child entry.2) entry.1 expansion)
      (elements.zipIdx start) expansions ∧
      before.store.ChangesWithin (root.BelowChildren start (start + elements.length)) after.store := by
  have child_fits (index : Nat) :
      room + (root.child index).depth = engine.config.maxDepth + 1 := by
    rw [Position.depth_child]
    exact fits
  induction elements generalizing start before expansions with
  | nil =>
      obtain ⟨rfl, rfl⟩ := EStateM.Result.ok.inj run
      exact ⟨.nil, .refl _ _⟩
  | cons element rest induction =>
      rw [List.zipIdx_cons, List.mapM_cons] at run
      obtain ⟨expansion, middle, first_run, run⟩ := bind_eq_ok.mp run
      obtain ⟨others, last, rest_run, run⟩ := bind_eq_ok.mp run
      obtain ⟨rfl, rfl⟩ := EStateM.Result.ok.inj run
      rw [List.length_cons] at narrow ⊢
      obtain ⟨middle_kept, first_changes⟩ := memoizedAt_changes (child_fits start) kept first_run
      have first := settles start element before expansion middle (plain element List.mem_cons_self)
        kept first_run (defined expansion List.mem_cons_self)
      obtain ⟨each, changes⟩ := induction (by omega)
        (fun other member => plain other (List.mem_cons_of_mem element member)) middle_kept rest_run
        fun other member => defined other (List.mem_cons_of_mem expansion member)
      have apart (lower : Position) (below : (root.child start).Below lower) :
          ¬ root.BelowChildren (start + 1) (start + 1 + rest.length) lower :=
        Position.not_belowChildren (Nat.lt_succ_self start) (by omega) below
      refine ⟨.cons (first.transfer (changes.transfers True apart) fun _ below => below) each, ?_⟩
      refine (first_changes.widen fun lower below => ?_).trans (changes.widen ?_)
      · exact ⟨start, Nat.le_refl start, by omega, below⟩
      · rintro lower ⟨index, start_le, index_lt, below⟩
        exact ⟨index, by omega, by omega, below⟩

/-- Whatever was stored before, memoized expansion settles what it gives. -/
theorem memoizedAt_settles {room : Nat} {position : Position} {element : Element}
    {before after : Pass σ} {expansion : Expansion}
    (fits : room + position.depth = engine.config.maxDepth + 1) (plain : element.Plain)
    (kept : Standard.lax.WellKept before.world.ambient before.store)
    (run : engine.memoizedAt room position element before = .ok expansion after)
    (defined : expansion.Defined) :
    engine.Settled after.store True room position element expansion := by
  induction room generalizing position element before expansion after with
  | zero => exact nomatch run
  | succ room induction =>
      have narrow : 0 + element.children.length ≤ UInt32.size := by
        cases element
        have fewer := plain.1
        omega
      have child_fits : room + (position.depth + 1) = engine.config.maxDepth + 1 := by omega
      have each {start last : Pass σ} {children : List Expansion}
          (start_kept : Standard.lax.WellKept start.world.ambient start.store)
          (children_run : element.children.zipIdx.mapM (fun entry =>
            engine.memoizedAt room (position.child entry.2) entry.1) start = .ok children last)
          (children_defined : ∀ child ∈ children, child.Defined) :=
        memoizedEach_settles (fun index element before expansion after plain kept run defined =>
          induction (by rw [Position.depth_child]; exact child_fits) plain kept run defined)
          child_fits narrow (fun child member => plain.child member) start_kept children_run
          children_defined
      rw [memoizedAt] at run
      rw [Settled]
      cases kind : element.kind with
      | primitive builtIn =>
          rw [kind] at run
          obtain ⟨children, last, children_run, run⟩ := bind_eq_ok.mp run
          obtain ⟨rfl, rfl⟩ := EStateM.Result.ok.inj run
          exact ⟨children, rfl, (each kept children_run defined.children).1⟩
      | custom type =>
          rw [kind] at run
          obtain ⟨data, middle, data_run, run⟩ := bind_eq_ok.mp run
          have data_settled := memoizedData_settles plain.observeInputs_beq kept.observations.filed
            data_run
          have data_runs : Standard.lax.keeping.Runs before _
              (engine.memoizedData position type element before) :=
            memoizedData_runs engine.upholds_lax kept trivial
          rw [data_run] at data_runs
          obtain ⟨middle_kept, -, -⟩ := data_runs.of_ok
          cases present : (engine.vocabulary type).describe with
          | none =>
              rw [present] at run
              obtain ⟨children, last, children_run, run⟩ := bind_eq_ok.mp run
              obtain ⟨rfl, rfl⟩ := EStateM.Result.ok.inj run
              obtain ⟨children_settled, changes⟩ :=
                each middle_kept children_run defined.children
              have apart (lower : Position) (here : lower = position) :
                  ¬ position.BelowChildren 0 (0 + element.children.length) lower :=
                here ▸ Position.not_belowChildren_root position _ _
              refine ⟨data, data_settled.transfer (changes.transfers True apart).observations rfl, ?_⟩
              rw [present]
              exact ⟨children, rfl, children_settled⟩
          | some describe =>
              rw [present] at run
              have expands (output : Element) (start : Pass σ) (body : Expansion) (last : Pass σ)
                  (start_kept : Standard.lax.WellKept start.world.ambient start.store)
                  (body_run : engine.memoizedAt room position.expansion output start =
                    .ok body last) :=
                memoizedAt_changes (by rw [Position.depth_expansion]; exact child_fits) start_kept
                  body_run
              have same (body : Expansion) (expansion_eq : expansion = .described element data body) :
                  (DescribeInputs.ofElement element data ==
                    DescribeInputs.ofElement element data) = true :=
                Element.Plain.describeInputs_beq plain (expansion_eq ▸ defined).2.1
              obtain ⟨answers, changes⟩ := recallExpansion_settles expands middle_kept same run
              have apart (lower : Position) (here : lower = position) :
                  ¬ position.expansion.Below lower :=
                here ▸ Position.not_startsWith_expansion position
              refine ⟨data, data_settled.transfer (changes.transfers apart) rfl, ?_⟩
              rw [present]
              exact answers

end Engine

end Phrasing
