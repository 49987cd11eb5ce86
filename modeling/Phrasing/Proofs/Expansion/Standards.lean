import Phrasing.Proofs.Expansion.Coverage

/-!
# Well-kept stores

A standard asks something of the elements that are expanded, of data, and of the nodes of
expansions.  A store is well kept when what it holds meets the standard, and when below every stored
expansion there is an entry for each of its nodes that had one.  Well-kept stores stay well kept
under every operation of a compilation, whatever callbacks compute.
-/

namespace Phrasing

open Memo

/-- What is asked of the data that expansions are made of, in every state of the callbacks. -/
structure Standard (σ : Type) where
  /-- How a later state is related to an earlier one. -/
  Grows : σ → σ → Prop
  /-- What is asked of an element that is expanded. -/
  Input : σ → Element → Prop
  /-- What is asked of the data of a node. -/
  Datum : σ → Option Value → Prop
  /-- What is asked of a node of an expansion. -/
  Node : σ → Position → Element → Option Value → Prop
  /-- A state grows into itself. -/
  refl (ambient : σ) : Grows ambient ambient
  /-- Growing goes from state to state. -/
  trans {first second third : σ} : Grows first second → Grows second third → Grows first third
  /-- An element goes on meeting the standard. -/
  input_grow {before after : σ} {element : Element} :
    Grows before after → Input before element → Input after element
  /-- Data go on meeting the standard. -/
  datum_grow {before after : σ} {data : Option Value} :
    Grows before after → Datum before data → Datum after data
  /-- A node goes on meeting the standard. -/
  node_grow {before after : σ} {position : Position} {element : Element} {data : Option Value} :
    Grows before after → Node before position element data → Node after position element data
  /-- The children of an element meet the standard. -/
  child {ambient : σ} {element child : Element} :
    Input ambient element → child ∈ element.children → Input ambient child
  /-- Missing data meet the standard. -/
  datum_none (ambient : σ) : Datum ambient none

variable {σ : Type}

/-- The standard that asks something of nodes at positions, whatever the state. -/
def Standard.steady (node : Position → Element → Option Value → Prop) : Standard σ where
  Grows _ _ := True
  Input _ _ := True
  Datum _ _ := True
  Node _ := node
  refl _ := trivial
  trans _ _ := trivial
  input_grow _ _ := trivial
  datum_grow _ _ := trivial
  node_grow _ meets := meets
  child _ _ := trivial
  datum_none _ := trivial

/-- The standard that everything is listed in a census. -/
def Census.standard (census : Census σ) : Standard σ where
  Grows := census.Grows
  Input := census.Knows
  Datum := census.Knows
  Node ambient _ element data := census.Knows ambient element ∧ census.Knows ambient data
  refl := .refl census
  trans := .trans
  input_grow grows knows := knows.grow grows
  datum_grow grows knows := knows.grow grows
  node_grow grows knows := ⟨knows.1.grow grows, knows.2.grow grows⟩
  child knows member := knows.child member
  datum_none _ := Census.knows_none

/-- The store has the entries that were made for a node. -/
structure Store.Backs (store : Store) (live : Prop) (position : Position) (node : Expansion) :
    Prop where
  /-- There is an expansion for a described node. -/
  described : node.description?.isSome = true → store.expansions.Holds live position
  /-- There is an observation for a node with data. -/
  observed : node.data.isSome = true → store.observations.Holds live position

/-- Both tables of a store retain what they held, and what is remembered by content has not changed. -/
structure Store.Retains (before after : Store) : Prop where
  /-- The observations do. -/
  observations : before.observations.Retains after.observations
  /-- The expansions do. -/
  expansions : before.expansions.Retains after.expansions
  /-- The same is remembered by content. -/
  adHoc_eq : after.adHoc = before.adHoc

namespace Store

variable {before middle after : Store} {live other : Prop} {position : Position} {node : Expansion}

theorem Retains.refl (store : Store) : store.Retains store :=
  ⟨.refl _, .refl _, rfl⟩

theorem Retains.trans (earlier : before.Retains middle) (later : middle.Retains after) :
    before.Retains after :=
  ⟨earlier.observations.trans later.observations, earlier.expansions.trans later.expansions,
    later.adHoc_eq.trans earlier.adHoc_eq⟩

theorem retains_countObservations (store : Store) (stats : Stats) :
    store.Retains { store with observations := { store.observations with stats } } :=
  ⟨Table.retains_count _ stats, .refl _, rfl⟩

theorem retains_countExpansions (store : Store) (stats : Stats) :
    store.Retains { store with expansions := { store.expansions with stats } } :=
  ⟨.refl _, Table.retains_count _ stats, rfl⟩

theorem retains_putObservation {store : Store} {entry : Entry ObserveInputs Value}
    {observations : Table ObserveInputs Value} (puts : store.observations.Puts entry observations)
    (current : entry.generation = store.observations.generation) :
    store.Retains { store with observations } :=
  ⟨puts.retains current, .refl _, rfl⟩

theorem retains_putExpansion {store : Store} {entry : Entry DescribeInputs Expansion}
    {expansions : Table DescribeInputs Expansion} (puts : store.expansions.Puts entry expansions)
    (current : entry.generation = store.expansions.generation) :
    store.Retains { store with expansions } :=
  ⟨.refl _, puts.retains current, rfl⟩

theorem retains_keepSubtree (store : Store) (root : Position) :
    store.Retains (store.keepSubtree root) :=
  ⟨Table.retains_keepSubtree _ root, Table.retains_keepSubtree _ root, rfl⟩

theorem Backs.retain (backs : before.Backs live position node) (retains : before.Retains after) :
    after.Backs live position node :=
  ⟨fun present => retains.expansions.holds (backs.described present),
    fun present => retains.observations.holds (backs.observed present)⟩

theorem Backs.weaken (backs : before.Backs live position node) (implies : other → live) :
    before.Backs other position node :=
  ⟨fun present => (backs.described present).weaken implies,
    fun present => (backs.observed present).weaken implies⟩

theorem Backs.keepSubtree {root : Position} (backs : before.Backs live position node)
    (implies : other → live ∨ position.startsWith root = true) :
    (before.keepSubtree root).Backs other position node :=
  ⟨fun present => (backs.described present).keepSubtree implies,
    fun present => (backs.observed present).keepSubtree implies⟩

end Store

namespace Standard

/-- Nodes at positions meet the standard. -/
def Meets (standard : Standard σ) (ambient : σ) (nodes : Position → Expansion → Prop) : Prop :=
  ∀ position node, nodes position node → standard.Node ambient position node.element node.data

theorem Meets.grow {standard : Standard σ} {before after : σ} {nodes : Position → Expansion → Prop}
    (meets : standard.Meets before nodes) (grows : standard.Grows before after) :
    standard.Meets after nodes :=
  fun position node located => standard.node_grow grows (meets position node located)

/-- A stored observation is that of data that meet the standard. -/
def ProperObservation (standard : Standard σ) (ambient : σ) (entry : Entry ObserveInputs Value) :
    Prop :=
  standard.Datum ambient (some entry.output)

/-- A stored expansion is that of a described node with its data, and its nodes meet the standard. -/
structure ProperExpansion (standard : Standard σ) (ambient : σ)
    (entry : Entry DescribeInputs Expansion) : Prop where
  /-- It is the expansion of a described node, with the data it was described with. -/
  output_eq : ∃ element body, entry.output = .described element entry.inputs.data body
  /-- Its nodes meet the standard. -/
  meets : standard.Meets ambient (entry.output.Located entry.position)

/-- A store holds what meets the standard, and the nodes of what it holds are backed. -/
structure WellKept (standard : Standard σ) (ambient : σ) (store : Store) : Prop where
  /-- The observations are consistent. -/
  observations : store.observations.Consistent (standard.ProperObservation ambient)
  /-- The expansions are consistent. -/
  expansions : store.expansions.Consistent (standard.ProperExpansion ambient)
  /-- A stored expansion is backed, by entries that outlive a sweep if it does so itself. -/
  backs {root position : Position} {entry : Entry DescribeInputs Expansion} {node : Expansion} :
    store.expansions.entryAt root = some entry → entry.output.Located root position node →
    store.Backs (store.expansions.isLive entry = true) position node

variable {standard : Standard σ} {ambient later : σ} {store : Store}

theorem wellKept_empty (ambient : σ) : standard.WellKept ambient .empty where
  observations := Table.consistent_empty _
  expansions := Table.consistent_empty _
  backs found := nomatch found

theorem wellKept_clear (ambient : σ) (store : Store) : standard.WellKept ambient store.clear where
  observations := ⟨Table.filed_clear _, nofun, nofun⟩
  expansions := ⟨Table.filed_clear _, nofun, nofun⟩
  backs found := nomatch found

/-- What is remembered by content does not matter. -/
theorem WellKept.of_tables (kept : standard.WellKept ambient store) {other : Store}
    (observations_eq : other.observations = store.observations)
    (expansions_eq : other.expansions = store.expansions) : standard.WellKept ambient other := by
  obtain ⟨observations, expansions, _, _, _⟩ := other
  subst observations_eq expansions_eq
  exact ⟨kept.observations, kept.expansions, fun found located =>
    ⟨(kept.backs found located).described, (kept.backs found located).observed⟩⟩

theorem WellKept.grow (kept : standard.WellKept ambient store)
    (grows : standard.Grows ambient later) : standard.WellKept later store where
  observations := kept.observations.imp fun _ proper => standard.datum_grow grows proper
  expansions := kept.expansions.imp fun _ proper =>
    ⟨proper.output_eq, proper.meets.grow grows⟩
  backs := kept.backs

theorem WellKept.begin (kept : standard.WellKept ambient store) :
    standard.WellKept ambient store.begin where
  observations := kept.observations.begin
  expansions := kept.expansions.begin
  backs {_ _ entry _} found located := by
    have dead : ¬ store.begin.expansions.isLive entry = true :=
      Table.not_isLive_begin (kept.expansions.generation_le found)
    have backs := kept.backs found located
    exact ⟨fun present => (backs.described present).begin.weaken dead,
      fun present => (backs.observed present).begin.weaken dead⟩

theorem WellKept.sweep (kept : standard.WellKept ambient store) :
    standard.WellKept ambient store.sweep.2 where
  observations := kept.observations.sweep
  expansions := kept.expansions.sweep
  backs {root _ entry _} found located := by
    have present : (store.expansions.entryAt root).filter store.expansions.isLive = some entry :=
      (kept.expansions.filed.entryAt_sweep root).symm.trans found
    obtain ⟨found_before, isLive⟩ := Option.filter_eq_some_iff.mp present
    have backs := kept.backs found_before located
    exact ⟨fun present => (backs.described present).sweep kept.expansions.filed isLive,
      fun present => (backs.observed present).sweep kept.observations.filed isLive⟩

theorem WellKept.countObservations (kept : standard.WellKept ambient store) (stats : Stats) :
    standard.WellKept ambient { store with observations := { store.observations with stats } } where
  observations := kept.observations.count stats
  expansions := kept.expansions
  backs found located :=
    (kept.backs found located).retain (Store.retains_countObservations store stats)

theorem WellKept.countExpansions (kept : standard.WellKept ambient store) (stats : Stats) :
    standard.WellKept ambient { store with expansions := { store.expansions with stats } } where
  observations := kept.observations
  expansions := kept.expansions.count stats
  backs found located :=
    (kept.backs found located).retain (Store.retains_countExpansions store stats)

theorem WellKept.putObservation (kept : standard.WellKept ambient store)
    {entry : Entry ObserveInputs Value} {observations : Table ObserveInputs Value}
    (puts : store.observations.Puts entry observations)
    (current : entry.generation = store.observations.generation)
    (datum : standard.Datum ambient (some entry.output)) :
    standard.WellKept ambient { store with observations } where
  observations := kept.observations.put puts datum current
  expansions := kept.expansions
  backs found located := (kept.backs found located).retain (Store.retains_putObservation puts current)

theorem WellKept.putExpansion (kept : standard.WellKept ambient store)
    {entry : Entry DescribeInputs Expansion} {expansions : Table DescribeInputs Expansion}
    (puts : store.expansions.Puts entry expansions)
    (current : entry.generation = store.expansions.generation)
    (proper : standard.ProperExpansion ambient entry)
    (backs : ∀ position node, entry.output.Located entry.position position node →
      Store.Backs { store with expansions } True position node) :
    standard.WellKept ambient { store with expansions } where
  observations := kept.observations
  expansions := kept.expansions.put puts proper current
  backs {root position present node} found located := by
    rw [puts.entryAt] at found
    split at found
    · next here =>
        obtain rfl := Option.some.inj found
        exact (backs position node (here ▸ located)).weaken fun _ => trivial
    · have retained := (kept.backs found located).retain (Store.retains_putExpansion puts current)
      exact retained.weaken fun isLive => puts.isLive_eq ▸ isLive

/-- What backs a stored expansion outlives a sweep once the expansion is reused as a whole. -/
theorem WellKept.backs_reused (kept : standard.WellKept ambient store) {root position : Position}
    {entry : Entry DescribeInputs Expansion} {expansions : Table DescribeInputs Expansion}
    {node : Expansion} (found : store.expansions.entryAt root = some entry)
    (puts : store.expansions.Puts { entry with generation := store.expansions.generation }
      expansions)
    (observed : entry.output.data.isSome = true → store.observations.Holds True root)
    (located : entry.output.Located root position node) :
    (Store.keepSubtree { store with expansions } root.expansion).Backs True position node := by
  have here : entry.position = root := Table.position_of_entryAt found
  have retained := (kept.backs found located).retain (Store.retains_putExpansion puts rfl)
  obtain ⟨element, body, output_eq⟩ := (kept.expansions.proper found).output_eq
  rw [output_eq] at located observed
  cases located with
  | here =>
      have holds : expansions.Holds True root := here ▸ puts.holds rfl
      exact ⟨fun _ => holds.keepSubtree .inl, fun present => (observed present).keepSubtree .inl⟩
  | body located => exact retained.keepSubtree fun _ => .inr located.startsWith

/-- Reusing a stored expansion as a whole leaves a store well kept. -/
theorem WellKept.reuse (kept : standard.WellKept ambient store) {root : Position}
    {entry : Entry DescribeInputs Expansion} {expansions : Table DescribeInputs Expansion}
    (found : store.expansions.entryAt root = some entry)
    (puts : store.expansions.Puts { entry with generation := store.expansions.generation }
      expansions)
    (observed : entry.output.data.isSome = true → store.observations.Holds True root) :
    standard.WellKept ambient (Store.keepSubtree { store with expansions } root.expansion) where
  observations := kept.observations.keepSubtree _
  expansions := by
    have proper := kept.expansions.proper found
    exact (kept.expansions.put puts ⟨proper.output_eq, proper.meets⟩ rfl).keepSubtree _
  backs {upper position present node} present_eq located := by
    have entry_here : entry.position = root := Table.position_of_entryAt found
    have changed := (puts.entryAt upper).symm.trans present_eq
    split at changed
    · next here =>
        obtain rfl := Option.some.inj changed
        obtain rfl : upper = root := here.trans entry_here
        exact (kept.backs_reused found puts observed located).weaken fun _ => trivial
    · have retained := (kept.backs changed located).retain (Store.retains_putExpansion puts rfl)
      refine retained.keepSubtree fun isLive => ?_
      refine (Table.isLive_keepSubtree.mp isLive).imp (fun isLive => puts.isLive_eq ▸ isLive) ?_
      rw [Table.position_of_entryAt changed]
      exact Position.startsWith_trans located.startsWith

end Standard

end Phrasing
