import Phrasing.Proofs.Expansion.Standards

/-!
# What an expansion leaves in a store

An expansion that succeeds delivers nodes: they meet the standard and are backed by entries that
outlive a sweep.  The store accounts for these nodes when whatever is new in it was made for one of
them, and whatever is kept as a whole lies below one of them that was taken from the store.
-/

namespace Phrasing

open Memo

/-- A node is at a position in one of several expansions, which are the children of a root from an
index on. -/
def Expansion.LocatedAmong (root : Position) (start : Nat) (expansions : List Expansion)
    (position : Position) (node : Expansion) : Prop :=
  ∃ (index : Nat) (expansion : Expansion), expansions[index]? = some expansion ∧
    expansion.Located (root.child (start + index)) position node

/-- No node of the expansion has more children than there are indices. -/
inductive Expansion.Narrow : Expansion → Prop
  | structural {element : Element} {data : Option Value} {children : List Expansion}
      (fits : children.length ≤ UInt32.size) (each : ∀ child ∈ children, Narrow child) :
      Narrow (.structural element data children)
  | described {element : Element} {data : Option Value} {body : Expansion} (narrow : Narrow body) :
      Narrow (.described element data body)

/-- A position is kept as a whole because a node above it was taken from a store. -/
def Store.Reuses (store : Store) (nodes : Position → Expansion → Prop) (kept : Position) : Prop :=
  ∃ position entry, store.expansions.entryAt position = some entry ∧ nodes position entry.output ∧
    kept = position.expansion

/-- A store accounts for some nodes: it holds what an earlier store held and what was made for them. -/
structure Store.Accounts (nodes : Position → Expansion → Prop) (before after : Store) : Prop where
  /-- Expansions are old ones or those of the nodes. -/
  expansions {position : Position} {entry : Entry DescribeInputs Expansion} :
    after.expansions.entryAt position = some entry →
    before.expansions.entryAt position = some entry ∨ nodes position entry.output
  /-- Observations are old ones or those of the nodes. -/
  observations {position : Position} {entry : Entry ObserveInputs Value} :
    after.observations.entryAt position = some entry →
    before.observations.entryAt position = some entry ∨
      ∃ node, nodes position node ∧ node.data.isSome = true
  /-- Below these positions all expansions are kept. -/
  expansionRoots {kept : Position} : kept ∈ after.expansions.liveRoots →
    kept ∈ before.expansions.liveRoots ∨ before.Reuses nodes kept
  /-- Below these positions all observations are kept. -/
  observationRoots {kept : Position} : kept ∈ after.observations.liveRoots →
    kept ∈ before.observations.liveRoots ∨ before.Reuses nodes kept

namespace Expansion

variable {root position : Position} {start : Nat} {expansion node : Expansion}
  {expansions : List Expansion}

theorem LocatedAmong.belowChildren (located : LocatedAmong root start expansions position node) :
    root.BelowChildren start (start + expansions.length) position := by
  obtain ⟨index, expansion, present, located⟩ := located
  have index_lt : index < expansions.length := (List.getElem?_eq_some_iff.mp present).1
  exact ⟨start + index, by omega, by omega, located.startsWith⟩

theorem locatedAmong_cons :
    LocatedAmong root start (expansion :: expansions) position node ↔
      expansion.Located (root.child start) position node ∨
        LocatedAmong root (start + 1) expansions position node := by
  have index_eq (index : Nat) : start + (index + 1) = start + 1 + index := by omega
  constructor
  · rintro ⟨_ | index, present, present_eq, located⟩
    · obtain rfl := Option.some.inj present_eq
      exact .inl located
    · exact .inr ⟨index, present, present_eq, index_eq index ▸ located⟩
  · rintro (located | ⟨index, present, present_eq, located⟩)
    · exact ⟨0, expansion, rfl, located⟩
    · exact ⟨index + 1, present, present_eq, (index_eq index).symm ▸ located⟩

theorem located_structural {element : Element} {data : Option Value} :
    (structural element data expansions).Located root position node ↔
      (position = root ∧ node = structural element data expansions) ∨
        LocatedAmong root 0 expansions position node := by
  constructor
  · intro located
    cases located with
    | here => exact .inl ⟨rfl, rfl⟩
    | @child _ _ _ _ _ index child _ present located =>
        exact .inr ⟨index, child, present, (Nat.zero_add index).symm ▸ located⟩
  · rintro (⟨rfl, rfl⟩ | ⟨index, child, present, located⟩)
    · exact .here
    · exact .child present (Nat.zero_add index ▸ located)

theorem located_described {element : Element} {data : Option Value} :
    (described element data expansion).Located root position node ↔
      (position = root ∧ node = described element data expansion) ∨
        expansion.Located root.expansion position node := by
  constructor
  · intro located
    cases located with
    | here => exact .inl ⟨rfl, rfl⟩
    | body located => exact .inr located
  · rintro (⟨rfl, rfl⟩ | located)
    · exact .here
    · exact .body located

theorem narrow_structural {element : Element} {data : Option Value} :
    (structural element data expansions).Narrow ↔
      expansions.length ≤ UInt32.size ∧ ∀ expansion ∈ expansions, expansion.Narrow := by
  constructor
  · intro narrow
    cases narrow with
    | structural fits each => exact ⟨fits, each⟩
  · rintro ⟨fits, each⟩
    exact .structural fits each

theorem narrow_described {element : Element} {data : Option Value} :
    (described element data expansion).Narrow ↔ expansion.Narrow := by
  constructor
  · intro narrow
    cases narrow with
    | described narrow => exact narrow
  · exact .described

end Expansion

namespace Store

variable {nodes other : Position → Expansion → Prop} {before middle after store : Store}

theorem Reuses.mono {kept : Position} (reuses : before.Reuses nodes kept)
    (includes : ∀ position node, nodes position node → other position node) :
    before.Reuses other kept :=
  let ⟨position, entry, found, reused, kept_eq⟩ := reuses
  ⟨position, entry, found, includes _ _ reused, kept_eq⟩

theorem Accounts.mono (accounts : Accounts nodes before after)
    (includes : ∀ position node, nodes position node → other position node) :
    Accounts other before after where
  expansions found := (accounts.expansions found).imp_right (includes _ _)
  observations found := (accounts.observations found).imp_right fun ⟨node, made, present⟩ =>
    ⟨node, includes _ _ made, present⟩
  expansionRoots member := (accounts.expansionRoots member).imp_right (·.mono includes)
  observationRoots member := (accounts.observationRoots member).imp_right (·.mono includes)

/-- Accounts add up where the expansions of later nodes are not touched before. -/
theorem Accounts.trans (earlier : Accounts nodes before middle)
    (later : Accounts other middle after)
    (untouched : ∀ position node, other position node →
      middle.expansions.entryAt position = before.expansions.entryAt position) :
    Accounts (fun position node => nodes position node ∨ other position node) before after := by
  have reuses_before {kept : Position} (reuses : middle.Reuses other kept) :
      before.Reuses (fun position node => nodes position node ∨ other position node) kept := by
    obtain ⟨position, entry, found, reused, kept_eq⟩ := reuses
    exact ⟨position, entry, (untouched _ _ reused).symm.trans found, .inr reused, kept_eq⟩
  refine ⟨fun found => ?_, fun found => ?_, fun member => ?_, fun member => ?_⟩
  · rcases later.expansions found with found | made
    · exact (earlier.expansions found).imp_right .inl
    · exact .inr (.inr made)
  · rcases later.observations found with found | ⟨node, made, present⟩
    · exact (earlier.observations found).imp_right fun ⟨node, made, present⟩ =>
        ⟨node, .inl made, present⟩
    · exact .inr ⟨node, .inr made, present⟩
  · rcases later.expansionRoots member with member | reuses
    · exact (earlier.expansionRoots member).imp_right (·.mono fun _ _ => .inl)
    · exact .inr (reuses_before reuses)
  · rcases later.observationRoots member with member | reuses
    · exact (earlier.observationRoots member).imp_right (·.mono fun _ _ => .inl)
    · exact .inr (reuses_before reuses)

theorem Accounts.refl (nodes : Position → Expansion → Prop) (store : Store) :
    Accounts nodes store store :=
  ⟨.inl, .inl, .inl, .inl⟩

theorem Accounts.putExpansion {entry : Entry DescribeInputs Expansion}
    {expansions : Table DescribeInputs Expansion} (puts : store.expansions.Puts entry expansions)
    (made : nodes entry.position entry.output) : Accounts nodes store { store with expansions } where
  expansions {position _} found := by
    rw [puts.entryAt] at found
    split at found
    · next here =>
        obtain rfl := Option.some.inj found
        exact .inr (here ▸ made)
    · exact .inl found
  observations := .inl
  expansionRoots member := .inl (puts.liveRoots ▸ member)
  observationRoots := .inl

theorem Accounts.reuse {root : Position} {entry : Entry DescribeInputs Expansion}
    {expansions : Table DescribeInputs Expansion}
    (found : store.expansions.entryAt root = some entry)
    (puts : store.expansions.Puts { entry with generation := store.expansions.generation }
      expansions)
    (made : nodes root entry.output) :
    Accounts nodes store (Store.keepSubtree { store with expansions } root.expansion) := by
  have here : entry.position = root := Table.position_of_entryAt found
  have put : Accounts nodes store { store with expansions } := .putExpansion puts (here ▸ made)
  refine ⟨put.expansions, put.observations, fun member => ?_, fun member => ?_⟩
  · rcases List.mem_cons.mp member with rfl | member
    · exact .inr ⟨root, entry, found, made, rfl⟩
    · exact put.expansionRoots member
  · rcases List.mem_cons.mp member with rfl | member
    · exact .inr ⟨root, entry, found, made, rfl⟩
    · exact put.observationRoots member

end Store

namespace Standard

variable {σ : Type}

/-- The data of a node have been come by. -/
structure Obtains (standard : Standard σ) (ambient : σ) (root : Position) (data : Option Value)
    (before after : Store) : Prop where
  /-- They meet the standard. -/
  datum : standard.Datum ambient data
  /-- They are in the store. -/
  holds : data.isSome = true → after.observations.Holds True root
  /-- Expansions are as they were. -/
  expansions (position : Position) :
    after.expansions.entryAt position = before.expansions.entryAt position
  /-- Observations elsewhere are as they were. -/
  observations {position : Position} {entry : Entry ObserveInputs Value} :
    after.observations.entryAt position = some entry →
    before.observations.entryAt position = some entry ∨ position = root ∧ data.isSome = true
  /-- No more expansions are kept as a whole than were. -/
  expansionRoots : after.expansions.liveRoots = before.expansions.liveRoots
  /-- No more observations are kept as a whole than were. -/
  observationRoots : after.observations.liveRoots = before.observations.liveRoots
  /-- Nothing has changed elsewhere. -/
  changes : before.ChangesWithin (· = root) after

/-- Nodes have been expanded within a region; the store accounts for them if nodes are narrow. -/
structure Delivers (standard : Standard σ) (nodes : Position → Expansion → Prop)
    (region : Position → Prop) (narrow : Prop) (ambient : σ) (before after : Store) : Prop where
  /-- The nodes meet the standard. -/
  meets : standard.Meets ambient nodes
  /-- The nodes are backed. -/
  backs {position : Position} {node : Expansion} :
    nodes position node → after.Backs True position node
  /-- Nothing has changed elsewhere. -/
  changes : before.ChangesWithin region after
  /-- The store accounts for the nodes. -/
  accounts : narrow → Store.Accounts nodes before after

variable {standard : Standard σ} {ambient later : σ} {root : Position} {element : Element}
  {data : Option Value} {before middle late after : Store}

theorem meets_cons {start : Nat} {expansion : Expansion} {expansions : List Expansion}
    (first : standard.Meets ambient (expansion.Located (root.child start)))
    (rest : standard.Meets ambient (Expansion.LocatedAmong root (start + 1) expansions)) :
    standard.Meets ambient (Expansion.LocatedAmong root start (expansion :: expansions)) := by
  intro position node located
  rcases Expansion.locatedAmong_cons.mp located with located | located
  · exact first position node located
  · exact rest position node located

theorem meets_structural {expansions : List Expansion}
    (meets_here : standard.Node ambient root element data)
    (children : standard.Meets ambient (Expansion.LocatedAmong root 0 expansions)) :
    standard.Meets ambient (Expansion.Located root (.structural element data expansions)) := by
  intro position node located
  rcases Expansion.located_structural.mp located with ⟨rfl, rfl⟩ | located
  · exact meets_here
  · exact children position node located

theorem meets_described {body : Expansion} (meets_here : standard.Node ambient root element data)
    (meets_body : standard.Meets ambient (body.Located root.expansion)) :
    standard.Meets ambient (Expansion.Located root (.described element data body)) := by
  intro position node located
  rcases Expansion.located_described.mp located with ⟨rfl, rfl⟩ | located
  · exact meets_here
  · exact meets_body position node located

theorem obtains_none (ambient : σ) (root : Position) (store : Store) :
    standard.Obtains ambient root none store store where
  datum := standard.datum_none ambient
  holds present := nomatch present
  expansions _ := rfl
  observations := .inl
  expansionRoots := rfl
  observationRoots := rfl
  changes := .refl _ _

/-- Data that are put into a store have been come by. -/
theorem obtains_put {store : Store} {entry : Entry ObserveInputs Value}
    {observations : Table ObserveInputs Value} (puts : store.observations.Puts entry observations)
    (here : entry.position = root) (current : entry.generation = store.observations.generation)
    (datum : standard.Datum ambient (some entry.output)) :
    standard.Obtains ambient root (some entry.output) store { store with observations } where
  datum := datum
  holds _ := here ▸ puts.holds current
  expansions _ := rfl
  observations {position _} found := by
    rw [puts.entryAt] at found
    split at found
    · next at_entry => exact .inr ⟨at_entry.trans here, rfl⟩
    · exact .inl found
  expansionRoots := rfl
  observationRoots := puts.liveRoots
  changes := ⟨puts.changesWithin here, .refl _ _⟩

theorem Obtains.of_countObservations {store : Store} {stats : Stats}
    (obtains : standard.Obtains ambient root data
      { store with observations := { store.observations with stats } } after) :
    standard.Obtains ambient root data store after where
  datum := obtains.datum
  holds := obtains.holds
  expansions := obtains.expansions
  observations := obtains.observations
  expansionRoots := obtains.expansionRoots
  observationRoots := obtains.observationRoots
  changes := ⟨⟨obtains.changes.observations.entryAt, obtains.changes.observations.place,
    obtains.changes.observations.generation, obtains.changes.observations.liveRoots⟩,
    obtains.changes.expansions⟩

theorem Obtains.countExpansions (obtains : standard.Obtains ambient root data before middle)
    (stats : Stats) :
    standard.Obtains ambient root data before
      { middle with expansions := { middle.expansions with stats } } where
  datum := obtains.datum
  holds := obtains.holds
  expansions := obtains.expansions
  observations := obtains.observations
  expansionRoots := obtains.expansionRoots
  observationRoots := obtains.observationRoots
  changes := ⟨obtains.changes.observations, ⟨obtains.changes.expansions.entryAt,
    obtains.changes.expansions.place, obtains.changes.expansions.generation,
    obtains.changes.expansions.liveRoots⟩⟩

theorem Obtains.accounts {nodes : Position → Expansion → Prop} {node : Expansion}
    (obtains : standard.Obtains ambient root data before middle) (made : nodes root node)
    (data_eq : node.data.isSome = data.isSome) : Store.Accounts nodes before middle where
  expansions found := .inl ((obtains.expansions _).symm.trans found)
  observations found := (obtains.observations found).imp_right fun ⟨here, present⟩ =>
    ⟨node, here ▸ made, data_eq.trans present⟩
  expansionRoots member := .inl (obtains.expansionRoots ▸ member)
  observationRoots member := .inl (obtains.observationRoots ▸ member)

theorem delivers_nil {root : Position} {start : Nat} {narrow : Prop} (ambient : σ) (store : Store) :
    standard.Delivers (Expansion.LocatedAmong root start []) (root.BelowChildren start start) narrow
      ambient store store where
  meets := fun _ _ ⟨_, _, present, _⟩ => nomatch present
  backs := fun ⟨_, _, present, _⟩ => nomatch present
  changes := .refl _ _
  accounts _ := .refl _ _

theorem Delivers.cons {start : Nat} {expansion : Expansion} {expansions : List Expansion}
    (first : standard.Delivers (expansion.Located (root.child start)) (root.child start).Below
      expansion.Narrow ambient before middle)
    (grows : standard.Grows ambient later) (retains : middle.Retains after)
    (rest : standard.Delivers (Expansion.LocatedAmong root (start + 1) expansions)
      (root.BelowChildren (start + 1) (start + 1 + expansions.length))
      (start + 1 + expansions.length ≤ UInt32.size ∧ ∀ other ∈ expansions, other.Narrow)
      later middle after) :
    standard.Delivers (Expansion.LocatedAmong root start (expansion :: expansions))
      (root.BelowChildren start (start + (expansion :: expansions).length))
      (start + (expansion :: expansions).length ≤ UInt32.size ∧
        ∀ other ∈ expansion :: expansions, other.Narrow) later before after where
  meets := meets_cons (first.meets.grow grows) rest.meets
  backs located := by
    rcases Expansion.locatedAmong_cons.mp located with located | located
    · exact (first.backs located).retain retains
    · exact rest.backs located
  changes := by
    rw [List.length_cons]
    refine (first.changes.widen ?_).trans (rest.changes.widen ?_)
    · intro position below
      exact ⟨start, Nat.le_refl start, by omega, below⟩
    · rintro position ⟨index, start_le, index_lt, below⟩
      exact ⟨index, by omega, by omega, below⟩
  accounts := by
    rintro ⟨fits, narrow⟩
    rw [List.length_cons] at fits
    have rest_fits : start + 1 + expansions.length ≤ UInt32.size := by omega
    have first_accounts := first.accounts (narrow expansion List.mem_cons_self)
    have rest_accounts := rest.accounts
      ⟨rest_fits, fun other member => narrow other (List.mem_cons_of_mem expansion member)⟩
    refine (first_accounts.trans rest_accounts ?_).mono fun _ _ => Expansion.locatedAmong_cons.mpr
    intro position node located
    refine first.changes.expansions.entryAt fun inside => ?_
    exact Position.not_belowChildren (Nat.lt_succ_self start) rest_fits inside located.belowChildren

/-- A node whose children are expanded in place is delivered with them. -/
theorem Delivers.structural {expansions : List Expansion}
    (obtains : standard.Obtains ambient root data before middle) (retains : middle.Retains after)
    (meets_here : standard.Node later root element data)
    (children : standard.Delivers (Expansion.LocatedAmong root 0 expansions)
      (root.BelowChildren 0 (0 + expansions.length))
      (0 + expansions.length ≤ UInt32.size ∧ ∀ expansion ∈ expansions, expansion.Narrow)
      later middle after) :
    standard.Delivers (Expansion.Located root (.structural element data expansions)) root.Below
      (Expansion.structural element data expansions).Narrow later before after where
  meets := meets_structural meets_here children.meets
  backs located := by
    rcases Expansion.located_structural.mp located with ⟨rfl, rfl⟩ | located
    · exact ⟨fun described => (nomatch described),
        fun present => retains.observations.holds (obtains.holds present)⟩
    · exact children.backs located
  changes := by
    refine (obtains.changes.widen fun _ => Position.below_of_eq).trans (children.changes.widen ?_)
    rintro position ⟨index, -, -, below⟩
    exact Position.startsWith_trans below (Position.child_startsWith root index)
  accounts narrow := by
    obtain ⟨fits, each⟩ := Expansion.narrow_structural.mp narrow
    have children_accounts := children.accounts ⟨(Nat.zero_add _).symm ▸ fits, each⟩
    have here : Expansion.Located root (.structural element data expansions) root
      (.structural element data expansions) := .here
    refine ((obtains.accounts here rfl).trans children_accounts fun position _ _ =>
      obtains.expansions position).mono ?_
    rintro position node (located | located)
    · exact located
    · exact Expansion.located_structural.mpr (.inr located)

/-- A described node is delivered with its body, once its expansion is stored. -/
theorem Delivers.described {body : Expansion} {entry : Entry DescribeInputs Expansion}
    {expansions : Table DescribeInputs Expansion}
    (obtains : standard.Obtains ambient root data before middle) (retains : middle.Retains late)
    (meets_here : standard.Node later root element data)
    (delivers : standard.Delivers (body.Located root.expansion) root.expansion.Below body.Narrow
      later middle late)
    (puts : late.expansions.Puts entry expansions)
    (current : entry.generation = late.expansions.generation) (here : entry.position = root)
    (output_eq : entry.output = .described element data body) :
    standard.Delivers (Expansion.Located root (.described element data body)) root.Below
      (Expansion.described element data body).Narrow later before { late with expansions } where
  meets := meets_described meets_here delivers.meets
  backs located := by
    have retains_put := Store.retains_putExpansion puts current
    rcases Expansion.located_described.mp located with ⟨rfl, rfl⟩ | located
    · exact ⟨fun _ => here ▸ puts.holds current, fun present =>
        (retains.trans retains_put).observations.holds (obtains.holds present)⟩
    · exact (delivers.backs located).retain retains_put
  changes := by
    refine ((obtains.changes.widen fun _ => Position.below_of_eq).trans
      (delivers.changes.widen ?_)).trans ⟨.refl _ _, puts.changesWithin (Position.below_of_eq here)⟩
    intro position inside
    exact Position.startsWith_trans inside (Position.expansion_startsWith root)
  accounts narrow := by
    have body_accounts := delivers.accounts (Expansion.narrow_described.mp narrow)
    have located_here : Expansion.Located root (.described element data body) root
      (.described element data body) := .here
    have put_accounts : Store.Accounts (fun position node => position = root ∧
        node = .described element data body) late { late with expansions } :=
      .putExpansion puts ⟨here, output_eq⟩
    have opening := (obtains.accounts located_here rfl).trans body_accounts fun position _ _ =>
      obtains.expansions position
    refine (opening.trans put_accounts ?_).mono ?_
    · rintro _ _ ⟨rfl, -⟩
      exact (delivers.changes.expansions.entryAt (Position.not_startsWith_expansion _)).trans
        (obtains.expansions _)
    · rintro position node ((located | located) | ⟨rfl, rfl⟩)
      · exact located
      · exact .body located
      · exact .here

/-- A stored expansion is delivered as a whole when it is reused. -/
theorem Delivers.reuse {narrow : Prop} {entry : Entry DescribeInputs Expansion}
    {expansions : Table DescribeInputs Expansion}
    (obtains : standard.Obtains ambient root data before middle)
    (kept : standard.WellKept ambient middle)
    (found : middle.expansions.entryAt root = some entry)
    (puts : middle.expansions.Puts { entry with generation := middle.expansions.generation }
      expansions)
    (data_eq : entry.output.data.isSome = data.isSome) :
    standard.Delivers (entry.output.Located root) root.Below narrow ambient before
      (Store.keepSubtree { middle with expansions } root.expansion) where
  meets := by
    rw [← Table.position_of_entryAt found]
    exact (kept.expansions.proper found).meets
  backs located :=
    kept.backs_reused found puts (fun present => obtains.holds (data_eq.symm.trans present)) located
  changes := by
    have here : entry.position = root := Table.position_of_entryAt found
    have put : middle.ChangesWithin root.Below { middle with expansions } :=
      ⟨.refl _ _, puts.changesWithin (Position.below_of_eq here)⟩
    exact ((obtains.changes.widen fun _ => Position.below_of_eq).trans put).trans
      (Store.keepSubtree_changesWithin _ _ _)
  accounts _ := by
    have located_here : entry.output.Located root root entry.output := .here
    refine ((obtains.accounts located_here data_eq).trans (.reuse found puts located_here)
      fun position _ _ => obtains.expansions position).mono ?_
    rintro position node (located | located)
    · exact located
    · exact located

end Standard

end Phrasing
