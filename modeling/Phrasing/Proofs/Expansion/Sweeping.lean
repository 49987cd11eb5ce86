import Phrasing.Proofs.Expansion.Closure

/-!
# What a sweep leaves

After a compilation that sweeps, an entry of the store belongs to a node of what the compilation gave,
or it was left over below a node that was taken from the store as a whole.  Nothing is left over when
the compilations before swept and succeeded as well.
-/

namespace Phrasing

open Memo Relation

namespace Expansion

variable {root upper position : Position} {expansion middle node : Expansion}

/-- In a narrow expansion, what lies below the position of a node is located in that node. -/
theorem Located.within (narrow : expansion.Narrow) (above : expansion.Located root upper middle)
    (located : expansion.Located root position node) (below : position.startsWith upper = true) :
    middle.Located upper position node := by
  induction above with
  | here => exact located
  | @child root upper element data children index child middle present above induction =>
      obtain ⟨fits, each⟩ := narrow_structural.mp narrow
      have below_child := Position.startsWith_trans below above.startsWith
      cases located with
      | here => exact absurd below_child (Position.not_startsWith_child _ index)
      | @child _ _ _ _ _ other_index other _ other_present located =>
          have index_lt := (List.getElem?_eq_some_iff.mp present).1
          have other_lt := (List.getElem?_eq_some_iff.mp other_present).1
          obtain rfl := Position.index_eq_of_startsWith (by omega) (by omega) below_child
            located.startsWith
          obtain rfl := Option.some.inj (present.symm.trans other_present)
          exact induction (each child (List.mem_of_getElem? present)) located below
  | @body root upper element data body middle above induction =>
      have below_body := Position.startsWith_trans below above.startsWith
      cases located with
      | here => exact absurd below_body (Position.not_startsWith_expansion _)
      | body located => exact induction (narrow_described.mp narrow) located below

end Expansion

/-- The node is of a declared type and has data. -/
def Expansion.HasData (node : Expansion) : Prop :=
  (∃ type, node.element.kind = .custom type) ∧ node.data.isSome = true

/-- Every entry of a store belongs to a node: a stored expansion is that of a described node, and an
observation is at a node of a declared type that has data. -/
structure Store.Mirrors (store : Store) (nodes : Position → Expansion → Prop) : Prop where
  /-- Stored expansions are nodes. -/
  expansions {entry : Entry DescribeInputs Expansion} : entry ∈ store.expansions.stored →
    nodes entry.position entry.output ∧ entry.output.description?.isSome = true
  /-- Observations are at nodes with data. -/
  observations {entry : Entry ObserveInputs Value} : entry ∈ store.observations.stored →
    ∃ node, nodes entry.position node ∧ node.HasData

/-- A position lies below the description of a node of the expansion that is in the store. -/
def Store.Shelters (store : Store) (expansion : Expansion) (position : Position) : Prop :=
  ∃ entry ∈ store.expansions.stored, expansion.Located .root entry.position entry.output ∧
    position.startsWith entry.position.expansion = true

/-- Every entry of a later store belongs to a node of an expansion, or it was there before, where the
expansion shelters it. -/
structure Store.Leaves (before after : Store) (expansion : Expansion) : Prop where
  /-- Stored expansions are nodes or were left over. -/
  expansions {entry : Entry DescribeInputs Expansion} : entry ∈ after.expansions.stored →
    (expansion.Located .root entry.position entry.output ∧
        entry.output.description?.isSome = true) ∨
      (entry ∈ before.expansions.stored ∧ before.Shelters expansion entry.position)
  /-- Observations are at nodes with data or were left over. -/
  observations {entry : Entry ObserveInputs Value} : entry ∈ after.observations.stored →
    (∃ node, expansion.Located .root entry.position node ∧ node.HasData) ∨
      (entry ∈ before.observations.stored ∧ before.Shelters expansion entry.position)

/-- A store mirrors nodes that are located in each other as their positions are. -/
def Store.Tidy (store : Store) : Prop :=
  ∃ nodes : Position → Expansion → Prop,
    (∀ upper position middle node, nodes upper middle → nodes position node →
      position.startsWith upper = true → Expansion.Located upper middle position node) ∧
    store.Mirrors nodes

/-- What was left over from a tidy store belongs to a node that was taken from it. -/
theorem Store.Leaves.mirrors {before after : Store} {expansion : Expansion}
    (leaves : before.Leaves after expansion) (tidy : before.Tidy) :
    after.Mirrors (expansion.Located .root) := by
  obtain ⟨nodes, nested, mirrors⟩ := tidy
  have located_of_sheltered {position : Position} {node : Expansion} (present : nodes position node)
      (sheltered : before.Shelters expansion position) : expansion.Located .root position node := by
    obtain ⟨upper, upper_member, located, below⟩ := sheltered
    have upper_present := (mirrors.expansions upper_member).1
    exact located.trans (nested _ _ _ _ upper_present present
      (Position.startsWith_trans below (Position.expansion_startsWith _)))
  refine ⟨fun member => ?_, fun member => ?_⟩
  · rcases leaves.expansions member with found | ⟨old, sheltered⟩
    · exact found
    · obtain ⟨present, described⟩ := mirrors.expansions old
      exact ⟨located_of_sheltered present sheltered, described⟩
  · rcases leaves.observations member with found | ⟨old, sheltered⟩
    · exact found
    · obtain ⟨node, present, has_data⟩ := mirrors.observations old
      exact ⟨node, located_of_sheltered present sheltered, has_data⟩

theorem Store.Tidy.of_stored {before after : Store} (tidy : before.Tidy)
    (expansions_eq : after.expansions.stored = before.expansions.stored)
    (observations_eq : after.observations.stored = before.observations.stored) : after.Tidy := by
  obtain ⟨nodes, nested, mirrors⟩ := tidy
  exact ⟨nodes, nested, fun member => mirrors.expansions (expansions_eq ▸ member),
    fun member => mirrors.observations (observations_eq ▸ member)⟩

theorem Store.tidy_clear (store : Store) : store.clear.Tidy :=
  ⟨fun _ _ => False, fun _ _ _ _ => False.elim, nofun, nofun⟩

/-- The standard that only nodes of declared types have data. -/
def Standard.typed (σ : Type) : Standard σ :=
  .steady fun _ element data => data.isSome = true → ∃ type, element.kind = .custom type

theorem Engine.upholds_typed {σ : Type} (engine : Engine σ) : engine.Upholds (.typed σ) :=
  Engine.upholds_steady fun _ _ _ _ custom => custom

namespace Memo.Table

variable {Input Output : Type} {before after : Table Input Output} {entry : Entry Input Output}

/-- An entry of an earlier generation outlives a sweep only below a position that is kept. -/
theorem kept_of_isLive (earlier : entry.generation ≤ before.generation)
    (begun : after.generation = before.begin.generation) (isLive : after.isLive entry = true) :
    ∃ root ∈ after.liveRoots, entry.position.startsWith root = true := by
  have begin_eq : before.begin.generation = before.generation + 1 := rfl
  rcases isLive_iff.mp isLive with current | kept
  · omega
  · exact kept

end Memo.Table

section Compiling

variable {σ : Type} [Digest] {engine : Engine σ} {root : Element} {world after : World σ}
  {parser : Parser σ}

theorem Engine.compile_leaves (kept : (Standard.typed σ).WellKept world.ambient world.store)
    (remember : engine.config.remember = true) (sweep : engine.config.sweep = true)
    (run : engine.compile root world = .ok parser after) (narrow : parser.root.Narrow) :
    world.store.Leaves after.store parser.root := by
  obtain ⟨pass, expanding, rfl⟩ := of_compile_ok run
  obtain ⟨late, late_kept, gives, after_eq⟩ :=
    expand_gives engine.upholds_typed remember kept.begin trivial expanding
  rw [if_pos sweep] at after_eq
  subst after_eq
  have accounts : Store.Accounts _ world.store.begin late.store := gives.accounts narrow
  have shelters {position lower : Position}
      (reuses : world.store.begin.Reuses (parser.root.Located .root) position)
      (below : lower.startsWith position = true) : world.store.Shelters parser.root lower := by
    obtain ⟨upper, entry, found, located, rfl⟩ := reuses
    have found_before : world.store.expansions.entryAt upper = some entry := found
    obtain rfl := Table.position_of_entryAt found_before
    exact ⟨entry, Table.mem_of_entryAt found_before, located, below⟩
  refine ⟨fun {entry} member => ?_, fun {entry} member => ?_⟩
  · obtain ⟨member, isLive⟩ := List.mem_filter.mp (Table.stored_sweep late.store.expansions ▸ member)
    have found := late_kept.expansions.filed.entryAt_of_mem member
    rcases accounts.expansions found with old | located
    · right
      have old_before : world.store.expansions.entryAt entry.position = some entry := old
      refine ⟨Table.mem_of_entryAt old_before, ?_⟩
      -- The generation has moved on, so the entry is live only below a node taken as a whole.
      obtain ⟨top, top_member, below⟩ := Table.kept_of_isLive
        (kept.expansions.generation_le old_before) gives.changes.expansions.generation isLive
      rcases accounts.expansionRoots top_member with none_before | reuses
      · cases none_before
      · exact shelters reuses below
    · left
      refine ⟨located, ?_⟩
      obtain ⟨element, body, output_eq⟩ := (late_kept.expansions.proper found).output_eq
      rw [output_eq]
      rfl
  · obtain ⟨member, isLive⟩ :=
      List.mem_filter.mp (Table.stored_sweep late.store.observations ▸ member)
    have found := late_kept.observations.filed.entryAt_of_mem member
    rcases accounts.observations found with old | ⟨node, located, present⟩
    · right
      have old_before : world.store.observations.entryAt entry.position = some entry := old
      refine ⟨Table.mem_of_entryAt old_before, ?_⟩
      obtain ⟨top, top_member, below⟩ := Table.kept_of_isLive
        (kept.observations.generation_le old_before) gives.changes.observations.generation isLive
      rcases accounts.observationRoots top_member with none_before | reuses
      · cases none_before
      · exact shelters reuses below
    · left
      exact ⟨node, located, gives.meets _ node located present, present⟩

/-- A compilation that remembers sweeps and succeeds, and what it gives is narrow. -/
def Engine.CompilesTidily (engine : Engine σ) (root : Element) (world : World σ) : Prop :=
  engine.config.remember = true → engine.config.sweep = true ∧
    ∃ parser after, engine.compile root world = .ok parser after ∧ parser.root.Narrow

/-- A compilation that does not remember leaves every entry where it is. -/
theorem Engine.compile_forgetful (fresh : engine.config.remember = false) :
    (finalState (engine.compile root world)).store = world.store.begin := by
  rw [finalState_compile, expand_fresh fresh, Pass.act]
  cases engine.expandFresh root (Pass.opening world).world <;> rfl

theorem Proceeds.tidy (kept : (Standard.typed σ).WellKept world.ambient world.store)
    (proceeds : Proceeds Engine.CompilesTidily world after) (tidy : world.store.Tidy) :
    after.store.Tidy := by
  cases proceeds with
  | elapse ambient => exact tidy
  | compile engine root tidily =>
      by_cases remember : engine.config.remember = true
      · obtain ⟨sweep, parser, after, run, narrow⟩ := tidily remember
        have mirrors := (Engine.compile_leaves kept remember sweep run narrow).mirrors tidy
        rw [run]
        exact ⟨_, fun _ _ _ _ above located below => above.within narrow located below, mirrors⟩
      · rw [Engine.compile_forgetful (Bool.eq_false_iff.mpr remember)]
        exact tidy.of_stored rfl rfl
  | parse parser input reserved =>
      obtain ⟨observations_eq, expansions_eq⟩ := parser.parse_sameTables reserved input world
      exact tidy.of_stored (congrArg Table.stored expansions_eq)
        (congrArg Table.stored observations_eq)
  | clear => exact Store.tidy_clear _

theorem tidy_of_history (kept : (Standard.typed σ).WellKept world.ambient world.store)
    (history : ReflTransGen (Proceeds Engine.CompilesTidily) world after)
    (tidy : world.store.Tidy) :
    (Standard.typed σ).WellKept after.ambient after.store ∧ after.store.Tidy := by
  induction history with
  | refl => exact ⟨kept, tidy⟩
  | tail _ proceeds induction =>
      exact ⟨proceeds.wellKept (fun engine _ _ _ _ => engine.upholds_typed) induction.1,
        proceeds.tidy induction.1 induction.2⟩

/-- After a compilation that sweeps and succeeds, every entry belongs to a node of what it gave, or was
there before, below a node that was taken from the store.  When since the store was last empty every
compilation that remembers swept and succeeded, every entry belongs to a node. -/
theorem Engine.compile_sweeps (engine : Engine σ) {start : World σ} (empty : start.store = .empty)
    (history : ReflTransGen (Proceeds fun _ _ _ => True) start world)
    (remember : engine.config.remember = true) (sweep : engine.config.sweep = true)
    (run : engine.compile root world = .ok parser after) (narrow : parser.root.Narrow) :
    world.store.Leaves after.store parser.root ∧
      ∀ origin : World σ, ReflTransGen (Proceeds Engine.CompilesTidily)
          { origin with store := origin.store.clear } world →
        after.store.Mirrors (parser.root.Located .root) := by
  have kept : (Standard.typed σ).WellKept world.ambient world.store :=
    wellKept_of_history (fun other _ _ _ _ => other.upholds_typed) history empty
  have leaves := compile_leaves kept remember sweep run narrow
  refine ⟨leaves, fun origin tidily => leaves.mirrors ?_⟩
  exact (tidy_of_history (Standard.wellKept_clear _ _) tidily (Store.tidy_clear _)).2

end Compiling

namespace Engine.Letter

/-- An engine for bundles that does not sweep. -/
def hoarder : Engine Nat :=
  bundler.withConfig { sweep := false }

/-- A bundle of two greetings was compiled, and then a bundle of one, without a sweep. -/
def hoarded : World Nat :=
  finalState (hoarder.compile (bundleOf [greetingNode])
    (finalState (hoarder.compile (bundleOf [greetingNode, greetingNode])
      { store := .empty, ambient := 0 })))

/-- A bundle of two greetings was compiled, and the store was swept. -/
def tidied : World Nat :=
  finalState (bundler.compile (bundleOf [greetingNode, greetingNode])
    { store := .empty, ambient := 0 })

private def isGreeting : Expansion → Bool
  | .described _ _ (.structural _ _ []) => true
  | _ => false

/-- Whether an expansion is that of a bundle of so many greetings. -/
private def isBundle (count : Nat) : Expansion → Bool
  | .described _ _ (.structural _ _ children) =>
      children.length = count && children.all isGreeting
  | _ => false

private def hasSecond (store : Store) : Bool :=
  store.expansions.stored.any fun entry => entry.position = Position.root.expansion.child 1

/-- After a compilation that gives a bundle of so many greetings, whether the second one is in the store,
and how many expansions are. -/
private def leaves (count : Nat) :
    EStateM.Result EngineError (World Nat) (Parser Nat) → Option (Bool × Nat)
  | .ok parser after =>
      if isBundle count parser.root then some (hasSecond after.store, after.store.expansions.size)
      else none
  | .error _ _ => none

private theorem of_leaves {count size : Nat} {second : Bool}
    {result : EStateM.Result EngineError (World Nat) (Parser Nat)}
    (left : leaves count result = some (second, size)) :
    ∃ parser after, result = .ok parser after ∧ isBundle count parser.root = true ∧
      hasSecond after.store = second ∧ after.store.expansions.size = size := by
  cases result with
  | error error after => cases left
  | ok parser after =>
      rw [leaves, Option.ite_none_right_eq_some] at left
      exact ⟨parser, after, rfl, left.1, Prod.mk.inj (Option.some.inj left.2)⟩

private theorem compile_two :
    leaves 2 (bundler.compile (bundleOf [greetingNode, greetingNode])
      { store := .empty, ambient := 0 }) = some (true, 3) := by
  decide +kernel

private theorem compile_tidied :
    leaves 1 (bundler.compile (bundleOf [greetingNode]) tidied) = some (false, 2) := by
  decide +kernel

private theorem compile_hoarded :
    leaves 1 (bundler.compile (bundleOf [greetingNode]) hoarded) = some (true, 3) := by
  decide +kernel

private theorem exists_second {store : Store} (second : hasSecond store = true) :
    ∃ entry ∈ store.expansions.stored, entry.position = Position.root.expansion.child 1 := by
  obtain ⟨entry, member, here⟩ := List.any_eq_true.mp second
  exact ⟨entry, member, of_decide_eq_true here⟩

section Bundled

variable {count : Nat} {root : Expansion}

private theorem eq_of_isBundle (bundled : isBundle count root = true) :
    ∃ outer outer_data inner inner_data children,
      root = .described outer outer_data (.structural inner inner_data children) ∧
        children.length = count ∧ ∀ child ∈ children, isGreeting child = true := by
  match root, bundled with
  | .described outer outer_data (.structural inner inner_data children), bundled =>
      rw [isBundle, Bool.and_eq_true, decide_eq_true_iff, List.all_eq_true] at bundled
      exact ⟨outer, outer_data, inner, inner_data, children, rfl, bundled⟩

private theorem eq_of_isGreeting {child : Expansion} (greets : isGreeting child = true) :
    ∃ node data leaf leaf_data, child = .described node data (.structural leaf leaf_data []) := by
  match child, greets with
  | .described node data (.structural leaf leaf_data []), _ =>
      exact ⟨node, data, leaf, leaf_data, rfl⟩

private theorem narrow_of_isBundle (few : count ≤ UInt32.size) (bundled : isBundle count root = true) :
    root.Narrow := by
  obtain ⟨_, _, _, _, children, rfl, rfl, greet⟩ := eq_of_isBundle bundled
  refine .described (.structural few fun child member => ?_)
  obtain ⟨_, _, _, _, rfl⟩ := eq_of_isGreeting (greet child member)
  exact .described (.structural (Nat.zero_le _) nofun)

private theorem not_located_second (bundled : isBundle 1 root = true) {node : Expansion} :
    ¬ root.Located .root (Position.root.expansion.child 1) node := by
  obtain ⟨_, _, _, _, children, rfl, length_eq, -⟩ := eq_of_isBundle bundled
  obtain ⟨only, rfl⟩ := List.length_eq_one_iff.mp length_eq
  intro located
  rcases Expansion.located_described.mp located with ⟨here, -⟩ | located
  · exact absurd here (by decide)
  · rcases Expansion.located_structural.mp located with ⟨here, -⟩ | located
    · exact absurd here (by decide)
    · rcases Expansion.locatedAmong_cons.mp located with located | ⟨_, _, present, _⟩
      · exact absurd located.startsWith (by decide)
      · cases present

end Bundled

end Engine.Letter

open Engine Engine.Letter in
/-- The second greeting of a bundle that has lost it stays in the store after a sweep, since the bundle
that remains is taken from the store as a whole. -/
theorem Engine.compile_sweeps_not_all :
    ∃ parser after, ∃ entry ∈ after.store.expansions.stored,
      ReflTransGen (Proceeds fun _ _ _ => True) { store := .empty, ambient := 0 } hoarded ∧
        bundler.config.remember = true ∧ bundler.config.sweep = true ∧
        bundler.compile (bundleOf [greetingNode]) hoarded = .ok parser after ∧
        parser.root.Narrow ∧ ∀ node, ¬ parser.root.Located .root entry.position node := by
  have history : ReflTransGen (Proceeds fun _ _ _ => True) { store := .empty, ambient := 0 }
      hoarded :=
    .tail (.single (.compile hoarder (bundleOf [greetingNode, greetingNode]) trivial))
      (.compile hoarder (bundleOf [greetingNode]) trivial)
  obtain ⟨parser, after, run, bundled, second, -⟩ := of_leaves compile_hoarded
  obtain ⟨entry, member, here⟩ := exists_second second
  refine ⟨parser, after, entry, member, history, rfl, rfl, run,
    narrow_of_isBundle (by decide) bundled, fun node => ?_⟩
  rw [here]
  exact not_located_second bundled

open Engine Engine.Letter in
/-- Where a bundle of two greetings was compiled, a bundle of one is.  The second greeting is in the store
before, and the sweep removes it: every entry that is left belongs to a node. -/
theorem Engine.compile_sweeps_bundle :
    ∃ parser after,
      ReflTransGen (Proceeds CompilesTidily) { store := .empty, ambient := 0 } tidied ∧
        (∃ entry ∈ tidied.store.expansions.stored,
          entry.position = Position.root.expansion.child 1) ∧
        bundler.compile (bundleOf [greetingNode]) tidied = .ok parser after ∧
        after.store.expansions.size = 2 ∧ after.store.Mirrors (parser.root.Located .root) ∧
        ∀ entry ∈ after.store.expansions.stored,
          entry.position ≠ Position.root.expansion.child 1 := by
  obtain ⟨_, _, run_two, bundled_two, second, -⟩ := of_leaves compile_two
  have tidily : bundler.CompilesTidily (bundleOf [greetingNode, greetingNode])
      { store := .empty, ambient := 0 } := fun _ =>
    ⟨rfl, _, _, run_two, narrow_of_isBundle (by decide) bundled_two⟩
  have present : hasSecond tidied.store = true := by
    rw [tidied, run_two]
    exact second
  obtain ⟨parser, after, run, bundled, -, size_eq⟩ := of_leaves compile_tidied
  have history : ReflTransGen (Proceeds fun _ _ _ => True) { store := .empty, ambient := 0 }
      tidied :=
    .single (.compile bundler _ trivial)
  have tidy_history : ReflTransGen (Proceeds CompilesTidily) { store := .empty, ambient := 0 }
      tidied :=
    .single (.compile bundler _ tidily)
  have mirrors := (compile_sweeps bundler rfl history rfl rfl run
    (narrow_of_isBundle (by decide) bundled)).2 { store := .empty, ambient := 0 } tidy_history
  refine ⟨parser, after, tidy_history, exists_second present, run, size_eq, mirrors, ?_⟩
  intro entry member here
  exact not_located_second bundled (here ▸ (mirrors.expansions member).1)

end Phrasing
