import Phrasing.Proofs.Expansion.Histories
import Phrasing.Proofs.Expansion.Sparing

/-!
# Compilations that do only what has changed

After compilations that remember and succeed, compiling an edited grammar runs no callbacks for the
nodes that are where they were, with the kind, props and children they had.
-/

namespace Phrasing.Engine

section Increments

variable {σ : Type} [Digest] {engine : Engine σ} {census : Census σ}

/-- The callbacks that compiling a grammar runs, oldest first. -/
def log (engine : Engine σ) (root : Element) (world : World σ) : List Call :=
  (finalState (engine.expand root (Pass.opening world))).calls

/-- Compilations that remember and succeed, one after another with one store: the world they lead to
and the expansion that the last of them gave.  In between callbacks may go about their own affairs. -/
inductive Compilations (engine : Engine σ) (census : Census σ) : World σ → Option Expansion → Prop
  | start (ambient : σ) : Compilations engine census { store := .empty, ambient } none
  | grow {world : World σ} {ambient : σ} {last : Option Expansion}
      (earlier : Compilations engine census world last)
      (grows : census.Grows world.ambient ambient) :
      Compilations engine census { world with ambient } last
  | compile {world after : World σ} {last : Option Expansion} {config : Config} {root : Element}
      {parser : Parser σ} (earlier : Compilations engine census world last)
      (remember : config.remember = true) (knows : census.Knows world.ambient root)
      (run : (engine.withConfig config).compile root world = .ok parser after) :
      Compilations engine census after (some parser.root)

/-- A compilation that remembers covers what it gives, and may then drop what it did not reach. -/
theorem expand_yields (defined : Number.Defined census.number)
    (narrow : ∀ node, census.node node → node.children.length < UInt32.size)
    (orderly : engine.Orderly census) (remember : engine.config.remember = true) {root : Element}
    {before after : Pass σ} {expansion : Expansion}
    (stocked : engine.Stocked census before.world.ambient before.store .root)
    (knows : census.Knows before.world.ambient root)
    (run : engine.expand root before = .ok expansion after) :
    ∃ late, engine.Yields census .root before expansion late ∧
      (after = late ∨ after = { late with store := late.store.sweep.2 }) := by
  rw [expand, if_pos remember] at run
  obtain ⟨result, late, expanding, run⟩ := bind_eq_ok.mp run
  have yields := memoizedAt_yields defined narrow orderly stocked knows expanding
  by_cases sweep : engine.config.sweep = true
  · simp only [sweep, if_true] at run
    obtain ⟨rfl, rfl⟩ := EStateM.Result.ok.inj run
    exact ⟨late, yields, .inr rfl⟩
  · simp only [sweep] at run
    obtain ⟨rfl, rfl⟩ := EStateM.Result.ok.inj run
    exact ⟨late, yields, .inl rfl⟩

section Configurations

variable {config : Config} {ambient : σ} {store : Store} {live : Prop} {root position : Position}
  {node expansion : Expansion}

omit [Digest] in
theorem recorded_withConfig :
    (engine.withConfig config).Recorded census ambient store live position node ↔
      engine.Recorded census ambient store live position node :=
  ⟨fun recorded => ⟨recorded.knows, recorded.observed, recorded.described⟩,
    fun recorded => ⟨recorded.knows, recorded.observed, recorded.described⟩⟩

omit [Digest] in
theorem covers_withConfig :
    (engine.withConfig config).Covers census ambient store live root expansion ↔
      engine.Covers census ambient store live root expansion := by
  simp only [Covers, recorded_withConfig]

theorem stocked_withConfig :
    (engine.withConfig config).Stocked census ambient store root ↔
      engine.Stocked census ambient store root := by
  constructor
  · intro stocked
    refine ⟨stocked.observations, stocked.expansions, fun apart found => ?_⟩
    obtain ⟨element, data, body, nested⟩ := stocked.nested apart found
    exact ⟨element, data, body, nested.inputs_eq, nested.output_eq, covers_withConfig.mp nested.covers⟩
  · intro stocked
    refine ⟨stocked.observations, stocked.expansions, fun apart found => ?_⟩
    obtain ⟨element, data, body, nested⟩ := stocked.nested apart found
    exact ⟨element, data, body, nested.inputs_eq, nested.output_eq, covers_withConfig.mpr nested.covers⟩

end Configurations

theorem compile_covers (defined : Number.Defined census.number)
    (narrow : ∀ node, census.node node → node.children.length < UInt32.size)
    (orderly : engine.Orderly census) (remember : engine.config.remember = true) {root : Element}
    {world after : World σ} {parser : Parser σ}
    (stocked : engine.Stocked census world.ambient world.store .root)
    (knows : census.Knows world.ambient root)
    (run : engine.compile root world = .ok parser after) :
    engine.Stocked census after.ambient after.store .root ∧
      engine.Covers census after.ambient after.store True .root parser.root := by
  obtain ⟨pass, expanding, rfl⟩ := of_compile_ok run
  obtain ⟨late, yields, rfl | rfl⟩ :=
    expand_yields defined narrow orderly remember stocked.begin knows expanding
  · exact ⟨yields.stocked, yields.covers⟩
  · exact ⟨yields.stocked.sweep, yields.covers.sweep yields.stocked.observations.filed
      yields.stocked.expansions.filed trivial⟩

theorem Compilations.covers (defined : Number.Defined census.number)
    (narrow : ∀ node, census.node node → node.children.length < UInt32.size)
    (orderly : engine.Orderly census) {world : World σ} {last : Option Expansion}
    (compilations : engine.Compilations census world last) :
    engine.Stocked census world.ambient world.store .root ∧
      ∀ expansion, last = some expansion →
        engine.Covers census world.ambient world.store True .root expansion := by
  induction compilations with
  | start ambient => exact ⟨stocked_empty ambient .root, nofun⟩
  | grow _ grows induction =>
      exact ⟨induction.1.grow grows, fun expansion last => (induction.2 expansion last).grow grows⟩
  | @compile _ _ _ config _ parser _ remember knows run induction =>
      obtain ⟨stocked, covers⟩ := compile_covers defined narrow (orderly.withConfig config) remember
        (stocked_withConfig.mpr induction.1) knows run
      refine ⟨stocked_withConfig.mp stocked, fun expansion last_eq => ?_⟩
      obtain rfl := Option.some.inj last_eq
      exact covers_withConfig.mp covers

/-- After compilations that succeeded, compiling an edited grammar runs no callbacks for a node that
is where a node with the same kind, props and children was in the last expansion. -/
theorem compile_spares_unchanged (engine : Engine σ) (census : Census σ)
    (defined : ∀ number, census.number number → number.toBits ≠ Number.undefinedBits)
    (narrow : ∀ node, census.node node → node.children.length < UInt32.size)
    (orderly : engine.Orderly census) {world : World σ} {last : Expansion}
    (compilations : engine.Compilations census world (some last))
    (remember : engine.config.remember = true) {root : Element}
    (knows : census.Knows world.ambient root) {parser : Parser σ} {after : World σ}
    (run : engine.compile root world = .ok parser after) {position : Position}
    {old new : Expansion} (old_located : last.Located .root position old)
    (new_located : parser.root.Located .root position new)
    (same_kind : old.element.kind = new.element.kind)
    (same_props : Value.sameFields old.element.props new.element.props = true)
    (same_children : Element.sameChildren old.element.children new.element.children = true) :
    ∀ call ∈ engine.log root world, call.position ≠ position := by
  obtain ⟨stocked, covers⟩ := compilations.covers defined narrow orderly
  obtain ⟨pass, expanding, -⟩ := of_compile_ok run
  obtain ⟨late, yields, sweeping⟩ :=
    expand_yields defined narrow orderly remember stocked.begin knows expanding
  have recorded := (covers last rfl).begin position old old_located
  have same : (ObserveInputs.ofElement old.element == ObserveInputs.ofElement new.element) = true := by
    change (old.element.kind == new.element.kind && _ && _) = true
    rw [same_kind, beq_self_eq_true]
    exact Bool.and_eq_true_iff.mpr ⟨same_props, same_children⟩
  have forms := ObserveInputs.form_eq_of_beq (census.discerns_comparison _)
    (recorded.knows.grow yields.progress.grows) (yields.covers position new new_located).knows same
  have calls_eq : engine.log root world = late.calls := by
    rw [log, expanding]
    rcases sweeping with rfl | rfl
    · rfl
    · rfl
  intro call member here
  rw [calls_eq] at member
  exact nomatch yields.spares recorded new_located forms call member here

end Increments

namespace Letter

private def start : World Nat :=
  { store := .empty, ambient := 0 }

private theorem compile_draft :
    ∃ body name after, greeter.compile draft start = .ok
      { engine := greeter, root := .structural draft none [.described greetingNode none body, name] }
      after :=
  ⟨_, _, _, rfl⟩

private def greetsAgain (outcome : Except EngineError (Parser Nat)) : Bool :=
  match outcome with
  | .ok { root := .structural _ _ (first :: _), .. } =>
      decide (first.element.kind = greetingNode.kind) &&
        Value.sameFields greetingNode.props first.element.props &&
        Element.sameChildren greetingNode.children first.element.children
  | _ => false

private theorem compile_edited :
    greetsAgain (outcomeOf (greeter.compile edited
      (finalState (greeter.compile draft start)))) = true := by
  decide +kernel

end Letter

open Letter in
/-- When the name in a letter is edited, the greeting before it is not described anew. -/
theorem compile_spares_unchanged_letter :
    ∃ world after last parser, greeter.Compilations listing world (some last) ∧
      greeter.compile edited world = .ok parser after ∧
      (∃ old, last.Located .root (Position.root.child 0) old) ∧
      ∀ call ∈ greeter.log edited world, call.position ≠ Position.root.child 0 := by
  obtain ⟨body, name, world, compiled⟩ := compile_draft
  have again := compile_edited
  rw [compiled] at again
  have configured : (greeter.withConfig greeter.config).compile draft start = .ok
      { engine := greeter, root := .structural draft none [.described greetingNode none body, name] }
      world :=
    compiled
  have compilations : greeter.Compilations listing world
      (some (.structural draft none [.described greetingNode none body, name])) :=
    .compile (.start 0) rfl (knows_draft 0) configured
  have old_located : (Expansion.structural draft none
      [.described greetingNode none body, name]).Located .root (Position.root.child 0)
        (.described greetingNode none body) :=
    .child rfl .here
  cases run : greeter.compile edited world with
  | error error after =>
      change greetsAgain (outcomeOf (greeter.compile edited world)) = true at again
      rw [run] at again
      cases again
  | ok parser after =>
      change greetsAgain (outcomeOf (greeter.compile edited world)) = true at again
      rw [run] at again
      obtain ⟨engine, root⟩ := parser
      match root, again with
      | .structural element data (first :: rest), again =>
          simp only [outcomeOf, greetsAgain, Bool.and_eq_true, decide_eq_true_eq] at again
          obtain ⟨⟨same_kind, same_props⟩, same_children⟩ := again
          have new_located : (Expansion.structural element data (first :: rest)).Located .root
              (Position.root.child 0) first :=
            .child rfl .here
          exact ⟨world, after, _, _, compilations, run, ⟨_, old_located⟩,
            compile_spares_unchanged greeter listing (fun _ number => number.2)
              (fun _ narrow => narrow) orderly compilations rfl (knows_edited _) run old_located
              new_located same_kind.symm same_props same_children⟩

end Phrasing.Engine
