import Phrasing.Content.Xxh3
import Phrasing.Proofs.Expansion.Soundness
import Phrasing.Proofs.Traversal.Effects

/-!
# Compilations that share a store

Whatever compilations, readings and clearings went before, a compilation that remembers gives what
fresh expansion gives, up to the identities of nodes.
-/

namespace Phrasing

namespace Engine

open Memo Relation

variable {σ : Type} {engine : Engine σ} {census : Census σ} {meaning : Meaning}

/-- The engine with another configuration. -/
def withConfig (engine : Engine σ) (config : Config) : Engine σ :=
  { engine with config }

theorem Orderly.withConfig (orderly : engine.Orderly census) (config : Config) :
    (engine.withConfig config).Orderly census :=
  ⟨orderly.observe, orderly.describe, orderly.register, orderly.source, orderly.sourceFor⟩

theorem Computes.withConfig (computes : engine.Computes census meaning) (config : Config) :
    (engine.withConfig config).Computes census meaning :=
  ⟨computes.observe, computes.describe, computes.register, computes.source, computes.sourceFor⟩

theorem Sound.begin {ambient : σ} {store : Store}
    (sound : engine.Sound census meaning ambient store) :
    engine.Sound census meaning ambient store.begin where
  observations_filed := sound.observations_filed.begin
  expansions_filed := sound.expansions_filed.begin
  observation := sound.observation
  description := sound.description

theorem Sound.sweep {ambient : σ} {store : Store}
    (sound : engine.Sound census meaning ambient store) :
    engine.Sound census meaning ambient store.sweep.2 where
  observations_filed := sound.observations_filed.sweep
  expansions_filed := sound.expansions_filed.sweep
  observation {position entry} found := by
    have kept : (store.observations.entryAt position).filter store.observations.isLive =
        some entry := (sound.observations_filed.entryAt_sweep position).symm.trans found
    exact sound.observation (Option.filter_eq_some_iff.mp kept).1
  description {position entry} found := by
    have kept : (store.expansions.entryAt position).filter store.expansions.isLive =
        some entry := (sound.expansions_filed.entryAt_sweep position).symm.trans found
    exact sound.description (Option.filter_eq_some_iff.mp kept).1

theorem sound_empty (ambient : σ) : engine.Sound census meaning ambient .empty where
  observations_filed := Table.filed_empty _
  expansions_filed := Table.filed_empty _
  observation found := nomatch found
  description found := nomatch found

theorem Sound.clear {ambient : σ} {store : Store} :
    engine.Sound census meaning ambient store.clear where
  observations_filed := Table.filed_clear _
  expansions_filed := Table.filed_clear _
  observation found := nomatch found
  description found := nomatch found

theorem meantAt_withConfig {config : Config} (same : config.maxDepth = engine.config.maxDepth)
    (room : Nat) (position : Position) (element : Element) :
    (engine.withConfig config).meantAt meaning room position element =
      engine.meantAt meaning room position element := by
  induction room generalizing position element with
  | zero => rw [meantAt, meantAt, withConfig, same]
  | succ room induction =>
      simp only [meantAt, funext fun output => induction position.expansion output, induction]
      rfl

theorem meansExpansion_withConfig {config : Config}
    (same : config.maxDepth = engine.config.maxDepth) (position : Position)
    (inputs : DescribeInputs) (expansion : Expansion) :
    (engine.withConfig config).MeansExpansion meaning position inputs expansion ↔
      engine.MeansExpansion meaning position inputs expansion := by
  have depth_eq : (engine.withConfig config).config.maxDepth = engine.config.maxDepth := same
  simp only [MeansExpansion, meantAt_withConfig same, depth_eq]

theorem sound_withConfig {config : Config} (same : config.maxDepth = engine.config.maxDepth)
    {ambient : σ} {store : Store} :
    (engine.withConfig config).Sound census meaning ambient store ↔
      engine.Sound census meaning ambient store := by
  constructor
  · intro sound
    refine ⟨sound.observations_filed, sound.expansions_filed, sound.observation, ?_⟩
    intro position entry found
    obtain ⟨knows, means⟩ := sound.description found
    exact ⟨knows, (meansExpansion_withConfig same _ _ _).mp means⟩
  · intro sound
    refine ⟨sound.observations_filed, sound.expansions_filed, sound.observation, ?_⟩
    intro position entry found
    obtain ⟨knows, means⟩ := sound.description found
    exact ⟨knows, (meansExpansion_withConfig same _ _ _).mpr means⟩

/-- The regime of a compilation, which may drop stored entries. -/
def compiling (engine : Engine σ) (census : Census σ) (meaning : Meaning) : Regime (Pass σ) where
  Valid pass := engine.Sound census meaning pass.world.ambient pass.store
  Leads before after := census.Grows before.world.ambient after.world.ambient
  Excuses error pass :=
    (∃ table position found, error = .table (.misfiled table position found)) ∧
      pass.store.Overfull
  refl _ := .refl census _
  trans := .trans

theorem memoizing_narrows_compiling (position : Position) :
    (engine.memoizing census meaning position).Narrows (engine.compiling census meaning) :=
  ⟨id, And.left, id⟩

theorem act_meets {pass : Pass σ} {action : Action σ EngineError Expansion}
    {expected : Except EngineError Expansion}
    (sound : engine.Sound census meaning pass.world.ambient pass.store)
    (meets : census.running.Meets pass.world (fun _ result form => result.form .structural = form)
      (action pass.world) expected) :
    (engine.compiling census meaning).Meets pass ExpansionReads (Pass.act action pass) expected := by
  rw [Pass.act]
  generalize action pass.world = outcome at meets ⊢
  cases meets with
  | ok _ grows as_expected => exact .ok (sound.grow grows) grows as_expected
  | failed _ grows => exact .failed (sound.grow grows) grows
  | excused _ _ excuse => exact excuse.elim

section Compiling

variable [Digest]

theorem expand_meets (discerns : ∀ ambient,
      Focus.structural.Discerns census.number (census.Lists ambient))
    (orderly : engine.Orderly census) (computes : engine.Computes census meaning) {root : Element}
    (pass : Pass σ) (sound : engine.Sound census meaning pass.world.ambient pass.store)
    (knows : census.Knows pass.world.ambient root) :
    (engine.compiling census meaning).Meets pass ExpansionReads (engine.expand root pass)
      (engine.meantAt meaning (engine.config.maxDepth + 1) .root (root.form .structural)) := by
  rw [expand]
  split
  · have memoized := memoizedAt_meets discerns orderly computes (engine.config.maxDepth + 1) .root
      root rfl pass sound knows
    rw [← bind_pure (engine.meantAt meaning _ .root _)]
    refine .bind (memoizing_narrows_compiling .root) memoized ?_
    intro result form after _ valid _ as_expected
    by_cases sweep : engine.config.sweep = true
    · simp only [sweep, if_true]
      exact .ok valid.sweep (.refl census _) as_expected
    · simp only [sweep]
      exact .ok valid (.refl census _) as_expected
  · exact act_meets sound (freshAt_meets orderly computes _ .root root pass.world knows)

/-- Compiling with a sound store leaves a sound store. -/
theorem compile_sound (discerns : ∀ ambient,
      Focus.structural.Discerns census.number (census.Lists ambient))
    (orderly : engine.Orderly census) (computes : engine.Computes census meaning) {root : Element}
    {world : World σ} (sound : engine.Sound census meaning world.ambient world.store)
    (knows : census.Knows world.ambient root) :
    engine.Sound census meaning (finalState (engine.compile root world)).ambient
      (finalState (engine.compile root world)).store := by
  have meets := expand_meets discerns orderly computes (Pass.opening world) sound.begin knows
  rw [finalState_compile]
  exact meets.valid

/-- One operation on a shared store: callbacks go about their own affairs, an engine with the same
limit on depth compiles, expansions by content come and go, or the store is cleared. -/
inductive Operates (engine : Engine σ) (census : Census σ) : World σ → World σ → Prop
  | grow {world : World σ} {ambient : σ} (grows : census.Grows world.ambient ambient) :
      Operates engine census world { world with ambient }
  | compile {world : World σ} {config : Config} {root : Element}
      (same : config.maxDepth = engine.config.maxDepth) (knows : census.Knows world.ambient root) :
      Operates engine census world (finalState ((engine.withConfig config).compile root world))
  | remember {world : World σ} {adHoc : List (ContentHash × AdHocEntry)} {adHocStats : Stats} :
      Operates engine census world { world with store := { world.store with adHoc, adHocStats } }
  | clear {world : World σ} :
      Operates engine census world { world with store := world.store.clear }

/-- The worlds that operations and readings lead to, starting with a store that remembers nothing. -/
inductive History (engine : Engine σ) (census : Census σ) : World σ → Prop
  | start (ambient : σ) : History engine census { store := .empty, ambient }
  | operate {world after : World σ} (history : History engine census world)
      (operates : engine.Operates census world after) : History engine census after
  | parse {world : World σ} (history : History engine census world) (config : Config)
      (root : Expansion) (input : String) :
      History engine census
        (finalState (Parser.parse { engine := engine.withConfig config, root } input world))

omit [Digest] in
theorem stays_callback {step : World σ → World σ → Prop}
    (growth : ∀ {world : World σ} {ambient : σ}, census.Grows world.ambient ambient →
      step world { world with ambient })
    {α β : Type} [Structured α] [Structured β]
    {callback : α → Action σ Fault β} (orderly : census.Orderly callback) (argument : α) :
    Stays step (callback argument) := by
  intro world
  have store_eq := orderly.store argument world
  have grows := orderly.grows argument world
  have final : finalState (callback argument world) =
      { world with ambient := (finalState (callback argument world)).ambient } := by
    rw [← store_eq]
  rw [final]
  exact .single (growth grows)

omit [Digest] in
theorem Orderly.callbacksStay {step : World σ → World σ → Prop}
    (growth : ∀ {world : World σ} {ambient : σ}, census.Grows world.ambient ambient →
      step world { world with ambient })
    (orderly : engine.Orderly census) : engine.CallbacksStay step where
  observe present := stays_callback growth (orderly.observe present)
  describe present := stays_callback growth (orderly.describe present)
  register present := stays_callback growth (orderly.register present)
  source present := stays_callback growth (orderly.source present)
  sourceFor present := stays_callback growth (orderly.sourceFor present)

theorem operates_parse (orderly : engine.Orderly census)
    (visits : engine.VisitsStay (engine.Operates census)) (config : Config) (root : Expansion)
    (input : String) :
    Stays (engine.Operates census)
      (Parser.parse { engine := engine.withConfig config, root } input) := by
  refine stays_parse (fun element => ?_) visits input
  exact stays_expandAdHoc ((orderly.withConfig config).callbacksStay .grow) .remember element

theorem Operates.sound (discerns : ∀ ambient,
      Focus.structural.Discerns census.number (census.Lists ambient))
    (orderly : engine.Orderly census) (computes : engine.Computes census meaning)
    {world after : World σ} (operates : engine.Operates census world after)
    (sound : engine.Sound census meaning world.ambient world.store) :
    engine.Sound census meaning after.ambient after.store := by
  cases operates with
  | grow grows => exact sound.grow grows
  | @compile config root same knows =>
      exact (sound_withConfig same).mp (compile_sound discerns (orderly.withConfig config)
        (computes.withConfig config) ((sound_withConfig same).mpr sound) knows)
  | remember =>
      exact ⟨sound.observations_filed, sound.expansions_filed, sound.observation,
        sound.description⟩
  | clear => exact Sound.clear

theorem History.sound (discerns : ∀ ambient,
      Focus.structural.Discerns census.number (census.Lists ambient))
    (orderly : engine.Orderly census) (computes : engine.Computes census meaning)
    (visits : engine.VisitsStay (engine.Operates census)) {world : World σ}
    (history : engine.History census world) :
    engine.Sound census meaning world.ambient world.store := by
  induction history with
  | start ambient => exact sound_empty ambient
  | operate _ operates induction => exact operates.sound discerns orderly computes induction
  | @parse world _ config root input induction =>
      have steps := operates_parse orderly visits config root input world
      generalize finalState _ = after at steps ⊢
      induction steps with
      | refl => exact induction
      | tail _ operates sound => exact operates.sound discerns orderly computes sound

/-- After any history of compilations, readings and clearings, a compilation gives the expansion that
fresh expansion gives, up to identities, or the same error.  The one exception is a table of more
than `2 ^ 32` entries, whose addresses may mislead a lookup. -/
theorem compile_agrees_with_fresh (engine : Engine σ) (census : Census σ) (meaning : Meaning)
    (unsigned : ∀ number, census.number number → number.toBits ≠ 0x8000000000000000)
    (orderly : engine.Orderly census) (computes : engine.Computes census meaning)
    (visits : engine.VisitsStay (engine.Operates census)) {world : World σ}
    (history : engine.History census world) {root : Element}
    (knows : census.Knows world.ambient root) (other : World σ)
    (knows_other : census.Knows other.ambient root) :
    (outcomeOf (engine.compile root world)).map (fun parser => parser.root.form .structural) =
        (outcomeOf (engine.expandFresh root other)).map (Expansion.form .structural) ∨
      ∃ table position found after,
        engine.compile root world = .error (.table (.misfiled table position found)) after ∧
          after.store.Overfull := by
  have discerns (ambient : σ) : Focus.structural.Discerns census.number (census.Lists ambient) :=
    Census.discerns (fun left right left_number right_number same =>
      Number.eq_of_same (unsigned left left_number) (unsigned right right_number) same) ambient
  have sound := history.sound discerns orderly computes visits
  have compiled := (expand_meets discerns orderly computes (Pass.opening world) sound.begin knows).agrees
  have fresh := (freshAt_meets orderly computes (engine.config.maxDepth + 1) .root root other
    knows_other).agrees
  have fresh_eq : (outcomeOf (engine.expandFresh root other)).map (Expansion.form .structural) =
      engine.meantAt meaning (engine.config.maxDepth + 1) .root (root.form .structural) := by
    rcases fresh with same | ⟨_, _, _, impossible⟩
    · exact same
    · exact impossible.elim
  rw [fresh_eq, compile_eq]
  rcases compiled with same | ⟨error, after, failed, ⟨table, position, found, rfl⟩, overfull⟩
  · left
    rw [← same]
    cases engine.expand root (Pass.opening world) <;> rfl
  · right
    exact ⟨table, position, found, after.closing, by rw [failed], overfull⟩

end Compiling

namespace Letter

/-- A type whose nodes stand for a literal. -/
def greeting : NodeType :=
  ⟨1, "Greeting"⟩

/-- The literal of a greeting, a new node each time. -/
def greet (_context : DescribeContext) : Action Nat Fault Element :=
  fun world =>
    .ok (.literal (10 + world.ambient) "hello") { world with ambient := world.ambient + 1 }

/-- An engine for letters; its callbacks count the nodes they make. -/
def greeter : Engine Nat where
  vocabulary type := if type = greeting then { describe := some greet } else {}
  processor := .identity

/-- A greeting. -/
def greetingNode : Element :=
  .ofType 0 greeting

/-- A letter with one name. -/
def draft : Element :=
  .sequence 3 [greetingNode, .literal 1 "Ann"]

/-- The letter with another name. -/
def edited : Element :=
  .sequence 4 [greetingNode, .literal 2 "Bob"]

/-- The nodes of both letters, and the literals made for greetings. -/
def listing : Census Nat where
  nodeAt count id :=
    if id < 10 then [greetingNode, .literal 1 "Ann", .literal 2 "Bob", draft, edited][id]?
    else if id < 10 + count then some (.literal id "hello") else none
  number value := value.toBits ≠ 0x8000000000000000 ∧ value.toBits ≠ Number.undefinedBits
  node element := element.children.length < UInt32.size

theorem knows_draft (count : Nat) : listing.Knows count draft := by
  have childless : 0 < UInt32.size := by decide
  have two_children : 2 < UInt32.size := by decide
  exact ⟨⟨rfl, two_children⟩, trivial, ⟨⟨rfl, childless⟩, trivial, trivial⟩,
    ⟨⟨rfl, childless⟩, ⟨by simp [Value.Every], trivial⟩, trivial⟩, trivial⟩

theorem knows_edited (count : Nat) : listing.Knows count edited := by
  have childless : 0 < UInt32.size := by decide
  have two_children : 2 < UInt32.size := by decide
  exact ⟨⟨rfl, two_children⟩, trivial, ⟨⟨rfl, childless⟩, trivial, trivial⟩,
    ⟨⟨rfl, childless⟩, ⟨by simp [Value.Every], trivial⟩, trivial⟩, trivial⟩

private theorem eq_greet {type : NodeType} {callback : DescribeContext → Action Nat Fault Element}
    (present : (greeter.vocabulary type).describe = some callback) : callback = greet := by
  simp only [greeter] at present
  split at present
  · exact (Option.some.inj present).symm
  · simp at present

private theorem orderly_greet : listing.Orderly greet where
  store _ _ := rfl
  grows context world id node listed := by
    simp only [listing] at listed ⊢
    split at listed
    · next fixed => rwa [if_pos fixed]
    · next made =>
        split at listed
        · next counted =>
            have counted_after : id < 10 + (finalState (greet context world)).ambient :=
              Nat.lt_succ_of_lt counted
            rwa [if_neg made, if_pos counted_after]
        · simp at listed
  knows {_ world _ _} _ run := by
    obtain ⟨rfl, rfl⟩ := EStateM.Result.ok.inj run
    have listed : listing.nodeAt (world.ambient + 1) (10 + world.ambient) =
        some (.literal (10 + world.ambient) "hello") := by
      have made : ¬ 10 + world.ambient < 10 := by omega
      have counted : 10 + world.ambient < 10 + (world.ambient + 1) := by omega
      simp only [listing, if_neg made, if_pos counted]
    have childless : 0 < UInt32.size := by decide
    exact ⟨⟨listed, childless⟩, ⟨by simp [Value.Every], trivial⟩, trivial⟩

theorem orderly : greeter.Orderly listing where
  observe {type _} present := by
    simp only [greeter] at present
    split at present <;> simp at present
  describe present := eq_greet present ▸ orderly_greet
  register present := nomatch present
  source present := nomatch present
  sourceFor present := nomatch present

/-- What the callbacks for letters compute. -/
def greeterMeaning : Meaning where
  observe _ _ := .ok .null
  describe _ _ := .ok ((Element.literal 0 "hello").form .structural)
  register := .ok
  source := .ok
  sourceFor _ := .ok

private theorem computes : greeter.Computes listing greeterMeaning where
  observe {type _} present := by
    simp only [greeter] at present
    split at present <;> simp at present
  describe present := by
    rw [eq_greet present]
    intro _ _ _
    rfl
  register present := nomatch present
  source present := nomatch present
  sourceFor present := nomatch present

private theorem visitsStay : greeter.VisitsStay (greeter.Operates listing) := by
  intro type visit present
  simp only [greeter] at present
  split at present <;> simp at present

private theorem compile_draft_again_isOk :
    (outcomeOf (greeter.compile draft
      (finalState (greeter.compile draft { store := .empty, ambient := 0 })))).isOk = true := by
  decide +kernel

end Letter

open Letter in
/-- Compiling a letter again succeeds, and gives the expansion that is computed anew from other
nodes. -/
theorem compile_agrees_with_fresh_letter :
    ∃ world parser after, greeter.History Letter.listing world ∧
      world = finalState (Letter.greeter.compile draft { store := .empty, ambient := 0 }) ∧
      greeter.compile draft world = .ok parser after ∧
      (outcomeOf (greeter.expandFresh draft { store := .empty, ambient := 7 })).map
        (Expansion.form .structural) = .ok (parser.root.form .structural) := by
  have start : greeter.History Letter.listing { store := .empty, ambient := 0 } := .start 0
  have compiles : Letter.greeter.Operates Letter.listing { store := .empty, ambient := 0 }
      (finalState ((Letter.greeter.withConfig Letter.greeter.config).compile draft
        { store := .empty, ambient := 0 })) :=
    .compile rfl (knows_draft 0)
  obtain ⟨parser, after, run⟩ := eq_ok_of_isOk compile_draft_again_isOk
  generalize world_eq : finalState (greeter.compile draft { store := .empty, ambient := 0 }) = world
    at run
  have history : greeter.History listing world := world_eq ▸ start.operate compiles
  refine ⟨world, parser, after, history, rfl, run, ?_⟩
  rcases compile_agrees_with_fresh greeter listing greeterMeaning (fun _ number => number.1) orderly
    computes visitsStay history (knows_draft _) { store := .empty, ambient := 7 } (knows_draft 7)
    with agrees | ⟨_, _, _, _, failed, _⟩
  · rw [run] at agrees
    exact agrees.symm
  · rw [run] at failed
    cases failed

end Engine

end Phrasing
