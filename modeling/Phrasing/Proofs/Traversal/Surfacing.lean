import Phrasing.Content.Xxh3
import Phrasing.Proofs.Expansion.Meaning
import Phrasing.Proofs.Traversal.Nesting

/-!
# Errors that surface

An error leaves every activity that calls the one in which it arose as it was when it arose, through
primitives, descriptions, expansions and visits that pass it on, however deep these are nested.  The
fault of a callback comes out as one error, which names the node type and the stage of the callback,
unless the callback passed on an error of the engine.  And there is no other way to fail.
-/

namespace Phrasing

open Relation Traversal

/-! ## Computations that fail -/

section Failures

variable {ε σ α β : Type}

theorem bind_eq_error {computation : EStateM ε σ α} {next : α → EStateM ε σ β} {start last : σ}
    {error : ε} :
    (computation >>= next) start = .error error last ↔
      computation start = .error error last ∨
        ∃ middle after, computation start = .ok middle after ∧ next middle after = .error error last := by
  cases run : computation start with
  | ok middle after => simp [bind_of_ok run]
  | error other after => simp [bind_of_error run]

theorem map_eq_error {computation : EStateM ε σ α} {view : α → β} {start last : σ} {error : ε} :
    (computation >>= fun result => pure (view result)) start = .error error last ↔
      computation start = .error error last := by
  rw [bind_eq_error]
  refine or_iff_left ?_
  rintro ⟨middle, after, -, failed⟩
  cases failed

theorem mapM_eq_error {run : α → EStateM ε σ β} {items : List α} {start last : σ} {error : ε} :
    items.mapM run start = .error error last ↔
      ∃ index item results middle, items[index]? = some item ∧
        (items.take index).mapM run start = .ok results middle ∧
          run item middle = .error error last := by
  induction items generalizing start with
  | nil =>
      refine iff_of_false (fun failed => nomatch failed) ?_
      rintro ⟨index, item, results, middle, present, -⟩
      simp at present
  | cons item rest induction =>
      rw [List.mapM_cons, bind_eq_error]
      constructor
      · rintro (failed | ⟨result, middle, first, failed⟩)
        · exact ⟨0, item, [], start, rfl, rfl, failed⟩
        · obtain ⟨index, later, results, before, present, front, failed⟩ :=
            induction.mp (map_eq_error.mp failed)
          refine ⟨index + 1, later, result :: results, before, present, ?_, failed⟩
          rw [List.take_succ_cons, List.mapM_cons, bind_of_ok first, bind_of_ok front]
          rfl
      · rintro ⟨index, later, results, before, present, front, failed⟩
        cases index with
        | zero =>
            obtain rfl := Option.some.inj present
            obtain ⟨-, rfl⟩ := EStateM.Result.ok.inj front
            exact .inl failed
        | succ index =>
            rw [List.take_succ_cons, List.mapM_cons] at front
            obtain ⟨result, middle, first, others⟩ := bind_eq_ok.mp front
            obtain ⟨results, after, between, same⟩ := bind_eq_ok.mp others
            obtain ⟨-, rfl⟩ := EStateM.Result.ok.inj same
            refine .inr ⟨result, middle, first, map_eq_error.mpr ?_⟩
            exact induction.mpr ⟨index, later, results, after, present, between, failed⟩

theorem surfacing_eq_error {τ : Type} {type : NodeType} {stage : Stage} {callback : EStateM Fault τ α}
    {start after : τ} {error : EngineError} :
    surfacing type stage callback start = .error error after ↔
      ∃ fault, callback start = .error fault after ∧ error = fault.surface type stage := by
  rw [surfacing]
  cases callback start with
  | ok result last => simp
  | error fault last => simp [eq_comm, and_comm]

end Failures

namespace Engine

variable {σ : Type} {engine : Engine σ}

section Expansions

variable {room : Nat} {position : Position} {element : Element} {world after : World σ}
  {error : EngineError}

theorem mapM_children_eq_error {expand : Element × Nat → Action σ EngineError Expansion} :
    element.children.zipIdx.mapM expand world = .error error after ↔
      ∃ index child expansions middle, element.children[index]? = some child ∧
        (element.children.zipIdx.take index).mapM expand world = .ok expansions middle ∧
          expand (child, index) middle = .error error after := by
  rw [mapM_eq_error]
  constructor
  · rintro ⟨index, ⟨child, place⟩, expansions, middle, present, earlier, failed⟩
    rw [List.getElem?_zipIdx, Option.map_eq_some_iff] at present
    obtain ⟨_, present, same⟩ := present
    obtain ⟨rfl, rfl⟩ := Prod.mk.inj same
    rw [Nat.zero_add] at failed
    exact ⟨index, _, expansions, middle, present, earlier, failed⟩
  · rintro ⟨index, child, expansions, middle, present, earlier, failed⟩
    refine ⟨index, (child, index), expansions, middle, ?_, earlier, failed⟩
    rw [List.getElem?_zipIdx, present, Option.map_some, Nat.zero_add]

theorem freshAt_succ (engine : Engine σ) (room : Nat) (position : Position) (element : Element) :
    engine.freshAt (room + 1) position element = do
      let data ← engine.dataOf element
      match engine.describer? element with
      | none => return .structural element data (← element.children.zipIdx.mapM fun entry =>
          engine.freshAt room (position.child entry.2) entry.1)
      | some (type, describe) =>
          let output ← surfacing type .describe (describe (element.describeContext data))
          return .described element data (← engine.freshAt room position.expansion output) := by
  rw [freshAt, dataOf, describer?]
  cases element.kind with
  | primitive builtIn => rfl
  | custom type =>
      dsimp only
      refine bind_congr fun data => ?_
      cases (engine.vocabulary type).describe <;> rfl

/-- The expansion of an element fails when its data cannot be derived, when one of its children cannot
be expanded, or when it cannot be described or its description cannot be expanded. -/
theorem freshAt_succ_eq_error :
    engine.freshAt (room + 1) position element world = .error error after ↔
      engine.dataOf element world = .error error after ∨
      ∃ data middle, engine.dataOf element world = .ok data middle ∧
        match engine.describer? element with
        | none => element.children.zipIdx.mapM
            (fun entry => engine.freshAt room (position.child entry.2) entry.1) middle =
              .error error after
        | some (type, describe) =>
            (∃ fault, describe (element.describeContext data) middle = .error fault after ∧
              error = fault.surface type .describe) ∨
            ∃ output later, describe (element.describeContext data) middle = .ok output later ∧
              engine.freshAt room position.expansion output later = .error error after := by
  rw [freshAt_succ, bind_eq_error]
  refine or_congr_right (exists_congr fun data => exists_congr fun middle => and_congr_right fun _ => ?_)
  cases engine.describer? element with
  | none => exact map_eq_error
  | some described =>
      obtain ⟨type, describe⟩ := described
      rw [bind_eq_error, surfacing_eq_error]
      refine or_congr_right (exists_congr fun output => exists_congr fun later => ?_)
      rw [surfacing_eq_ok, map_eq_error]

end Expansions

section Data

variable {type : NodeType} {element : Element} {world after : World σ} {error : EngineError}

theorem freshData_of_source {source : Transform σ}
    (sources : engine.processor.sourceFor? type = some source) :
    engine.freshData type element world = .error error after ↔
      ∃ fault, source (.element element) world = .error fault after ∧
        error = fault.surface type .source := by
  rw [freshData, Processor.derivation?, sources, ← surfacing_eq_error]
  dsimp only
  rw [map_eq_pure_bind, map_eq_error]

theorem freshData_of_observe {observe : ObserveContext → Action σ Fault Value}
    (unsourced : engine.processor.sourceFor? type = none)
    (observes : (engine.vocabulary type).observe = some observe) :
    engine.freshData type element world = .error error after ↔
      (∃ fault, observe element.observeContext world = .error fault after ∧
        error = fault.surface type .observe) ∨
      ∃ observed middle, observe element.observeContext world = .ok observed middle ∧
        ((∃ fault, engine.processor.sourced observed middle = .error fault after ∧
          error = fault.surface type .source) ∨
        ∃ raw later, engine.processor.sourced observed middle = .ok raw later ∧
          ∃ fault, engine.processor.registered raw later = .error fault after ∧
            error = fault.surface type .register) := by
  rw [freshData, Processor.derivation?, unsourced, observes]
  dsimp only
  rw [map_eq_pure_bind, map_eq_error]
  simp only [bind_eq_error, surfacing_eq_error, surfacing_eq_ok]
  rfl

theorem freshData_bare (unsourced : engine.processor.sourceFor? type = none)
    (bare : (engine.vocabulary type).observe = none) : engine.freshData type element = pure none := by
  rw [freshData, Processor.derivation?, unsourced, bare]

/-- The data of an element cannot be derived just when a callback that derives them reports a
fault. -/
theorem dataOf_eq_error (room : Nat) (position : Position) :
    engine.dataOf element world = .error error after ↔
      ∃ type stage fault, stage ≠ .describe ∧
        engine.Raises (.expand (room + 1) position element world) type stage fault after ∧
          error = fault.surface type stage := by
  rw [dataOf]
  cases kind : element.kind with
  | primitive builtIn =>
      refine iff_of_false (fun failed => nomatch failed) ?_
      rintro ⟨type, stage, fault, data_stage, raises, -⟩
      cases raises <;> simp_all
  | custom type =>
      dsimp only
      cases sources : engine.processor.sourceFor? type with
      | some source =>
          rw [freshData_of_source sources]
          constructor
          · rintro ⟨fault, failed, rfl⟩
            exact ⟨type, .source, fault, nofun, .sourceFor kind sources failed, rfl⟩
          · rintro ⟨type, stage, fault, data_stage, raises, rfl⟩
            cases raises <;> simp_all
      | none =>
          cases observes : (engine.vocabulary type).observe with
          | none =>
              rw [freshData_bare sources observes]
              refine iff_of_false (fun failed => nomatch failed) ?_
              rintro ⟨type, stage, fault, data_stage, raises, -⟩
              cases raises <;> simp_all
          | some observe =>
              rw [freshData_of_observe sources observes]
              constructor
              · rintro (⟨fault, failed, rfl⟩ | ⟨observed, middle, run, ⟨fault, failed, rfl⟩ |
                  ⟨raw, later, sourced, fault, failed, rfl⟩⟩)
                · exact ⟨type, .observe, fault, nofun, .observe kind sources observes failed, rfl⟩
                · exact ⟨type, .source, fault, nofun, .source kind sources observes run failed, rfl⟩
                · exact ⟨type, .register, fault, nofun,
                    .register kind sources observes run sourced failed, rfl⟩
              · rintro ⟨type, stage, fault, data_stage, raises, rfl⟩
                cases raises <;> simp_all

end Data

/-! ## Activities that fail -/

section Activities

variable {outer inner : Activity σ} {world after : World σ} {error : EngineError}

theorem lookupAdHoc_run {element : Element} {found : Option Expansion} {store : Store}
    (lookup : world.store.lookupAdHoc element = (found, store)) :
    (modifyGet fun (world : World σ) =>
      let (found, store) := world.store.lookupAdHoc element
      (found, { world with store }) : Action σ EngineError (Option Expansion)) world =
        .ok found { world with store } := by
  obtain ⟨rfl, rfl⟩ : found = (world.store.lookupAdHoc element).1 ∧
      store = (world.store.lookupAdHoc element).2 := Prod.ext_iff.mp lookup.symm
  rfl

/-- The expansion of an element that is handed over fails when it is not remembered and cannot be
expanded. -/
theorem expandAdHoc_eq_error {element : Element} :
    engine.expandAdHoc element world = .error error after ↔
      ∃ later, engine.recollect element world = (none, later) ∧
        engine.expandFresh element later = .error error after := by
  -- To store the expansion cannot fail.
  have storing (expansion : Expansion) (later : World σ) :
      (do
        modify fun world : World σ => { world with store := world.store.storeAdHoc element expansion }
        return expansion : Action σ EngineError Expansion) later ≠ .error error after :=
    nofun
  rw [expandAdHoc, recollect]
  split
  · rcases looked : world.store.lookupAdHoc element with ⟨found, store⟩
    rw [bind_of_ok (lookupAdHoc_run looked)]
    cases found with
    | some expansion =>
        refine iff_of_false nofun ?_
        rintro ⟨later, missing, -⟩
        cases missing
    | none =>
        dsimp only
        rw [bind_eq_error]
        simp only [storing, and_false, exists_false, or_false, Prod.mk.injEq, true_and,
          exists_eq_left']
  · simp only [Prod.mk.injEq, true_and, exists_eq_left']

theorem traverseAt_visited {room : Nat} {node : Expansion} {type : NodeType}
    {visit : Reading → VisitContext → Traverser σ → Action σ Fault (List Reading)}
    (kind : node.element.kind = .custom type) (visits : (engine.vocabulary type).visit = some visit)
    (reading : Reading) :
    engine.traverseAt (room + 1) node reading =
      surfacing type .visit (visit reading node.visitContext (engine.traverser room)) := by
  rw [traverseAt, kind]
  simp only [visits]
  rfl

/-- An activity fails as one fails that it calls. -/
theorem Calls.fails (calls : engine.Calls outer inner) (failed : inner.Fails engine error after) :
    outer.Fails engine error after := by
  cases calls with
  | @child room node reading world builtIn read kind reads =>
      have accounts := engine.accountsFor_childReads (engine.traverseAt room) builtIn node reading world
      rw [Activity.Fails, traverseAt_primitive engine kind]
      exact accounts.fails reads failed
  | description kind unvisited described =>
      rw [Activity.Fails, traverseAt_described engine kind unvisited described]
      exact failed
  | visitTraverse kind visits passes =>
      rw [Activity.Fails, traverseAt_visited kind visits, surfacing_eq_error]
      exact ⟨_, passes.fails failed, rfl⟩
  | visitTraverseExpanded kind visits passes =>
      rw [Activity.Fails, traverseAt_visited kind visits, surfacing_eq_error]
      exact ⟨_, passes.fails failed, rfl⟩
  | expansion missing => exact bind_of_error (expandAdHoc_eq_error.mpr ⟨_, missing, failed⟩)
  | expanded run => exact (bind_of_ok run).trans failed
  | expandChild derived plain present earlier =>
      rw [Activity.Fails, freshAt_succ_eq_error]
      refine .inr ⟨_, _, derived, ?_⟩
      rw [plain]
      exact mapM_children_eq_error.mpr ⟨_, _, _, _, present, earlier, failed⟩
  | expandDescription derived describes run =>
      rw [Activity.Fails, freshAt_succ_eq_error]
      refine .inr ⟨_, _, derived, ?_⟩
      rw [describes]
      exact .inr ⟨_, _, run, failed⟩

/-- An activity fails as the fault surfaces that a callback of its own reports. -/
theorem Raises.fails {type : NodeType} {stage : Stage} {fault : Fault}
    (raises : engine.Raises outer type stage fault after) :
    outer.Fails engine (fault.surface type stage) after := by
  -- Data are derived before anything else, whichever callback derives them.
  have of_data {room : Nat} {position : Position} {element : Element} {world : World σ}
      (raises : engine.Raises (.expand (room + 1) position element world) type stage fault after)
      (data_stage : stage ≠ .describe) :
      (Activity.expand (room + 1) position element world).Fails engine (fault.surface type stage)
        after := by
    rw [Activity.Fails, freshAt_succ_eq_error]
    exact .inl ((dataOf_eq_error room position).mpr ⟨type, stage, fault, data_stage, raises, rfl⟩)
  have raised := raises
  cases raises with
  | visit kind visits failed =>
      rw [Activity.Fails, traverseAt_visited kind visits, surfacing_eq_error]
      exact ⟨fault, failed, rfl⟩
  | sourceFor => exact of_data raised nofun
  | observe => exact of_data raised nofun
  | source => exact of_data raised nofun
  | register => exact of_data raised nofun
  | describe derived describes failed =>
      rw [Activity.Fails, freshAt_succ_eq_error]
      refine .inr ⟨_, _, derived, ?_⟩
      rw [describes]
      exact .inl ⟨fault, failed, rfl⟩

/-- Whatever fails does so alone, or as an activity fails that it calls. -/
theorem calls_or_arises (failed : outer.Fails engine error after) :
    (∃ inner, engine.Calls outer inner ∧ inner.Fails engine error after) ∨
      engine.Arises outer error after := by
  cases outer with
  | read room node reading world =>
      cases room with
      | zero =>
          obtain ⟨rfl, rfl⟩ := EStateM.Result.error.inj failed
          exact .inr .readTooDeep
      | succ room =>
          rw [Activity.Fails] at failed
          cases kind : node.element.kind with
          | primitive builtIn =>
              rw [traverseAt_primitive engine kind] at failed
              rcases (engine.accountsFor_childReads _ builtIn node reading world).arises failed with
                ⟨read, member, failed⟩ | ⟨blamed, reason, rfl⟩
              · exact .inl ⟨_, .child kind member, failed⟩
              · exact .inr (.malformed kind)
          | custom type =>
              cases visits : (engine.vocabulary type).visit with
              | some visit =>
                  rw [traverseAt_visited kind visits, surfacing_eq_error] at failed
                  obtain ⟨fault, failed, rfl⟩ := failed
                  exact .inr (.raised (.visit kind visits failed))
              | none =>
                  cases described : node.description? with
                  | some body =>
                      rw [traverseAt_described engine kind visits described] at failed
                      exact .inl ⟨_, .description kind visits described, failed⟩
                  | none =>
                      rw [traverseAt, kind] at failed
                      simp only [visits, described] at failed
                      obtain ⟨rfl, rfl⟩ := EStateM.Result.error.inj failed
                      exact .inr (.bare kind visits described)
  | traverse room element reading world =>
      rcases bind_eq_error.mp failed with failed | ⟨expansion, later, run, failed⟩
      · obtain ⟨later, missing, failed⟩ := expandAdHoc_eq_error.mp failed
        exact .inl ⟨_, .expansion missing, failed⟩
      · exact .inl ⟨_, .expanded run, failed⟩
  | expand room position element world =>
      cases room with
      | zero =>
          obtain ⟨rfl, rfl⟩ := EStateM.Result.error.inj failed
          exact .inr .expandTooDeep
      | succ room =>
          rcases freshAt_succ_eq_error.mp failed with failed | ⟨data, middle, derived, failed⟩
          · obtain ⟨type, stage, fault, -, raises, rfl⟩ :=
              (dataOf_eq_error room position).mp failed
            exact .inr (.raised raises)
          · cases describes : engine.describer? element with
            | none =>
                rw [describes] at failed
                obtain ⟨index, child, expansions, later, present, earlier, failed⟩ :=
                  mapM_children_eq_error.mp failed
                exact .inl ⟨_, .expandChild derived describes present earlier, failed⟩
            | some described =>
                rw [describes] at failed
                rcases failed with ⟨fault, faulty, rfl⟩ | ⟨output, later, run, failed⟩
                · exact .inr (.raised (.describe derived describes faulty))
                · exact .inl ⟨_, .expandDescription derived describes run, failed⟩

/-- A bound on how many activities can be called within each other.  An expansion that a reading
calls has the whole depth before it, so all readings rank above all expansions. -/
def rank (engine : Engine σ) : Activity σ → Nat
  | .read room _ _ _ => engine.config.maxDepth + 2 + 2 * room
  | .traverse room _ _ _ => engine.config.maxDepth + 3 + 2 * room
  | .expand room _ _ _ => room

theorem Calls.rank_lt (calls : engine.Calls outer inner) : engine.rank inner < engine.rank outer := by
  cases calls <;> simp only [rank] <;> omega

/-- Whatever fails does so as an innermost activity fails, in which the error arises. -/
theorem exists_origin (failed : outer.Fails engine error after) :
    ∃ origin, ReflTransGen engine.Calls outer origin ∧ origin.Fails engine error after ∧
      engine.Arises origin error after ∧
        ∀ inner, engine.Calls origin inner → ¬ inner.Fails engine error after := by
  -- Follow the activities that fail inwards, as far as there are any; the rank bounds how far.
  induction rank_eq : engine.rank outer using Nat.strongRecOn generalizing outer with
  | _ _ induction =>
      by_cases deeper : ∃ inner, engine.Calls outer inner ∧ inner.Fails engine error after
      · obtain ⟨inner, calls, inner_failed⟩ := deeper
        obtain ⟨origin, reached, arises⟩ :=
          induction _ (rank_eq ▸ calls.rank_lt) inner_failed rfl
        exact ⟨origin, .head calls reached, arises⟩
      · refine ⟨outer, .refl, failed, (calls_or_arises failed).resolve_left deeper, ?_⟩
        exact fun inner calls inner_failed => deeper ⟨inner, calls, inner_failed⟩

/-- An activity fails as one fails that is called within it, at whatever depth. -/
theorem fails_of_calls (calls : ReflTransGen engine.Calls outer inner)
    (failed : inner.Fails engine error after) : outer.Fails engine error after := by
  induction calls using ReflTransGen.head_induction_on with
  | refl => exact failed
  | head calls _ induction => exact calls.fails induction

end Activities

end Engine

theorem Parser.parse_eq_error {σ : Type} [Digest] {engine : Engine σ} {root : Expansion}
    {input : String} {world after : World σ} {error : EngineError} :
    (Parser.mk engine root).parse input world = .error error after ↔
      (Activity.read (engine.config.maxDepth + 1) root (.ofInput input) world).Fails engine error
        after := by
  rw [Parser.parse]
  exact map_eq_error

/-- Errors pass through activities that are nested to any depth.  As an activity fails that is called
within another one, so does the other one, with the same error.  A fault that is reported within it
comes out as one error with the node type, the stage and the message, or as the error of the engine
that was passed on.  And an activity fails only with an error that arises in this way.  The same holds
of a parser, which fails as the reading of its root does. -/
theorem Engine.nested_errors_surface {σ : Type} [Digest] (engine : Engine σ) (outer : Activity σ) :
    (∀ inner, ReflTransGen engine.Calls outer inner →
      (∀ error after, inner.Fails engine error after → outer.Fails engine error after) ∧
      (∀ type stage message after, engine.Raises inner type stage (.plain message) after →
        outer.Fails engine (.callback type.name stage (.plain message)) after) ∧
      ∀ type stage error after, engine.Raises inner type stage (.passedOn error) after →
        outer.Fails engine error after) ∧
    (∀ error after, outer.Fails engine error after →
      ∃ origin, ReflTransGen engine.Calls outer origin ∧ origin.Fails engine error after ∧
        engine.Arises origin error after ∧
          ∀ inner, engine.Calls origin inner → ¬ inner.Fails engine error after) ∧
    ∀ root input world,
      outer = .read (engine.config.maxDepth + 1) root (.ofInput input) world →
        ∀ error after, (Parser.mk engine root).parse input world = .error error after ↔
          outer.Fails engine error after := by
  refine ⟨fun inner calls => ⟨?_, ?_, ?_⟩, fun _ _ => exists_origin, ?_⟩
  · exact fun _ _ => fails_of_calls calls
  · exact fun _ _ _ _ raises => fails_of_calls calls raises.fails
  · exact fun _ _ _ _ raises => fails_of_calls calls raises.fails
  · rintro root input world rfl error after
    exact Parser.parse_eq_error

namespace Engine.Hearsay

/-- A type whose nodes have the engine read their first child. -/
def herald : NodeType :=
  ⟨1, "Herald"⟩

/-- A type whose nodes are described. -/
def saying : NodeType :=
  ⟨2, "Saying"⟩

/-- A type whose nodes have the engine read a rumour. -/
def teller : NodeType :=
  ⟨3, "Teller"⟩

/-- A type whose nodes stand for what onlookers tell. -/
def rumour : NodeType :=
  ⟨4, "Rumour"⟩

/-- A type whose nodes cannot be observed. -/
def onlooker : NodeType :=
  ⟨5, "Onlooker"⟩

/-- Has the first child read. -/
def announce (reading : Reading) (context : VisitContext) (traverser : Traverser Unit) :
    Action Unit Fault (List Reading) :=
  match context.node.children with
  | [] => pure []
  | child :: _ => passingOn (traverser.traverseExpanded child reading)

/-- Has a rumour read. -/
def tell (reading : Reading) (_context : VisitContext) (traverser : Traverser Unit) :
    Action Unit Fault (List Reading) :=
  passingOn (traverser.traverse (.ofType 1 rumour) reading)

/-- An engine for hearsay. -/
def gossip : Engine Unit where
  vocabulary type :=
    if type = herald then { visit := some announce }
    else if type = saying then { describe := some fun _ => pure (.ofType 2 teller) }
    else if type = teller then { visit := some tell }
    else if type = rumour then
      { describe := some fun _ => pure (.sequence 3 [.literal 4 "they say", .ofType 5 onlooker]) }
    else if type = onlooker then { observe := some fun _ => throw (.plain "saw nothing") }
    else {}
  processor := .identity

/-- A teller. -/
def tellerNode : Element :=
  .ofType 2 teller

/-- A saying, which stands for a teller. -/
def sayingNode : Element :=
  .ofType 6 saying

/-- A saying, or silence. -/
def options : Element :=
  .choice 8 [sayingNode, .literal 7 "silence"]

/-- A herald of either. -/
def heraldNode : Element :=
  .withChild 10 (.ofType 9 herald) options

/-- The news: a herald may come. -/
def news : Element :=
  .sequence 12 [.optional 11 heraldNode]

/-- The world in the beginning. -/
def silence : World Unit where
  store := .empty
  ambient := ()

def tellers : Expansion :=
  .structural tellerNode none []

def sayings : Expansion :=
  .described sayingNode none tellers

def choices : Expansion :=
  .structural options none [sayings, .structural (.literal 7 "silence") none []]

def heralds : Expansion :=
  .structural heraldNode none [choices]

def announcements : Expansion :=
  .structural (.optional 11 heraldNode) none [heralds]

/-- The expansion of the news. -/
def root : Expansion :=
  .structural news none [announcements]

/-- The world in which the news are compiled. -/
def compiled : World Unit :=
  finalState (gossip.compile news silence)

private theorem compile_news :
    gossip.compile news silence = .ok { engine := gossip, root } compiled :=
  rfl

/-- The world after a rumour has been looked up in vain. -/
def wondering : World Unit :=
  (gossip.recollect (.ofType 1 rumour) compiled).2

private theorem calls_only_child {room : Nat} {node child : Expansion} {builtIn : Primitive}
    (kind : node.element.kind = .primitive builtIn)
    (reads : gossip.childReads (gossip.traverseAt room) builtIn node (.ofInput "") compiled =
      [⟨child, .ofInput "", compiled⟩]) :
    gossip.Calls (.read (room + 1) node (.ofInput "") compiled)
      (.read room child (.ofInput "") compiled) := by
  have member : ⟨child, .ofInput "", compiled⟩ ∈
      gossip.childReads (gossip.traverseAt room) builtIn node (.ofInput "") compiled := by
    rw [reads]
    exact List.mem_singleton_self _
  exact .child kind member

private theorem reaches_teller :
    ReflTransGen gossip.Calls (.read 257 root (.ofInput "") compiled)
      (.read 252 tellers (.ofInput "") compiled) := by
  have announced : gossip.Calls (.read 255 heralds (.ofInput "") compiled)
      (.read 254 choices (.ofInput "") compiled) :=
    .visitTraverseExpanded rfl rfl (passesOn_self _ _)
  exact .head (calls_only_child rfl rfl) <| .head (calls_only_child rfl rfl) <| .head announced <|
    .head (calls_only_child rfl rfl) <| .single (.description rfl rfl rfl)

private theorem reaches_onlooker :
    ReflTransGen gossip.Calls (.read 252 tellers (.ofInput "") compiled)
      (.expand 255 (Position.root.expansion.child 1) (.ofType 5 onlooker) wondering) := by
  have told : gossip.Calls (.read 252 tellers (.ofInput "") compiled)
      (.traverse 251 (.ofType 1 rumour) (.ofInput "") compiled) :=
    .visitTraverse rfl rfl (passesOn_self _ _)
  have described : gossip.Calls (.expand 257 .root (.ofType 1 rumour) wondering)
      (.expand 256 Position.root.expansion (.sequence 3 [.literal 4 "they say", .ofType 5 onlooker])
        wondering) :=
    .expandDescription rfl rfl rfl
  exact .head told <| .head (.expansion rfl) <| .head described <|
    .single (.expandChild rfl rfl rfl rfl)

end Engine.Hearsay

open Engine.Hearsay in
/-- The parser of the news has a herald announce what a teller tells, who has no rumour to tell of,
because its onlooker saw nothing; and that is what is reported. -/
theorem Engine.nested_errors_surface_hearsay :
    ∃ inner, gossip.compile news silence = .ok { engine := gossip, root } compiled ∧
      ReflTransGen gossip.Calls (.read (gossip.config.maxDepth + 1) root (.ofInput "") compiled)
        inner ∧
      gossip.Raises inner onlooker .observe (.plain "saw nothing") wondering ∧
      (Parser.mk gossip root).parse "" compiled =
        .error (.callback "Onlooker" .observe (.plain "saw nothing")) wondering := by
  have nested := reaches_teller.trans reaches_onlooker
  have raised : gossip.Raises
      (.expand 255 (Position.root.expansion.child 1) (.ofType 5 onlooker) wondering) onlooker
        .observe (.plain "saw nothing") wondering :=
    .observe rfl rfl rfl rfl
  obtain ⟨surfaces, -, parses⟩ := gossip.nested_errors_surface (.read 257 root (.ofInput "") compiled)
  refine ⟨_, compile_news, nested, raised, ?_⟩
  refine (parses root "" compiled rfl _ _).mpr ?_
  exact (surfaces _ nested).2.1 onlooker .observe "saw nothing" wondering raised

end Phrasing
