import Phrasing.Proofs.Expansion.Invocations
import Phrasing.Proofs.Expansion.Operations
import Phrasing.Proofs.Traversal.Advancing

/-!
# Entering nodes

Traversal can be made to keep a trace of the nodes it enters, each with the number of nodes it is
entered within.  Where no visit is called, that number is the depth of a position of the node, so
what a compilation keeps within the limit on depth is traversed within it.  This holds as long as
everything that is stored was compiled under the same limit.
-/

namespace Phrasing

open Relation Traversal

/-- A node that was entered. -/
structure Entrance where
  /-- The number of nodes it was entered within. -/
  depth : Nat
  /-- The node. -/
  node : Expansion

/-- What callbacks keep for themselves, with the entrances so far, oldest first. -/
structure Trace (σ : Type) where
  /-- What the callbacks keep. -/
  kept : σ
  /-- The entrances so far. -/
  entrances : List Entrance

namespace World

variable {σ : Type}

/-- A world with a trace. -/
def traced (world : World σ) (entrances : List Entrance) : World (Trace σ) where
  store := world.store
  ambient := { kept := world.ambient, entrances }

/-- A world without its trace. -/
def untraced (world : World (Trace σ)) : World σ where
  store := world.store
  ambient := world.ambient.kept

/-- A world with one more entrance in its trace. -/
def enter (world : World (Trace σ)) (entrance : Entrance) : World (Trace σ) :=
  world.untraced.traced (world.ambient.entrances ++ [entrance])

end World

/-- A computation that leaves the trace as it is. -/
def untraced {σ ε α : Type} (computation : Action σ ε α) : Action (Trace σ) ε α := fun world =>
  match computation world.untraced with
  | .ok result after => .ok result (after.traced world.ambient.entrances)
  | .error error after => .error error (after.traced world.ambient.entrances)

section Tracing

variable {σ : Type}

/-- An engine that reads primitives alike in worlds with a trace. -/
def Engine.traced (engine : Engine σ) : Engine (Trace σ) where
  vocabulary _ := {}
  processor := .identity
  config := engine.config

theorem erases_lockstep {τ υ : Type} (project : τ → υ) :
    Lockstep fun (α : Type) (recorded : EStateM EngineError τ α) (plain : EStateM EngineError υ α) =>
      Erases project recorded plain :=
  ⟨.pure, .bind⟩

theorem erases_outcome {τ υ α : Type} (project : τ → υ) (decoded : Except EngineError α) :
    Erases project (Engine.outcome decoded) (Engine.outcome decoded) := by
  cases decoded with
  | ok result => exact .pure result
  | error error => exact .throw error

theorem erases_untraced {ε α : Type} (computation : Action σ ε α) :
    Erases World.untraced (Phrasing.untraced computation) computation := by
  intro world
  rw [Phrasing.untraced]
  cases computation world.untraced <;> rfl

/-- The readings that go on from a reading with a node, with `room` steps of depth left, and a trace
of the nodes that are entered.  What visits do is not traced. -/
def Engine.tracedAt (engine : Engine σ) :
    Nat → Expansion → Reading → Action (Trace σ) EngineError (List Reading)
  | 0, node, _ => throw (.traversalTooDeep engine.config.maxDepth node.element.kindName)
  | room + 1, node, reading => do
      modify fun world => world.enter ⟨engine.config.maxDepth - room, node⟩
      match node.element.kind with
      | .primitive builtIn =>
          engine.traced.readPrimitive (engine.tracedAt room) builtIn node reading
      | .custom type =>
          match (engine.vocabulary type).visit, node.description? with
          | some _, _ => Phrasing.untraced (engine.traverseAt (room + 1) node reading)
          | none, some body => engine.tracedAt room body reading
          | none, none => throw (.missingCapability type.name .describe)

/-- The nodes that are entered when a parser reads an input, oldest first. -/
def Parser.entrances (parser : Parser σ) (input : String) (world : World σ) : List Entrance :=
  (finalState (parser.engine.tracedAt (parser.engine.config.maxDepth + 1) parser.root (.ofInput input)
    (world.traced []))).ambient.entrances

/-- Keeping a trace changes nothing else. -/
theorem Engine.erases_tracedAt (engine : Engine σ) (room : Nat) (node : Expansion)
    (reading : Reading) :
    Erases World.untraced (engine.tracedAt room node reading)
      (engine.traverseAt room node reading) := by
  induction room generalizing node reading with
  | zero => exact .throw _
  | succ room induction =>
      have entered {plain : Action σ EngineError (List Reading)}
          {rest : Action (Trace σ) EngineError (List Reading)}
          (erases : Erases World.untraced rest plain) :
          Erases World.untraced (do
            modify fun world => world.enter ⟨engine.config.maxDepth - room, node⟩
            rest) plain :=
        fun world => erases (world.enter _)
      rw [tracedAt]
      refine entered ?_
      cases kind : node.element.kind with
      | primitive builtIn =>
          rw [traverseAt_primitive engine kind]
          exact (erases_lockstep World.untraced).readPrimitive (fun _ => erases_outcome _ _)
            engine.traced engine rfl _ _ (fun below _ => induction below) builtIn reading
      | custom type =>
          dsimp only
          cases visit : (engine.vocabulary type).visit with
          | some visit => exact erases_untraced _
          | none =>
              cases description : node.description? with
              | some body =>
                  rw [traverseAt_described engine kind visit description]
                  exact induction body reading
              | none =>
                  rw [traverseAt, kind]
                  dsimp only
                  rw [visit, description]
                  exact .throw _

end Tracing

namespace Expansion.Located

variable {root position : Position} {expansion node : Expansion}

theorem exists_child (located : expansion.Located root position node) {below : Expansion}
    (member : below ∈ node.children) :
    ∃ index, expansion.Located root (position.child index) below := by
  cases node with
  | structural element data children =>
      obtain ⟨index, present⟩ := List.getElem?_of_mem member
      exact ⟨index, located.trans (.child present .here)⟩
  | described element data body => exact nomatch member

theorem body_of_description (located : expansion.Located root position node) {inner : Expansion}
    (description : node.description? = some inner) :
    expansion.Located root position.expansion inner := by
  cases node with
  | structural element data children => exact nomatch description
  | described element data body =>
      obtain rfl := Option.some.inj description
      exact located.trans (.body .here)

end Expansion.Located

section Admitting

variable {σ α β : Type} {admits : Entrance → Prop}

/-- The regime of traversals that enter only nodes that are admitted, and do not go too deep. -/
def admitting (admits : Entrance → Prop) : Regime (World (Trace σ)) where
  Valid world := ∀ entrance ∈ world.ambient.entrances, admits entrance
  Leads _ _ := True
  Excuses error _ := ∀ limit kind, error ≠ .traversalTooDeep limit kind
  refl _ := trivial
  trans _ _ := trivial

/-- A computation enters only nodes that are admitted, and does not go too deep. -/
def Admits (admits : Entrance → Prop) (computation : Action (Trace σ) EngineError α) : Prop :=
  ∀ world, (admitting admits).Valid world →
    (admitting admits).Runs world (fun _ _ => True) (computation world)

theorem admits_pure (result : α) : Admits admits (pure result : Action (Trace σ) EngineError α) :=
  fun _ valid => .pure valid trivial

theorem admits_throw {error : EngineError}
    (shallow : ∀ limit kind, error ≠ .traversalTooDeep limit kind) :
    Admits admits (throw error : Action (Trace σ) EngineError α) :=
  fun _ valid => .excused valid trivial shallow

theorem Admits.bind {computation : Action (Trace σ) EngineError α}
    {next : α → Action (Trace σ) EngineError β} (first : Admits admits computation)
    (rest : ∀ result, Admits admits (next result)) : Admits admits (computation >>= next) :=
  fun world valid => (first world valid).bind fun result after after_valid _ _ =>
    rest result after after_valid

theorem admits_lockstep :
    Lockstep fun (α : Type) (computation _ : Action (Trace σ) EngineError α) =>
      Admits admits computation :=
  ⟨admits_pure, Admits.bind⟩

theorem admits_outcome {decoded : Except EngineError α} (decodes : IsDecoding decoded) :
    Admits admits (Engine.outcome decoded : Action (Trace σ) EngineError α) := by
  cases decoded with
  | ok result => exact admits_pure result
  | error error =>
      obtain ⟨builtIn, reason, rfl⟩ := decodes error rfl
      exact admits_throw nofun

theorem admits_enter {entrance : Entrance} (admitted : admits entrance) :
    Admits admits (modify fun world : World (Trace σ) => world.enter entrance) := by
  intro world valid
  refine .ok (fun other member => ?_) trivial trivial
  rcases List.mem_append.mp member with earlier | here
  · exact valid other earlier
  · rw [List.mem_singleton.mp here]
    exact admitted

end Admitting

/-- A node of an expansion is entered within as many nodes as one of its positions is deep. -/
def Entrance.LevelIn (root : Expansion) (entrance : Entrance) : Prop :=
  ∃ position, root.Located .root position entrance.node ∧ entrance.depth = position.depth

/-- Every node of a silent expansion is entered within as many nodes as its position is deep.  The
limit on depth is not exceeded if no position is deeper. -/
theorem Engine.admits_tracedAt {σ : Type} (engine : Engine σ) {root : Expansion}
    (shallow : ∀ position node, root.Located .root position node →
      position.depth ≤ engine.config.maxDepth)
    {room : Nat} {position : Position} {node : Expansion} (located : root.Located .root position node)
    (level : position.depth + room = engine.config.maxDepth + 1)
    (silent : node.Silent engine.vocabulary) (reading : Reading) :
    Admits (Entrance.LevelIn root) (engine.tracedAt room node reading) := by
  induction room generalizing position node reading with
  | zero =>
      have not_deeper := shallow position node located
      omega
  | succ room induction =>
      have depth_eq : engine.config.maxDepth - room = position.depth := by omega
      rw [tracedAt]
      refine (admits_enter ⟨position, located, depth_eq⟩).bind fun _ => ?_
      cases kind : node.element.kind with
      | primitive builtIn =>
          refine admits_lockstep.readPrimitive admits_outcome engine.traced engine.traced rfl _
            (engine.tracedAt room) (fun below member reading => ?_) builtIn reading
          obtain ⟨index, below_located⟩ := located.exists_child member
          refine induction below_located ?_ (silent.child member) reading
          rw [Position.depth_child]
          omega
      | custom type =>
          dsimp only
          rw [silent.quiet kind]
          cases description : node.description? with
          | none => exact admits_throw nofun
          | some body =>
              refine induction (located.body_of_description description) ?_ (silent.body description)
                reading
              rw [Position.depth_expansion]
              omega

section Histories

variable {σ : Type} [Digest] {limit : Nat} {world after : World σ}

/-- One operation on a store that is filled under one limit on depth.  Besides, elements are
remembered by content and counted. -/
inductive Maintains (limit : Nat) : World σ → World σ → Prop
  | proceed {world after : World σ}
      (proceeds : Proceeds (fun engine _ _ => engine.config.maxDepth = limit) world after) :
      Maintains limit world after
  | remember {world : World σ} {adHoc : List (ContentHash × AdHocEntry)} {adHocStats : Memo.Stats} :
      Maintains limit world { world with store := { world.store with adHoc, adHocStats } }

/-- The worlds that operations and readings lead to, starting with a store that remembers nothing.
Callbacks and visits may compile as well, under the same limit. -/
inductive Maintained (limit : Nat) : World σ → Prop
  | start (ambient : σ) : Maintained limit { store := .empty, ambient }
  | operate {world after : World σ} (maintained : Maintained limit world)
      (maintains : Maintains limit world after) : Maintained limit after
  | parse {world : World σ} (maintained : Maintained limit world) (parser : Parser σ)
      (callbacks : parser.engine.CallbacksStay (Maintains limit))
      (visits : parser.engine.VisitsStay (Maintains limit)) (input : String) :
      Maintained limit (finalState (parser.parse input world))

/-- The standard that no node is deeper than a limit. -/
def Standard.within (limit : Nat) : Standard σ :=
  .steady fun position _ _ => position.depth ≤ limit

omit [Digest] in
theorem Engine.upholds_within {engine : Engine σ} (within : engine.config.maxDepth = limit) :
    engine.Upholds (.within limit) :=
  upholds_steady fun _ _ _ shallow _ => Nat.le_trans shallow (Nat.le_of_eq within)

theorem Maintains.wellKept (maintains : Maintains limit world after)
    (kept : (Standard.within limit).WellKept world.ambient world.store) :
    (Standard.within limit).WellKept after.ambient after.store := by
  cases maintains with
  | proceed proceeds =>
      exact proceeds.wellKept (fun _ _ _ permitted _ => Engine.upholds_within permitted) kept
  | remember => exact kept.of_tables rfl rfl

theorem Maintained.wellKept (maintained : Maintained limit world) :
    (Standard.within limit).WellKept world.ambient world.store := by
  induction maintained with
  | start ambient => exact Standard.wellKept_empty ambient
  | operate _ maintains induction => exact maintains.wellKept induction
  | @parse world _ parser callbacks visits input induction =>
      have steps := Engine.stays_parse (Engine.stays_expandAdHoc callbacks .remember) visits input
        world
      generalize finalState _ = after at steps ⊢
      induction steps with
      | refl => exact induction
      | tail _ maintains kept => exact maintains.wellKept kept

/-- What is compiled under the limit under which the store was filled has no deeper node. -/
theorem Maintained.depth_le {engine : Engine σ} (maintained : Maintained engine.config.maxDepth world)
    {root : Element} {parser : Parser σ} (run : engine.compile root world = .ok parser after)
    {position : Position} {node : Expansion} (located : parser.root.Located .root position node) :
    position.depth ≤ engine.config.maxDepth := by
  obtain ⟨pass, expanding, rfl⟩ := Engine.of_compile_ok run
  exact Engine.expand_meets_standard (Engine.upholds_within rfl) (fun _ => maintained.wellKept.begin)
    trivial expanding position node located

/-- A compiled expansion without visits never exceeds the limit on depth when it is read, if all that
was compiled before was compiled under the same limit.  Each node is entered within as many nodes as
its position is deep. -/
theorem Engine.parse_within_limit (engine : Engine σ) {root : Element} {parser : Parser σ}
    (maintained : Maintained engine.config.maxDepth world)
    (run : engine.compile root world = .ok parser after)
    (silent : parser.root.Silent parser.engine.vocabulary) (input : String) (later : World σ) :
    (∀ limit kind, outcomeOf (parser.parse input later) ≠ .error (.traversalTooDeep limit kind)) ∧
      ∀ entrance ∈ parser.entrances input later, ∃ position,
        parser.root.Located .root position entrance.node ∧ entrance.depth = position.depth ∧
          position.depth ≤ engine.config.maxDepth := by
  obtain rfl := engine_of_compile_ok run
  have admits := (parser.engine.admits_tracedAt (fun _ _ => maintained.depth_le run) .here
    (Nat.zero_add _) silent (.ofInput input)) (later.traced []) nofun
  have erases := parser.engine.erases_tracedAt (parser.engine.config.maxDepth + 1) parser.root
    (.ofInput input) (later.traced [])
  constructor
  · intro limit kind failed
    rw [Parser.parse, traverse] at failed
    change parser.engine.traverseAt _ parser.root _ later = _ at erases
    cases traced : parser.engine.tracedAt (parser.engine.config.maxDepth + 1) parser.root
      (.ofInput input) (later.traced []) with
    | ok readings last =>
        rw [traced] at erases
        rw [bind_of_ok erases] at failed
        cases failed
    | error error last =>
        rw [traced] at erases admits
        rw [bind_of_error erases] at failed
        obtain rfl := Except.error.inj failed
        cases admits with
        | excused _ _ shallow => exact shallow limit kind rfl
  · intro entrance member
    obtain ⟨position, located, depth_eq⟩ := admits.valid entrance member
    exact ⟨position, located, depth_eq, maintained.depth_le run located⟩

end Histories

namespace Engine.Letter

/-- An engine for letters that allows two steps of depth. -/
private def snugGreeter : Engine Nat :=
  greeter.withConfig { maxDepth := 2 }

private def empty : World Nat where
  store := .empty
  ambient := 0

private theorem snugGreeter_unvisited (type : NodeType) :
    (snugGreeter.vocabulary type).visit = none := by
  simp only [snugGreeter, withConfig, greeter]
  split <;> rfl

private theorem silent_letter (node : Expansion) : node.Silent snugGreeter.vocabulary := by
  cases node with
  | structural element data children =>
      exact .structural (fun type _ => snugGreeter_unvisited type) fun child _ => silent_letter child
  | described element data body =>
      exact .described (fun type _ => snugGreeter_unvisited type) (silent_letter body)

/-- How deep the nodes are that are entered when a compiled letter is read, if it was compiled. -/
private def enteredDepths (outcome : Except EngineError (Parser Nat)) : List Nat :=
  match outcome with
  | .ok parser => (parser.entrances "helloAnn" empty).map Entrance.depth
  | .error _ => []

private theorem enteredDepths_draft :
    enteredDepths (outcomeOf (snugGreeter.compile draft
      (finalState (snugGreeter.compile draft empty)))) = [0, 1, 2, 1] := by
  decide +kernel

end Engine.Letter

open Engine.Letter in
/-- A letter is compiled under a limit of two steps, then again with what is remembered of it.  The
literal of its greeting is entered at the limit, and no input leads beyond. -/
theorem Engine.parse_within_limit_letter :
    ∃ world parser after, Maintained 2 world ∧ snugGreeter.compile draft world = .ok parser after ∧
      (parser.entrances "helloAnn" empty).map Entrance.depth = [0, 1, 2, 1] ∧
      ∀ input later limit kind,
        outcomeOf (parser.parse input later) ≠ .error (.traversalTooDeep limit kind) := by
  have maintained : Maintained 2 (finalState (snugGreeter.compile draft empty)) :=
    .operate (.start 0) (.proceed (.compile snugGreeter draft rfl))
  have entered := enteredDepths_draft
  cases run : snugGreeter.compile draft (finalState (snugGreeter.compile draft empty)) with
  | error error after =>
      rw [run] at entered
      cases entered
  | ok parser after =>
      rw [run] at entered
      have silent : parser.root.Silent parser.engine.vocabulary := by
        rw [engine_of_compile_ok run]
        exact silent_letter parser.root
      exact ⟨_, parser, after, maintained, run, entered, fun input later =>
        (snugGreeter.parse_within_limit maintained run silent input later).1⟩

end Phrasing
