import Phrasing.Proofs.Expansion.Heights
import Phrasing.Proofs.Expansion.Trailing

/-!
# What a limit on depth cuts off

With pure callbacks, fresh expansion under a limit goes through the nodes of the whole expansion in
order, and stops at the first one that is deeper than the limit.  Without such a node it gives the
whole expansion, whatever the limit is.  An expansion that does not end goes beyond every limit.
-/

namespace Phrasing

section Cut

variable {α β : Type}

/-- A result, or the first of some positions that is at a depth out of reach. -/
def cut (limit depth : Nat) (positions : List Position) (result : α) : Except EngineError α :=
  match positions.find? fun position => position.depth = depth with
  | none => .ok result
  | some position => .error (.expansionTooDeep limit position)

variable {limit depth : Nat} {positions others : List Position} {result : α} {other : β}

theorem cut_cons_of_eq {position : Position} (deep : position.depth = depth) :
    cut limit depth (position :: positions) result =
      .error (.expansionTooDeep limit position) := by
  rw [cut, List.find?_cons_of_pos (by simpa using deep)]

theorem cut_cons_of_ne {position : Position} (shallow : position.depth ≠ depth) :
    cut limit depth (position :: positions) result = cut limit depth positions result := by
  rw [cut, List.find?_cons_of_neg (by simpa using shallow), cut]

theorem cut_eq_ok (shallow : ∀ position ∈ positions, position.depth ≠ depth) :
    cut limit depth positions result = .ok result := by
  have nowhere : positions.find? (fun position => position.depth = depth) = none :=
    List.find?_eq_none.mpr fun position member => by simpa using shallow position member
  rw [cut, nowhere]

theorem cut_eq_error (limit : Nat) (result : α)
    (deep : ∃ position ∈ positions, position.depth = depth) :
    ∃ position, positions.find? (fun position => position.depth = depth) = some position ∧
      cut limit depth positions result = .error (.expansionTooDeep limit position) := by
  have somewhere : (positions.find? fun position => position.depth = depth).isSome := by
    simpa using deep
  obtain ⟨position, found⟩ := Option.isSome_iff_exists.mp somewhere
  exact ⟨position, found, by rw [cut, found]⟩

theorem cut_map (convert : α → β) :
    (do let value ← cut limit depth positions result; pure (convert value)) =
      cut limit depth positions (convert result) := by
  rw [cut, cut]
  cases positions.find? fun position => position.depth = depth <;> rfl

theorem cut_cons_append {results : List α} :
    (do
      let first ← cut limit depth positions result
      let rest ← cut limit depth others results
      pure (first :: rest)) = cut limit depth (positions ++ others) (result :: results) := by
  rw [cut, cut, cut, List.find?_append]
  cases positions.find? fun position => position.depth = depth with
  | some position => rfl
  | none => cases others.find? fun position => position.depth = depth <;> rfl

end Cut

namespace Expansion

mutual

theorem height_form (focus : Focus) :
    ∀ expansion : Expansion, (expansion.form focus).height = expansion.height
  | .structural _ _ children => by
      rw [form, height, height]
      exact heights_forms focus children
  | .described _ _ body => by rw [form, height, height, height_form focus body]

theorem heights_forms (focus : Focus) :
    ∀ children : List Expansion, heights (forms focus children) = heights children
  | [] => rfl
  | first :: rest => by
      rw [forms, heights, heights, height_form focus first, heights_forms focus rest]

end

mutual

theorem positions_form (focus : Focus) :
    ∀ (position : Position) (expansion : Expansion),
      (expansion.form focus).positions position = expansion.positions position
  | position, .structural _ _ children => by
      rw [form, positions, positions, positionsAmong_forms focus position 0 children]
  | position, .described _ _ body => by
      rw [form, positions, positions, positions_form focus position.expansion body]

theorem positionsAmong_forms (focus : Focus) :
    ∀ (position : Position) (start : Nat) (children : List Expansion),
      positionsAmong position start (forms focus children) = positionsAmong position start children
  | _, _, [] => rfl
  | position, start, first :: rest => by
      rw [forms, positionsAmong, positionsAmong, positions_form focus (position.child start) first,
        positionsAmong_forms focus position (start + 1) rest]

end

end Expansion

namespace Engine

variable {σ : Type} {engine : Engine σ} {census : Census σ} {meaning : Meaning}

/-- The engine with another limit on depth. -/
def limitedTo (engine : Engine σ) (limit : Nat) : Engine σ :=
  engine.withConfig { engine.config with maxDepth := limit }

/-! ## Under another limit -/

theorem children_cut {limit depth : Nat} {position : Position}
    {run other : Position → Element → Except EngineError Expansion}
    (cuts : ∀ index child expansion, run (position.child index) child = .ok expansion →
      other (position.child index) child =
        cut limit depth (expansion.positions (position.child index)) expansion)
    {elements : List Element} {start : Nat} {expansions : List Expansion}
    (given : (elements.zipIdx start).mapM (fun entry => run (position.child entry.2) entry.1) =
      .ok expansions) :
    (elements.zipIdx start).mapM (fun entry => other (position.child entry.2) entry.1) =
      cut limit depth (Expansion.positionsAmong position start expansions) expansions := by
  induction elements generalizing start expansions with
  | nil =>
      obtain rfl : [] = expansions := Except.ok.inj given
      rfl
  | cons element rest induction =>
      rw [List.zipIdx_cons, List.mapM_cons] at given ⊢
      obtain ⟨first, first_run, given⟩ := except_bind_eq_ok.mp given
      obtain ⟨later, later_run, given⟩ := except_bind_eq_ok.mp given
      obtain rfl : first :: later = expansions := Except.ok.inj given
      rw [cuts start element first first_run, induction later_run, cut_cons_append]
      rw [Expansion.positionsAmong]

/-- Whatever the limit is, the same expansion is gone through, up to the first node out of reach. -/
theorem meantAt_limitedTo (engine : Engine σ) (meaning : Meaning) (limit : Nat) {room : Nat}
    {position : Position} {element : Element} {expansion : Expansion}
    (run : engine.meantAt meaning room position element = .ok expansion) (steps : Nat) :
    (engine.limitedTo limit).meantAt meaning steps position element =
      cut limit (position.depth + steps) (expansion.positions position) expansion := by
  induction room generalizing position element expansion steps with
  | zero => cases run
  | succ room induction =>
      cases steps with
      | zero =>
          obtain ⟨below, positions_eq⟩ := expansion.positions_eq_cons position
          rw [positions_eq, cut_cons_of_eq (Nat.add_zero _).symm]
          rfl
      | succ steps =>
          have shallow : position.depth ≠ position.depth + (steps + 1) := by omega
          have deeper : position.depth + 1 + steps = position.depth + (steps + 1) := by omega
          have children {expansions : List Expansion}
              (given : element.children.zipIdx.mapM (fun entry =>
                engine.meantAt meaning room (position.child entry.2) entry.1) = .ok expansions) :
              element.children.zipIdx.mapM (fun entry => (engine.limitedTo limit).meantAt meaning steps
                  (position.child entry.2) entry.1) =
                cut limit (position.depth + (steps + 1))
                  (Expansion.positionsAmong position 0 expansions) expansions := by
            refine children_cut (fun index child expansion child_run => ?_) given
            rw [induction child_run steps, Position.depth_child, deeper]
          rw [meantAt] at run ⊢
          cases kind : element.kind with
          | primitive builtIn =>
              simp only [kind] at run ⊢
              obtain ⟨expansions, children_run, given⟩ := except_bind_eq_ok.mp run
              obtain rfl := Except.ok.inj given
              rw [children children_run, cut_map, Expansion.positions, cut_cons_of_ne shallow]
          | custom type =>
              simp only [kind] at run ⊢
              obtain ⟨data, data_run, run⟩ := except_bind_eq_ok.mp run
              have data_eq : (engine.limitedTo limit).meantData meaning type element = pure data :=
                data_run
              have vocabulary_eq : (engine.limitedTo limit).vocabulary = engine.vocabulary := rfl
              rw [data_eq, pure_bind, vocabulary_eq]
              cases present : (engine.vocabulary type).describe with
              | none =>
                  simp only [present] at run ⊢
                  obtain ⟨expansions, children_run, given⟩ := except_bind_eq_ok.mp run
                  obtain rfl := Except.ok.inj given
                  rw [children children_run, cut_map, Expansion.positions, cut_cons_of_ne shallow]
              | some describe =>
                  simp only [present] at run ⊢
                  obtain ⟨output, output_run, run⟩ := except_bind_eq_ok.mp run
                  obtain ⟨body, body_run, given⟩ := except_bind_eq_ok.mp run
                  obtain rfl := Except.ok.inj given
                  rw [meantExpansion, output_run]
                  change (do
                    let body ← (engine.limitedTo limit).meantAt meaning steps position.expansion output
                    pure (Expansion.described element data body)) = _
                  rw [induction body_run steps, Position.depth_expansion, deeper, cut_map,
                    Expansion.positions, cut_cons_of_ne shallow]

end Engine

/-! ## Expansions that do not end -/

section Failing

variable {σ ε α β : Type} {own : ε → Prop}

/-- A computation fails with an error of its own, or a callback that was run failed. -/
def FailsBy (own : ε → Prop) (computation : Action (Recording σ) ε α) : Prop :=
  ∀ start error after, computation start = .error error after →
    Quiet after.ambient.invocations → own error

theorem failsBy_pure (result : α) : FailsBy own (pure result : Action (Recording σ) ε α) :=
  nofun

theorem FailsBy.bind {computation : Action (Recording σ) ε α} {next : α → Action (Recording σ) ε β}
    (first : FailsBy own computation) (rest : ∀ result, FailsBy own (next result)) :
    FailsBy own (computation >>= next) := by
  intro start error after failed quiet
  cases run : computation start with
  | ok result middle =>
      rw [bind_of_ok run] at failed
      exact rest result middle error after failed quiet
  | error first_error last =>
      rw [bind_of_error run] at failed
      obtain ⟨rfl, rfl⟩ := EStateM.Result.error.inj failed
      exact first start _ _ run quiet

theorem FailsBy.mapM {run : α → Action (Recording σ) ε β} {items : List α}
    (fails : ∀ item, FailsBy own (run item)) : FailsBy own (items.mapM run) := by
  induction items with
  | nil => exact failsBy_pure []
  | cons item rest induction =>
      rw [List.mapM_cons]
      exact (fails item).bind fun _ => induction.bind fun _ => failsBy_pure _

/-- The failure of a callback is on record. -/
theorem failsBy_recording [Structured α] (request : α → Request)
    (typing : List Invocation → Option NodeType) (callback : α → Action σ Fault β) (argument : α)
    {own : Fault → Prop} : FailsBy own (recording request typing callback argument) := by
  intro start fault after failed quiet
  rw [recording] at failed
  cases run : callback argument start.erase with
  | ok result last =>
      rw [run] at failed
      cases failed
  | error reported last =>
      rw [run] at failed
      obtain ⟨rfl, rfl⟩ := EStateM.Result.error.inj failed
      have faultless := quiet _ (List.mem_append_right _ List.mem_cons_self)
      exact absurd faultless (Option.some_ne_none _)

theorem FailsBy.surfacing {own : EngineError → Prop} {callback : Action (Recording σ) Fault α}
    (fails : FailsBy (fun _ => False) callback) (type : NodeType) (stage : Stage) :
    FailsBy own (Phrasing.surfacing type stage callback) := by
  intro start error after failed quiet
  rw [Phrasing.surfacing] at failed
  cases run : callback start with
  | ok result last =>
      rw [run] at failed
      cases failed
  | error fault last =>
      rw [run] at failed
      obtain ⟨-, rfl⟩ := EStateM.Result.error.inj failed
      exact (fails start fault _ run quiet).elim

theorem failsBy_transforming (request : Value → Request) (transform : Option (Transform σ))
    (value : Value) {own : Fault → Prop} :
    FailsBy own (transforming (transform.map (recording request lastType)) value) := by
  cases transform with
  | none => exact failsBy_pure value
  | some transform => exact failsBy_recording request lastType transform value

theorem failsBy_derivation {own : EngineError → Prop} {engine : Engine σ} {type : NodeType}
    {derive : Element → Action (Recording σ) EngineError Value}
    (derivation : engine.recorded.processor.derivation? engine.recorded.vocabulary type = some derive)
    (element : Element) : FailsBy own (derive element) := by
  obtain ⟨source, -, rfl⟩ | ⟨observe, -, rfl⟩ := Engine.recorded_derivation derivation
  · exact (failsBy_recording _ _ source _).surfacing type .source
  · refine ((failsBy_recording _ _ observe _).surfacing type .observe).bind fun observed => ?_
    refine ((failsBy_transforming .source engine.processor.source observed).surfacing type
      .source).bind fun raw => ?_
    exact (failsBy_transforming .register engine.processor.register raw).surfacing type .register

/-- An expansion has reached a position at a depth out of reach. -/
def CutOff (limit depth : Nat) (error : EngineError) : Prop :=
  ∃ position : Position, position.depth = depth ∧ error = .expansionTooDeep limit position

/-- Unless a callback fails, fresh expansion fails only where no step is left. -/
theorem failsBy_freshAt (engine : Engine σ) (room : Nat) (position : Position) (element : Element) :
    FailsBy (CutOff engine.config.maxDepth (position.depth + room))
      (engine.recorded.freshAt room position element) := by
  induction room generalizing position element with
  | zero =>
      intro start error after failed _
      obtain ⟨rfl, -⟩ := EStateM.Result.error.inj failed
      exact ⟨position, rfl, rfl⟩
  | succ room induction =>
      have deeper : position.depth + 1 + room = position.depth + (room + 1) := by omega
      have children : FailsBy (CutOff engine.config.maxDepth (position.depth + (room + 1)))
          (element.children.zipIdx.mapM fun entry =>
            engine.recorded.freshAt room (position.child entry.2) entry.1) := by
        refine .mapM fun entry => ?_
        have child_fails := induction (position.child entry.2) entry.1
        rwa [Position.depth_child, deeper] at child_fails
      rw [Engine.freshAt]
      cases element.kind with
      | primitive builtIn => exact children.bind fun _ => failsBy_pure _
      | custom type =>
          refine FailsBy.bind ?_ fun data => ?_
          · rw [Engine.freshData]
            cases derivation :
                engine.recorded.processor.derivation? engine.recorded.vocabulary type with
            | none => exact failsBy_pure none
            | some derive =>
                exact (failsBy_derivation derivation element).bind fun _ => failsBy_pure _
          · rw [engine.describe_recorded]
            cases (engine.vocabulary type).describe with
            | none => exact children.bind fun _ => failsBy_pure _
            | some describe =>
                refine ((failsBy_recording _ _ describe _).surfacing type .describe).bind
                  fun output => ?_
                have body_fails := induction position.expansion output
                rw [Position.depth_expansion, deeper] at body_fails
                exact body_fails.bind fun _ => failsBy_pure _

end Failing

namespace Engine

variable {σ : Type} {engine : Engine σ} {census : Census σ} {meaning : Meaning}

/-- Fresh expansion under any limit, as a function of the structure of the root. -/
theorem expandFresh_limitedTo_form (orderly : engine.Orderly census)
    (computes : engine.Computes census meaning) {root : Element} {world : World σ}
    (knows : census.Knows world.ambient root) (limit : Nat) :
    (outcomeOf ((engine.limitedTo limit).expandFresh root world)).map (Expansion.form .structural) =
      (engine.limitedTo limit).meantAt meaning (limit + 1) .root (root.form .structural) := by
  have meets := freshAt_meets (orderly.withConfig { engine.config with maxDepth := limit })
    (computes.withConfig _) (limit + 1) .root root world knows
  rcases meets.agrees with same | ⟨_, _, _, impossible⟩
  · exact same
  · exact impossible.elim

/-- With pure callbacks, if fresh expansion succeeds under some limit, it gives the same expansion under
every limit that is not smaller than its height, and under a smaller limit it fails at the first
position, each node taken before those below it and these from left to right, that is one step deeper
than the limit.  If it does not succeed and no callback fails, it fails at a position one step deeper
than the limit. -/
theorem expandFresh_limitedTo (orderly : engine.Orderly census)
    (computes : engine.Computes census meaning) {root : Element} {world : World σ}
    (knows : census.Knows world.ambient root) :
    (∀ limit expansion after, (engine.limitedTo limit).expandFresh root world = .ok expansion after →
      ∀ (other : World σ) (bound : Nat), census.Knows other.ambient root →
        (expansion.height ≤ bound →
          (outcomeOf ((engine.limitedTo bound).expandFresh root other)).map
              (Expansion.form .structural) = .ok (expansion.form .structural)) ∧
        (bound < expansion.height →
          ∃ position, (expansion.positions .root).find? (fun position => position.depth = bound + 1) =
              some position ∧
            outcomeOf ((engine.limitedTo bound).expandFresh root other) =
              .error (.expansionTooDeep bound position))) ∧
    ∀ limit, (∀ expansion after,
        (engine.limitedTo limit).expandFresh root world ≠ .ok expansion after) →
      Quiet (finalState ((engine.limitedTo limit).recorded.expandFresh root
        (world.record []))).ambient.invocations →
      ∃ position : Position, position.depth = limit + 1 ∧
        outcomeOf ((engine.limitedTo limit).expandFresh root world) =
          .error (.expansionTooDeep limit position) := by
  constructor
  · intro limit expansion after run other bound knows_other
    have given := expandFresh_limitedTo_form orderly computes knows limit
    have asked := expandFresh_limitedTo_form orderly computes knows_other bound
    rw [run] at given
    have cut_eq := meantAt_limitedTo (engine.limitedTo limit) meaning bound given.symm (bound + 1)
    change (engine.limitedTo bound).meantAt meaning (bound + 1) .root (root.form .structural) = _
      at cut_eq
    rw [cut_eq, Expansion.positions_form] at asked
    have depth_eq : Position.root.depth + (bound + 1) = bound + 1 := Nat.zero_add _
    rw [depth_eq] at asked
    constructor
    · intro high
      rw [asked]
      refine cut_eq_ok fun position member => ?_
      have shallow := Expansion.depth_le_height member
      have root_depth : Position.root.depth = 0 := rfl
      omega
    · intro low
      obtain ⟨deep, member, deep_depth⟩ := Expansion.exists_depth_eq .root (Nat.succ_le_of_lt low)
      obtain ⟨position, found, failed⟩ := cut_eq_error bound (expansion.form .structural)
        ⟨deep, member, deep_depth.trans depth_eq⟩
      refine ⟨position, found, ?_⟩
      rw [failed] at asked
      cases outcome : outcomeOf ((engine.limitedTo bound).expandFresh root other) with
      | ok result =>
          rw [outcome] at asked
          cases asked
      | error error =>
          rw [outcome] at asked
          exact asked
  · intro limit endless quiet
    have erases := (engine.limitedTo limit).erases_freshAt (limit + 1) .root root (world.record [])
    change (engine.limitedTo limit).expandFresh root world = mapState World.erase
      ((engine.limitedTo limit).recorded.expandFresh root (world.record [])) at erases
    cases run : (engine.limitedTo limit).recorded.expandFresh root (world.record []) with
    | ok expansion after =>
        rw [run] at erases
        exact absurd erases (endless expansion after.erase)
    | error error after =>
        rw [run] at erases quiet
        obtain ⟨position, depth_eq, rfl⟩ :=
          failsBy_freshAt (engine.limitedTo limit) (limit + 1) .root root _ _ _ run quiet
        refine ⟨position, depth_eq.trans (Nat.zero_add _), ?_⟩
        rw [erases]
        rfl

namespace Echo

/-- A type whose nodes stand for themselves. -/
private def echo : NodeType :=
  ⟨1, "Echo"⟩

private def echoNode : Element :=
  .ofType 0 echo

private def wordNode : Element :=
  .literal 1 "word"

/-- A sequence of one word. -/
private def lineNode : Element :=
  .sequence 2 [wordNode]

/-- An engine for echoes. -/
private def echoer : Engine Unit where
  vocabulary type := if type = echo then { describe := some fun _ => pure echoNode } else {}
  processor := .identity

/-- The three nodes, at all times. -/
private def directory : Census Unit where
  nodeAt _ id := [echoNode, wordNode, lineNode][id]?
  number _ := True
  node _ := True

private theorem knows_echo (ambient : Unit) : directory.Knows ambient echoNode :=
  ⟨⟨rfl, trivial⟩, trivial, trivial⟩

private theorem knows_line (ambient : Unit) : directory.Knows ambient lineNode :=
  ⟨⟨rfl, trivial⟩, trivial, ⟨⟨rfl, trivial⟩, ⟨by simp [Value.Every], trivial⟩, trivial⟩, trivial⟩

private theorem eq_echo {type : NodeType} {callback : DescribeContext → Action Unit Fault Element}
    (present : (echoer.vocabulary type).describe = some callback) :
    callback = fun _ => pure echoNode := by
  simp only [echoer] at present
  split at present
  · exact (Option.some.inj present).symm
  · simp at present

private theorem not_observes (type : NodeType) : (echoer.vocabulary type).observe = none := by
  simp only [echoer]
  split <;> rfl

private theorem orderly : echoer.Orderly directory where
  observe {type _} present := nomatch (not_observes type).symm.trans present
  describe present := by
    rw [eq_echo present]
    refine ⟨fun _ _ => rfl, fun _ _ => .refl directory _, ?_⟩
    intro _ _ _ _ _ run
    obtain ⟨rfl, rfl⟩ := EStateM.Result.ok.inj run
    exact knows_echo _
  register present := nomatch present
  source present := nomatch present
  sourceFor present := nomatch present

private def echoMeaning : Meaning where
  observe _ _ := .ok .null
  describe _ _ := .ok (echoNode.form .structural)
  register := .ok
  source := .ok
  sourceFor _ := .ok

private theorem computes : echoer.Computes directory echoMeaning where
  observe {type _} present := nomatch (not_observes type).symm.trans present
  describe present := by
    rw [eq_echo present]
    intro _ _ _
    rfl
  register present := nomatch present
  source present := nomatch present
  sourceFor present := nomatch present

private theorem freshAt_echo (limit room : Nat) (position : Position) (world : World (Recording Unit))
    (quiet : Quiet world.ambient.invocations) :
    ∃ error after,
      (echoer.limitedTo limit).recorded.freshAt room position echoNode world = .error error after ∧
        Quiet after.ambient.invocations := by
  induction room generalizing position world with
  | zero => exact ⟨_, world, rfl, quiet⟩
  | succ room induction =>
      have data_run : (echoer.limitedTo limit).recorded.freshData echo echoNode world =
          .ok none world := by
        simp [freshData, Processor.derivation?, Processor.sourceFor?, limitedTo, withConfig, recorded,
          Processor.recorded, echoer, Processor.identity]
        rfl
      have describe_eq : ((echoer.limitedTo limit).recorded.vocabulary echo).describe =
          some (recording .describe (fun _ => some echo) fun _ => pure echoNode) := by
        simp [limitedTo, withConfig, recorded, echoer]
      have quiet_later : Quiet (world.ambient.invocations ++ [{
          request := .describe (Structured.form .structural
            { data := none, props := echoNode.props, children := echoNode.children })
          type := some echo, fault := none }]) :=
        quiet.append fun invocation member => by rw [List.mem_singleton.mp member]
      obtain ⟨error, after, failed, quiet_after⟩ :=
        induction position.expansion (world.erase.record _) quiet_later
      refine ⟨error, after, ?_, quiet_after⟩
      rw [freshAt]
      refine (bind_of_ok data_run).trans ?_
      rw [describe_eq]
      refine (bind_of_ok rfl).trans ?_
      exact bind_of_error failed

private def start : World Unit where
  store := .empty
  ambient := ()

private theorem expandFresh_line :
    (echoer.limitedTo 1).expandFresh lineNode start =
      .ok (.structural lineNode none [.structural wordNode none []]) start :=
  rfl

end Echo

open Echo in
/-- A word is one step too deep where no step is allowed, and an echo is too deep under any limit. -/
theorem expandFresh_limitedTo_echo :
    outcomeOf ((echoer.limitedTo 0).expandFresh lineNode start) =
        .error (.expansionTooDeep 0 (Position.root.child 0)) ∧
      ∀ limit, ∃ position : Position, position.depth = limit + 1 ∧
        outcomeOf ((echoer.limitedTo limit).expandFresh echoNode start) =
          .error (.expansionTooDeep limit position) := by
  constructor
  · obtain ⟨cuts, -⟩ := expandFresh_limitedTo orderly computes (knows_line start.ambient)
    obtain ⟨-, cuts_off⟩ := cuts 1 _ _ expandFresh_line start 0 (knows_line start.ambient)
    obtain ⟨position, found, failed⟩ := cuts_off (by decide)
    obtain rfl : Position.root.child 0 = position := Option.some.inj found
    exact failed
  · intro limit
    obtain ⟨-, endless⟩ := expandFresh_limitedTo orderly computes (knows_echo start.ambient)
    obtain ⟨error, after, failed, quiet⟩ :=
      freshAt_echo limit (limit + 1) .root (start.record []) quiet_nil
    refine endless limit (fun expansion last succeeds => ?_) ?_
    · have erases := (echoer.limitedTo limit).erases_freshAt (limit + 1) .root echoNode
        (start.record [])
      rw [failed] at erases
      exact nomatch erases.symm.trans succeeds
    · change Quiet (finalState ((echoer.limitedTo limit).recorded.freshAt (limit + 1) .root echoNode
        (start.record []))).ambient.invocations
      rw [failed]
      exact quiet

end Engine

end Phrasing
