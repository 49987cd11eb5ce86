import Phrasing.Content.Xxh3
import Phrasing.Proofs.Traversal.Advancing

/-!
# Passages

A passage is what lies between a reading and one that goes on from it: the rest of the input that
remains, the fragments added, the result, and the factors by which the score is multiplied.  Where no
visit is called, the passages that lead on from a reading depend on the rest of its input alone: the
fragments, the result and the score of a reading have no part in how it goes on.
-/

namespace Phrasing

open Engine Traversal

/-- What lies between a reading and one that goes on from it. -/
structure Passage where
  /-- The rest of the input that remains. -/
  text : Option String
  /-- The fragments added. -/
  fragments : List Fragment
  /-- The result. -/
  result : Value
  /-- The factors by which the score is multiplied, in order. -/
  factors : List Float

namespace Passage

/-- The reading to which a passage leads. -/
def after (passage : Passage) (start : Reading) : Reading :=
  { text := passage.text, fragments := start.fragments ++ passage.fragments, result := passage.result
    score := passage.factors.foldl (· * ·) start.score }

/-- The passage with another result. -/
def withResult (passage : Passage) (result : Value) : Passage :=
  { passage with result }

/-- The passage that only gives a result. -/
def still (text : Option String) (result : Value) : Passage :=
  { text, fragments := [], result, factors := [] }

/-- One passage after another. -/
def further (passage next : Passage) : Passage :=
  { text := next.text, fragments := passage.fragments ++ next.fragments, result := next.result
    factors := passage.factors ++ next.factors }

/-- A place on the way: the start, or where a passage leads. -/
def place (start : Reading) : Option Passage → Reading
  | none => start
  | some passage => passage.after start

/-- The rest of the input at a place. -/
def restAt (text : Option String) (arrived : Option Passage) : Option String :=
  arrived.elim text Passage.text

/-- A passage to a place, and on from there. -/
def onward (arrived : Option Passage) (next : Passage) : Passage :=
  arrived.elim next fun passage => passage.further next

variable {start : Reading} {passage next : Passage} {arrived : Option Passage} {result : Value}

@[simp]
theorem after_withResult : passage.after (start.withResult result) = passage.after start :=
  rfl

@[simp]
theorem withResult_after : (passage.withResult result).after start =
    (passage.after start).withResult result :=
  rfl

@[simp]
theorem still_after : (still start.text result).after start = start.withResult result := by
  simp [still, after, Reading.withResult]

@[simp]
theorem further_after : (passage.further next).after start = next.after (passage.after start) := by
  simp [further, after]

@[simp]
theorem onward_after : (onward arrived next).after start = next.after (place start arrived) := by
  cases arrived with
  | none => rfl
  | some passage => exact further_after

theorem text_place : (place start arrived).text = restAt start.text arrived := by
  cases arrived <;> rfl

end Passage

open Passage

section Follows

variable {ε τ α β γ δ : Type} {text : Option String}

/-- From every start with a given rest of its input, a computation comes out in the same way: with the
same error, or with what one thing looks like from the start. -/
def Follows (text : Option String) (view : Reading → α → β) (run : Reading → EStateM ε τ β) : Prop :=
  ∃ found : Except ε α, ∀ start : Reading, start.text = text →
    run start = outcome (found.map (view start))

theorem follows_pure {view : Reading → α → β} (item : α) :
    Follows text view fun start => (pure (view start item) : EStateM ε τ β) :=
  ⟨.ok item, fun _ _ => rfl⟩

theorem Follows.congr {view : Reading → α → β} {run other : Reading → EStateM ε τ β}
    (follows : Follows text view run) (same : ∀ start, start.text = text → other start = run start) :
    Follows text view other := by
  obtain ⟨found, runs⟩ := follows
  exact ⟨found, fun start text_eq => (same start text_eq).trans (runs start text_eq)⟩

theorem Follows.bind {view : Reading → α → β} {view_next : Reading → γ → δ}
    {run : Reading → EStateM ε τ β} {next : Reading → β → EStateM ε τ δ}
    (first : Follows text view run)
    (rest : ∀ item, Follows text view_next fun start => next start (view start item)) :
    Follows text view_next fun start => run start >>= next start := by
  obtain ⟨found, runs⟩ := first
  cases found with
  | error error =>
      refine ⟨.error error, fun start text_eq => ?_⟩
      dsimp only
      rw [runs start text_eq]
      rfl
  | ok item =>
      obtain ⟨found_next, runs_next⟩ := rest item
      refine ⟨found_next, fun start text_eq => ?_⟩
      dsimp only
      rw [runs start text_eq, ← runs_next start text_eq]
      rfl

/-- What is made of the result of a computation looks the same from every start. -/
theorem Follows.map {view : Reading → α → β} {view_next : Reading → γ → δ}
    {run : Reading → EStateM ε τ β} {compute : Reading → β → δ} (follows : Follows text view run)
    (make : α → γ)
    (same : ∀ start item, start.text = text →
      compute start (view start item) = view_next start (make item)) :
    Follows text view_next fun start => run start >>= fun result => pure (compute start result) := by
  refine follows.bind fun item => (follows_pure (make item)).congr fun start text_eq => ?_
  rw [same start item text_eq]

theorem follows_gather {view : Reading → α → β} {view_next : Reading → γ → δ}
    {step : Reading → β → EStateM ε τ (List δ)} {items : List α}
    (each : ∀ item ∈ items, Follows text (fun start => List.map (view_next start))
      fun start => step start (view start item)) :
    Follows text (fun start => List.map (view_next start))
      fun start => gather (step start) (items.map (view start)) := by
  induction items with
  | nil => exact follows_pure []
  | cons item rest induction =>
      refine (each item List.mem_cons_self).bind fun first => ?_
      have rest_follows := induction fun other member => each other (List.mem_cons_of_mem item member)
      refine rest_follows.map (fun others => first ++ others) fun start others _ => ?_
      rw [List.map_append]

end Follows

section Primitives

variable {ε τ : Type} {text : Option String}

/-- A way to read follows the rest of the input. -/
def FollowsRest (read : Reading → EStateM ε τ (List Reading)) : Prop :=
  ∀ text, Follows text (fun start (passages : List Passage) => passages.map (·.after start)) read

/-- The result of a reading has no part in how it goes on. -/
theorem FollowsRest.withResult {read : Reading → EStateM ε τ (List Reading)}
    (follows : FollowsRest read) (reading : Reading) (result : Value) :
    read (reading.withResult result) = read reading := by
  obtain ⟨found, runs⟩ := follows reading.text
  rw [runs reading rfl]
  exact runs (reading.withResult result) rfl

/-- From a place on the way, it goes on as the rest of the input at the start says. -/
theorem FollowsRest.onward {read : Reading → EStateM ε τ (List Reading)} (follows : FollowsRest read)
    (arrived : Option Passage) :
    Follows text (fun start (passages : List Passage) => passages.map (·.after start))
      fun start => read (place start arrived) := by
  obtain ⟨found, runs⟩ := follows (restAt text arrived)
  refine ⟨found.map fun passages => passages.map (Passage.onward arrived), fun start text_eq => ?_⟩
  dsimp only
  rw [runs _ (text_eq ▸ text_place)]
  cases found with
  | error error => rfl
  | ok passages => simp [Except.map, Function.comp_def]

/-- An entry of a sequence at a place on the way. -/
def Passage.entry {α : Type} (start : Reading) (entry : Option Passage × α) : Reading × α :=
  (place start entry.1, entry.2)

theorem follows_readSlots {child : Expansion → Reading → EStateM ε τ (List Reading)}
    {slots : List (Expansion × Slot)} (each : ∀ slot ∈ slots, FollowsRest (child slot.1))
    (partials : List (Option Passage × Props)) :
    Follows text (fun start => List.map (Passage.entry start))
      fun start => readSlots child slots (partials.map (Passage.entry start)) := by
  induction slots generalizing partials with
  | nil => exact follows_pure partials
  | cons slot rest induction =>
      have first : Follows text (fun start => List.map (Passage.entry start))
          fun start => gather (readSlot child slot) (partials.map (Passage.entry start)) := by
        refine follows_gather fun entry _ => ?_
        have child_follows := each slot List.mem_cons_self
        have blank : Follows text (fun start (passages : List Passage) => passages.map (·.after start))
            fun start => child slot.1 ((place start entry.1).withResult .null) :=
          (child_follows.onward entry.1).congr fun start _ => child_follows.withResult _ .null
        apply blank.map fun passages => passages.map fun passage =>
          (some passage, slot.2.put passage.result entry.2)
        intro start passages _
        simp [Passage.entry, place, Passage.after, Function.comp_def]
      refine first.bind fun next => ?_
      exact induction (fun other member => each other (List.mem_cons_of_mem slot member)) next

/-- A passage to a place, with a result. -/
def Passage.relabel (text : Option String) (result : Value) (arrived : Option Passage) : Passage :=
  arrived.elim (still text result) fun passage => passage.withResult result

theorem Passage.relabel_after {start : Reading} (result : Value) (arrived : Option Passage) :
    (relabel start.text result arrived).after start = (place start arrived).withResult result := by
  cases arrived with
  | none => exact still_after
  | some passage => rfl

theorem followsRest_readSequence {child : Expansion → Reading → EStateM ε τ (List Reading)}
    {slots : List (Expansion × Slot)} (each : ∀ slot ∈ slots, FollowsRest (child slot.1))
    (fixed : Option Value) : FollowsRest (readSequence child slots fixed) := by
  intro text
  have finished : Follows text (fun start => List.map (Passage.entry start))
      fun start => readSlots child slots [(start, [])] := follows_readSlots each [(none, [])]
  refine finished.map (fun entries => entries.map fun entry =>
    relabel text (sequenceResult slots fixed entry.2) entry.1) fun start entries text_eq => ?_
  subst text_eq
  simp only [List.map_map, Function.comp_def, relabel_after]
  rfl

theorem followsRest_readChoice {child : Expansion → Reading → EStateM ε τ (List Reading)}
    {children : List Expansion} (each : ∀ node ∈ children, FollowsRest (child node))
    (fixed : Option Value) : FollowsRest (readChoice child children fixed) := by
  intro text
  let relabel : Reading → Reading := fun out => fixed.elim out out.withResult
  have gathered : Follows text (fun start (passages : List Passage) => passages.map (·.after start))
      fun start => gather (fun node => child node start >>= fun outs => pure (outs.map relabel))
        (children.map id) := by
    refine follows_gather fun node member => ?_
    apply (each node member text).map fun passages =>
      passages.map fun passage => fixed.elim passage passage.withResult
    intro start passages _
    cases fixed <;> simp [relabel, Function.comp_def]
  refine gathered.congr fun start _ => ?_
  rw [List.map_id]
  cases fixed <;> simp [readChoice, relabel]

theorem followsRest_readOptional {child : Expansion → Reading → EStateM ε τ (List Reading)}
    {node : Expansion} (follows : FollowsRest (child node)) (preferred : Bool) :
    FollowsRest (readOptional child node preferred) := by
  intro text
  refine (follows text).map (fun passages =>
    if preferred then passages ++ [still text .null] else still text .null :: passages) ?_
  intro start passages text_eq
  subst text_eq
  cases preferred <;> simp

/-- A step of a repetition between places on the way. -/
def Passage.step (start : Reading) (step : Option Passage × Passage × List Value) :
    Reading × Reading × List Value :=
  (place start step.1, step.2.1.after start, step.2.2)

/-- A reading with nothing but a rest of the input. -/
def Reading.blank (text : Option String) : Reading :=
  { text, fragments := [], result := .null, score := 1.0 }

theorem progressed_step {start : Reading} (step : Option Passage × Passage × List Value) :
    progressed (Passage.step start step).1 (Passage.step start step).2.1 =
      progressed (Passage.step (.blank start.text) step).1
        (Passage.step (.blank start.text) step).2.1 := by
  simp only [progressed, Passage.step, text_place, Passage.after]
  rfl

theorem follows_readStep {only : Reading → EStateM ε τ (List Reading)} (follows : FollowsRest only)
    (frontier : List (Option Passage × List Value)) :
    Follows text (fun start => List.map (Passage.step start))
      fun start => readStep only (frontier.map (Passage.entry start)) := by
  refine follows_gather fun entry _ => ?_
  apply (follows.onward entry.1).map fun passages => passages.map fun passage =>
    (entry.1, passage, entry.2 ++ [passage.result])
  intro start passages _
  simp [Passage.entry, Passage.step, Passage.after, Function.comp_def]

/-- What a round reports are passages that do not depend on the start. -/
theorem exists_reported (least round : Nat) (steps : List (Option Passage × Passage × List Value)) :
    ∃ found : List Passage, ∀ start,
      reported least round (steps.map (Passage.step start)) = found.map (·.after start) := by
  by_cases enough : least ≤ round
  · refine ⟨steps.map fun step => step.2.1.withResult (.list step.2.2), fun start => ?_⟩
    simp [reported, enough, Passage.step, Function.comp_def]
  · exact ⟨[], fun start => by simp [reported, enough]⟩

/-- Which steps a round passes on depends on the rest of the input at the start. -/
theorem exists_passedOn (text : Option String) (least remaining round : Nat)
    (steps : List (Option Passage × Passage × List Value)) :
    ∃ kept : List (Option Passage × List Value), ∀ start : Reading, start.text = text →
      passedOn least remaining round (steps.map (Passage.step start)) =
        kept.map (Passage.entry start) := by
  by_cases last : remaining = 0
  · exact ⟨[], fun start _ => by simp [passedOn, last]⟩
  · refine ⟨(steps.filter fun step => round < least ||
      progressed (Passage.step (.blank text) step).1 (Passage.step (.blank text) step).2.1).map
        fun step => (some step.2.1, step.2.2), fun start text_eq => ?_⟩
    subst text_eq
    rw [passedOn, if_neg last, List.filter_map, List.map_map, List.map_map]
    simp only [← progressed_step]
    rfl

theorem follows_readRounds {only : Reading → EStateM ε τ (List Reading)} (follows : FollowsRest only)
    (least remaining round : Nat) (frontier : List (Option Passage × List Value)) :
    Follows text (fun start (passages : List Passage) => passages.map (·.after start))
      fun start => readRounds only least remaining round (frontier.map (Passage.entry start)) := by
  induction remaining generalizing round frontier with
  | zero =>
      exact follows_pure []
  | succ remaining induction =>
      simp only [readRounds_succ]
      refine (follows_readStep follows frontier).bind fun steps => ?_
      obtain ⟨found, reported_eq⟩ := exists_reported least round steps
      obtain ⟨kept, passedOn_eq⟩ := exists_passedOn text least remaining round steps
      by_cases nothing : kept = []
      · refine (follows_pure found).congr fun start text_eq => ?_
        simp [passedOn_eq start text_eq, reported_eq, nothing]
      · have more := induction (round + 1) kept
        have others : Follows text
            (fun start (passages : List Passage) => passages.map (·.after start))
            fun start => readRounds only least remaining (round + 1) (kept.map (Passage.entry start)) >>=
              fun later => pure (found.map (·.after start) ++ later) :=
          more.map (found ++ ·) fun start passages _ => List.map_append.symm
        refine others.congr fun start text_eq => ?_
        simp [passedOn_eq start text_eq, reported_eq, nothing]

theorem followsRest_readRepeat {only : Reading → EStateM ε τ (List Reading)}
    (follows : FollowsRest only) (bounds : Bounds) : FollowsRest (readRepeat only bounds) := by
  intro text
  have repeated : Follows text (fun start (passages : List Passage) => passages.map (·.after start))
      fun start => readRounds only bounds.least bounds.greatest 1 [(start, [])] :=
    follows_readRounds follows bounds.least bounds.greatest 1 [(none, [])]
  refine repeated.map (fun passages =>
    (if bounds.least = 0 then [still text (.list [])] else []) ++ passages) ?_
  intro start passages text_eq
  subst text_eq
  split <;> simp

theorem followsRest_literal (literal : Literal) :
    FollowsRest fun reading => (pure (literal.read reading) : EStateM ε τ (List Reading)) := by
  intro text
  let passages : List Passage := (literal.read (.blank text)).map fun out =>
    { text := out.text, fragments := out.fragments, result := literal.result
      factors := [literal.score] }
  refine (follows_pure passages).congr fun start text_eq => congrArg pure ?_
  subst text_eq
  have blank_text : (Reading.blank start.text).text = start.text := rfl
  rw [List.map_map, Literal.read, Literal.read, blank_text]
  split
  · simp [Passage.after, Reading.blank]
  · split
    · simp [Passage.after, Reading.blank]
    · split
      · simp [Passage.after, Reading.blank]
      · rfl

end Primitives

namespace Engine

variable {σ : Type} {engine : Engine σ}

theorem followsRest_throw {ε τ : Type} (error : ε) :
    FollowsRest fun _ => (throw error : EStateM ε τ (List Reading)) :=
  fun _ => ⟨.error error, fun _ _ => rfl⟩

/-- What is decoded from the props of a node does not depend on any reading. -/
theorem followsRest_outcome {α : Type} (decoded : Except EngineError α)
    {read : α → Reading → Action σ EngineError (List Reading)}
    (each : ∀ value, decoded = .ok value → FollowsRest (read value)) :
    FollowsRest fun reading => outcome decoded >>= fun value => read value reading := by
  cases decoded with
  | error error => exact followsRest_throw error
  | ok value => exact each value rfl

theorem followsRest_readPrimitive {child : Expansion → Reading → Action σ EngineError (List Reading)}
    {node : Expansion} (each : ∀ below ∈ node.children, FollowsRest (child below))
    (builtIn : Primitive) : FollowsRest (engine.readPrimitive child builtIn node) := by
  cases builtIn with
  | literal => exact followsRest_outcome _ fun literal _ => followsRest_literal literal
  | sequence =>
      apply followsRest_outcome
      intro slots _
      apply followsRest_readSequence
      intro entry member
      exact each entry.1 (List.of_mem_zip member).1
  | choice => exact followsRest_readChoice each _
  | optional =>
      apply followsRest_outcome
      intro only one
      apply followsRest_outcome
      intro preferred _
      exact followsRest_readOptional (each only (mem_children_of_onlyChild one)) preferred
  | «repeat» =>
      apply followsRest_outcome
      intro only one
      apply followsRest_outcome
      intro bounds _
      exact followsRest_readRepeat (each only (mem_children_of_onlyChild one)) bounds

/-- A silent expansion leads a reading on as the rest of its input says. -/
theorem followsRest_traverseAt {node : Expansion} (silent : node.Silent engine.vocabulary)
    (room : Nat) : FollowsRest (engine.traverseAt room node) := by
  induction room generalizing node with
  | zero => exact followsRest_throw _
  | succ room induction =>
      cases kind : node.element.kind with
      | primitive builtIn =>
          rw [funext (traverseAt_primitive engine kind)]
          exact followsRest_readPrimitive (fun below member => induction (silent.child member)) builtIn
      | custom type =>
          cases description : node.description? with
          | some inner =>
              rw [funext (traverseAt_described engine kind (silent.quiet kind) description)]
              exact induction (silent.body description)
          | none =>
              have read_eq (reading : Reading) : engine.traverseAt (room + 1) node reading =
                  throw (.missingCapability type.name .describe) := by
                rw [traverseAt, kind]
                simp only [silent.quiet kind, description]
              rw [funext read_eq]
              exact followsRest_throw _

/-- A silent expansion takes all readings with the same rest of the input along the same passages, or
fails on them with the same error, whatever their fragments, results and scores are. -/
theorem readings_share_passages (engine : Engine σ) {node : Expansion}
    (silent : node.Silent engine.vocabulary) (room : Nat) (text : Option String) :
    ∃ found : Except EngineError (List Passage), ∀ reading : Reading, reading.text = text →
      ∀ world, engine.traverseAt room node reading world =
        match found with
        | .ok passages => .ok (passages.map (·.after reading)) world
        | .error error => .error error world := by
  obtain ⟨found, runs⟩ := followsRest_traverseAt silent room text
  refine ⟨found, fun reading text_eq world => ?_⟩
  rw [runs reading text_eq]
  cases found with
  | ok passages => rfl
  | error error => rfl

/-- An engine without custom types. -/
private def singing : Engine Unit where
  vocabulary := fun _ => {}
  processor := .identity

/-- Up to three syllables, each of which may be left out. -/
private def refrain : Expansion :=
  .structural (.make 0 (.primitive .repeat) [("max", .int 3)] []) none
    [.structural (.make 1 (.primitive .optional) [] []) none [.structural (.literal 2 "la") none []]]

private theorem refrain_silent : refrain.Silent singing.vocabulary := by
  refine .structural (fun _ _ => rfl) fun child member => ?_
  obtain rfl := List.mem_singleton.mp member
  refine .structural (fun _ _ => rfl) fun child member => ?_
  obtain rfl := List.mem_singleton.mp member
  exact .structural (fun _ _ => rfl) nofun

/-- A result that is left over when the refrain begins has no part in the results of the refrain. -/
theorem readings_share_passages_refrain :
    ∃ outs others : List Reading,
      singing.traverseAt 3 refrain
          { text := some "lala", fragments := [⟨"oh", true⟩], result := .int 7, score := 0.5 }
          ⟨.empty, ()⟩ = .ok outs ⟨.empty, ()⟩ ∧
        singing.traverseAt 3 refrain (.ofInput "lala") ⟨.empty, ()⟩ = .ok others ⟨.empty, ()⟩ ∧
        outs.length = 6 ∧ outs.map Reading.text = others.map Reading.text ∧
        outs.map Reading.result = others.map Reading.result := by
  obtain ⟨found, runs⟩ := singing.readings_share_passages refrain_silent 3 (some "lala")
  have first := runs { text := some "lala", fragments := [⟨"oh", true⟩], result := .int 7, score := 0.5 }
    rfl ⟨.empty, ()⟩
  have second := runs (.ofInput "lala") rfl ⟨.empty, ()⟩
  obtain ⟨outs, read, length_eq⟩ : ∃ outs, singing.traverseAt 3 refrain (.ofInput "lala") ⟨.empty, ()⟩ =
      .ok outs ⟨.empty, ()⟩ ∧ outs.length = 6 := ⟨_, rfl, rfl⟩
  cases found with
  | error error => exact nomatch read.symm.trans second
  | ok passages =>
      obtain ⟨rfl, -⟩ := EStateM.Result.ok.inj (read.symm.trans second)
      refine ⟨_, _, first, read, by simpa using length_eq, ?_, ?_⟩
      · simp [Passage.after, Function.comp_def]
      · simp [Passage.after, Function.comp_def]

end Engine

end Phrasing
