import Mathlib.Logic.Relation
import Phrasing.Proofs.Grammar.Nodes
import Phrasing.Proofs.Traversal.Lockstep

/-!
# Readings that advance

Where no visit is called, all that happens to a reading on its way through an expansion is that a
literal takes it further or that its result is replaced.  What holds along such steps holds between
a reading and all the readings that go on from it.
-/

namespace Phrasing

open Relation Traversal

/-- One step of a reading: a literal takes it further, or it gets another result. -/
inductive Reading.Advances : Reading → Reading → Prop
  | literal {reading out : Reading} (literal : Literal) (found : out ∈ literal.read reading) :
      Advances reading out
  | relabel (reading : Reading) (result : Value) : Advances reading (reading.withResult result)

/-- No node of the expansion belongs to a custom type with a visit. -/
inductive Expansion.Silent {σ : Type} (vocabulary : Vocabulary σ) : Expansion → Prop
  | structural {element : Element} {data : Option Value} {children : List Expansion}
      (quiet : ∀ type, element.kind = .custom type → (vocabulary type).visit = none)
      (below : ∀ child ∈ children, child.Silent vocabulary) :
      Silent vocabulary (.structural element data children)
  | described {element : Element} {data : Option Value} {body : Expansion}
      (quiet : ∀ type, element.kind = .custom type → (vocabulary type).visit = none)
      (below : body.Silent vocabulary) :
      Silent vocabulary (.described element data body)

namespace Expansion.Silent

variable {σ : Type} {vocabulary : Vocabulary σ} {node : Expansion}

theorem quiet (silent : node.Silent vocabulary) {type : NodeType}
    (kind : node.element.kind = .custom type) : (vocabulary type).visit = none := by
  cases silent with
  | structural quiet _ => exact quiet type kind
  | described quiet _ => exact quiet type kind

theorem child (silent : node.Silent vocabulary) {below : Expansion}
    (member : below ∈ node.children) : below.Silent vocabulary := by
  cases silent with
  | structural _ each => exact each below member
  | described _ _ => exact nomatch member

theorem body (silent : node.Silent vocabulary) {inner : Expansion}
    (description : node.description? = some inner) : inner.Silent vocabulary := by
  cases silent with
  | structural _ _ => exact nomatch description
  | described _ below => exact Option.some.inj description ▸ below

end Expansion.Silent

section Returns

variable {ε τ α β : Type} {gives : α → Prop} {gives_next : β → Prop}

/-- What a computation gives, if it does not fail, is as described. -/
def Returns (gives : α → Prop) (computation : EStateM ε τ α) : Prop :=
  ∀ before result after, computation before = .ok result after → gives result

theorem returns_pure {result : α} (given : gives result) :
    Returns gives (pure result : EStateM ε τ α) := by
  intro before other after run
  obtain ⟨rfl, -⟩ := EStateM.Result.ok.inj run
  exact given

theorem returns_throw (error : ε) : Returns gives (throw error : EStateM ε τ α) :=
  fun _ _ _ run => nomatch run

theorem Returns.bind {computation : EStateM ε τ α} {next : α → EStateM ε τ β}
    (first : Returns gives computation) (rest : ∀ result, gives result → Returns gives_next (next result)) :
    Returns gives_next (computation >>= next) := by
  intro before result after run
  obtain ⟨middle, between, first_run, rest_run⟩ := bind_eq_ok.mp run
  exact rest middle (first before middle between first_run) between result after rest_run

theorem returns_ite {condition : Prop} [Decidable condition] {left right : EStateM ε τ α}
    (returns : condition → Returns gives left) (otherwise : ¬condition → Returns gives right) :
    Returns gives (if condition then left else right) := by
  split
  · next holds => exact returns holds
  · next fails => exact otherwise fails

/-- Every item of a list that a computation gives is as described. -/
theorem returns_gather {item_gives : β → Prop} {items : List α}
    {step : α → EStateM ε τ (List β)}
    (returns : ∀ item ∈ items, Returns (∀ out ∈ ·, item_gives out) (step item)) :
    Returns (∀ out ∈ ·, item_gives out) (gather step items) := by
  induction items with
  | nil => exact returns_pure fun _ member => nomatch member
  | cons item rest induction =>
      refine (returns item List.mem_cons_self).bind fun first first_given => ?_
      refine (induction fun other member => returns other (List.mem_cons_of_mem item member)).bind
        fun others others_given => returns_pure fun out member => ?_
      exact (List.mem_append.mp member).elim (first_given out) (others_given out)

end Returns

namespace Traversal

variable {ε τ : Type} {start : Reading}

/-- A child takes every reading on. -/
def Carries (child : Reading → EStateM ε τ (List Reading)) : Prop :=
  ∀ reading, Returns (∀ out ∈ ·, ReflTransGen Reading.Advances reading out) (child reading)

theorem Carries.on {child : Reading → EStateM ε τ (List Reading)} (carries : Carries child)
    {reading : Reading} (reached : ReflTransGen Reading.Advances start reading) :
    Returns (∀ out ∈ ·, ReflTransGen Reading.Advances start out) (child reading) :=
  fun before result after run out member =>
    reached.trans (carries reading before result after run out member)

theorem returns_readSlots {child : Expansion → Reading → EStateM ε τ (List Reading)}
    {slots : List (Expansion × Slot)} (carries : ∀ entry ∈ slots, Carries (child entry.1))
    {partials : List (Reading × Props)}
    (reached : ∀ entry ∈ partials, ReflTransGen Reading.Advances start entry.1) :
    Returns (∀ entry ∈ ·, ReflTransGen Reading.Advances start entry.1)
      (readSlots child slots partials) := by
  induction slots generalizing partials with
  | nil => exact returns_pure reached
  | cons slot rest induction =>
      have next_reached : Returns (∀ entry ∈ ·, ReflTransGen Reading.Advances start entry.1)
          (gather (readSlot child slot) partials) := by
        refine returns_gather fun entry member => ?_
        have relabelled := (reached entry member).tail (.relabel entry.1 .null)
        refine ((carries slot List.mem_cons_self).on relabelled).bind fun outs outs_reached =>
          returns_pure fun out member => ?_
        obtain ⟨reading, found, rfl⟩ := List.mem_map.mp member
        exact outs_reached reading found
      exact next_reached.bind fun _ next =>
        induction (fun entry member => carries entry (List.mem_cons_of_mem slot member)) next

theorem carries_readSequence {child : Expansion → Reading → EStateM ε τ (List Reading)}
    {slots : List (Expansion × Slot)} (carries : ∀ entry ∈ slots, Carries (child entry.1))
    (fixed : Option Value) : Carries (readSequence child slots fixed) := by
  intro reading
  have start_reached : ∀ entry ∈ [(reading, ([] : Props))],
      ReflTransGen Reading.Advances reading entry.1 := by
    intro entry member
    obtain rfl := List.mem_singleton.mp member
    exact .refl
  refine (returns_readSlots carries start_reached).bind fun finished reached =>
    returns_pure fun out member => ?_
  obtain ⟨entry, found, rfl⟩ := List.mem_map.mp member
  exact (reached entry found).tail (.relabel entry.1 _)

theorem carries_readChoice {child : Expansion → Reading → EStateM ε τ (List Reading)}
    {children : List Expansion} (carries : ∀ node ∈ children, Carries (child node))
    (fixed : Option Value) : Carries (readChoice child children fixed) := by
  intro reading
  refine returns_gather fun node member => (carries node member reading).bind fun outs reached =>
    returns_pure fun out found => ?_
  cases fixed with
  | none => exact reached out found
  | some value =>
      obtain ⟨inner, inner_found, rfl⟩ := List.mem_map.mp found
      exact (reached inner inner_found).tail (.relabel inner value)

theorem carries_readOptional {child : Expansion → Reading → EStateM ε τ (List Reading)}
    {node : Expansion} (carries : Carries (child node)) (preferred : Bool) :
    Carries (readOptional child node preferred) := by
  intro reading
  have skipped : ReflTransGen Reading.Advances reading (reading.withResult .null) :=
    .single (.relabel reading .null)
  refine (carries reading).bind fun taken reached => returns_pure fun out member => ?_
  have reported : out = reading.withResult .null ∨ out ∈ taken := by
    cases preferred with
    | false => exact List.mem_cons.mp member
    | true => exact (List.mem_append.mp member).symm.imp_left List.mem_singleton.mp
  rcases reported with rfl | found
  · exact skipped
  · exact reached out found

theorem reached_of_mem_reported {least round : Nat} {steps : List (Reading × Reading × List Value)}
    (reached : ∀ step ∈ steps, ReflTransGen Reading.Advances start step.2.1) {out : Reading}
    (member : out ∈ reported least round steps) : ReflTransGen Reading.Advances start out := by
  obtain ⟨-, step, found, rfl⟩ := mem_reported.mp member
  exact (reached step found).tail (.relabel step.2.1 _)

theorem reached_of_mem_passedOn {least remaining round : Nat}
    {steps : List (Reading × Reading × List Value)}
    (reached : ∀ step ∈ steps, ReflTransGen Reading.Advances start step.2.1)
    {entry : Reading × List Value} (member : entry ∈ passedOn least remaining round steps) :
    ReflTransGen Reading.Advances start entry.1 := by
  obtain ⟨-, step, found, -, rfl⟩ := mem_passedOn.mp member
  exact reached step found

theorem returns_readRounds {only : Reading → EStateM ε τ (List Reading)} (carries : Carries only)
    (least remaining round : Nat) {frontier : List (Reading × List Value)}
    (reached : ∀ entry ∈ frontier, ReflTransGen Reading.Advances start entry.1) :
    Returns (∀ out ∈ ·, ReflTransGen Reading.Advances start out)
      (readRounds only least remaining round frontier) := by
  induction remaining generalizing round frontier with
  | zero => exact returns_pure fun _ member => nomatch member
  | succ remaining induction =>
      have steps_reached : Returns (∀ step ∈ ·, ReflTransGen Reading.Advances start step.2.1)
          (readStep only frontier) := by
        refine returns_gather fun entry member => (carries.on (reached entry member)).bind
          fun outs outs_reached => returns_pure fun step step_member => ?_
        obtain ⟨out, found, rfl⟩ := List.mem_map.mp step_member
        exact outs_reached out found
      rw [readRounds_succ]
      refine steps_reached.bind fun steps each => returns_ite (fun _ => ?_) fun _ => ?_
      · exact returns_pure fun _ => reached_of_mem_reported each
      · refine (induction (round + 1) fun _ => reached_of_mem_passedOn each).bind
          fun others others_reached => returns_pure fun out member => ?_
        exact (List.mem_append.mp member).elim (reached_of_mem_reported each) (others_reached out)

theorem carries_readRepeat {only : Reading → EStateM ε τ (List Reading)} (carries : Carries only)
    (bounds : Bounds) : Carries (readRepeat only bounds) := by
  intro reading
  have start_reached : ∀ entry ∈ [(reading, ([] : List Value))],
      ReflTransGen Reading.Advances reading entry.1 := by
    intro entry member
    obtain rfl := List.mem_singleton.mp member
    exact .refl
  refine (returns_readRounds carries _ _ _ start_reached).bind fun repeated reached =>
    returns_pure fun out member => ?_
  rcases List.mem_append.mp member with skipped | found
  · split at skipped
    · obtain rfl := List.mem_singleton.mp skipped
      exact .single (.relabel reading (.list []))
    · exact nomatch skipped
  · exact reached out found

end Traversal

namespace Engine

variable {σ : Type} {engine : Engine σ}

theorem returns_outcome {ε α : Type} (result : Except ε α) :
    Returns (result = .ok ·) (outcome result : Action σ ε α) := by
  cases result with
  | ok result => exact returns_pure rfl
  | error error => exact returns_throw error

theorem carries_readPrimitive {child : Expansion → Reading → Action σ EngineError (List Reading)}
    {node : Expansion} (carries : ∀ below ∈ node.children, Carries (child below))
    (builtIn : Primitive) : Carries (engine.readPrimitive child builtIn node) := by
  intro reading
  cases builtIn with
  | literal =>
      exact (returns_outcome _).bind fun literal _ =>
        returns_pure fun out found => .single (.literal literal found)
  | sequence =>
      exact (returns_outcome _).bind fun slots _ => carries_readSequence
        (fun entry member => carries entry.1 (List.of_mem_zip member).1) _ reading
  | choice => exact carries_readChoice carries _ reading
  | optional =>
      exact (returns_outcome _).bind fun only one => (returns_outcome _).bind fun preferred _ =>
        carries_readOptional (carries only (mem_children_of_onlyChild one)) preferred reading
  | «repeat» =>
      exact (returns_outcome _).bind fun only one => (returns_outcome _).bind fun bounds _ =>
        carries_readRepeat (carries only (mem_children_of_onlyChild one)) bounds reading

/-- Every reading that goes on from a reading with a silent expansion comes from it step by step. -/
theorem carries_traverseAt {node : Expansion} (silent : node.Silent engine.vocabulary)
    (room : Nat) : Carries (engine.traverseAt room node) := by
  induction room generalizing node with
  | zero => exact fun _ => returns_throw _
  | succ room induction =>
      intro reading
      cases kind : node.element.kind with
      | primitive builtIn =>
          rw [traverseAt_primitive engine kind]
          exact carries_readPrimitive (fun below member => induction (silent.child member)) builtIn
            reading
      | custom type =>
          cases description : node.description? with
          | some inner =>
              rw [traverseAt_described engine kind (silent.quiet kind) description]
              exact induction (silent.body description) reading
          | none =>
              rw [traverseAt, kind]
              dsimp only
              rw [silent.quiet kind, description]
              exact returns_throw _

end Engine

end Phrasing
