import Phrasing.Proofs.Expansion.Outcomes
import Phrasing.Proofs.Grammar.Steps

/-!
# Reading in lockstep

A primitive decodes its props, which can only turn out malformed, and then reads its children one
after another.  So what holds between the ways in which the children are read in two monads, and is
kept when computations are put together, holds between the ways in which the primitive is read.
-/

namespace Phrasing

open Traversal

namespace Traversal

/-- What is decoded is malformed if it cannot be decoded. -/
def IsDecoding {α : Type} (decoded : Except EngineError α) : Prop :=
  ∀ error, decoded = .error error → ∃ builtIn reason, error = .malformed builtIn reason

section Decoding

variable {α β : Type}

theorem isDecoding_ok (result : α) : IsDecoding (.ok result) :=
  nofun

theorem isDecoding_malformed (builtIn : Primitive) (reason : String) :
    IsDecoding (.error (.malformed builtIn reason) : Except EngineError α) := by
  rintro _ ⟨⟩
  exact ⟨builtIn, reason, rfl⟩

theorem IsDecoding.bind {decoded : Except EngineError α} {next : α → Except EngineError β}
    (first : IsDecoding decoded) (rest : ∀ result, IsDecoding (next result)) :
    IsDecoding (decoded >>= next) := by
  cases decoded with
  | ok result => exact rest result
  | error error =>
      rintro _ ⟨⟩
      exact first error rfl

theorem IsDecoding.mapM {decode : α → Except EngineError β}
    (decodes : ∀ item, IsDecoding (decode item)) (items : List α) :
    IsDecoding (items.mapM decode) := by
  induction items with
  | nil => exact isDecoding_ok []
  | cons item rest induction =>
      rw [List.mapM_cons]
      exact (decodes item).bind fun _ => induction.bind fun _ => isDecoding_ok _

theorem isDecoding_onlyChild (builtIn : Primitive) (node : Expansion) :
    IsDecoding (onlyChild builtIn node) := by
  rw [onlyChild]
  split
  · exact isDecoding_ok _
  · exact isDecoding_malformed _ _

theorem isDecoding_switch (builtIn : Primitive) (element : Element) (key : String) :
    IsDecoding (switch builtIn element key) := by
  rw [switch]
  split
  · exact isDecoding_ok _
  · exact isDecoding_ok _
  · exact isDecoding_ok _
  · exact isDecoding_malformed _ _

theorem isDecoding_count (builtIn : Primitive) (element : Element) (key : String) :
    IsDecoding (count? builtIn element key) := by
  rw [count?]
  split
  · exact isDecoding_ok _
  · exact isDecoding_ok _
  · split
    · exact isDecoding_ok _
    · exact isDecoding_malformed _ _
  · exact isDecoding_malformed _ _

theorem isDecoding_literal (element : Element) : IsDecoding (Literal.ofElement element) := by
  rw [Literal.ofElement]
  split
  · exact isDecoding_malformed _ _
  · split
    · exact isDecoding_ok _
    · split
      · exact isDecoding_ok _
      · exact isDecoding_malformed _ _

theorem isDecoding_slot (element : Element) : IsDecoding (Slot.ofElement element) := by
  have keyed (key? : Option String) : IsDecoding (do
      let merges ← switch .sequence element "merge"
      .ok { key?, merges : Slot }) :=
    (isDecoding_switch _ _ _).bind fun _ => isDecoding_ok _
  rw [Slot.ofElement]
  split
  · exact keyed none
  · exact keyed none
  · exact keyed (some _)
  · exact isDecoding_malformed _ _

theorem isDecoding_bounds (maxRepeat : Nat) (element : Element) :
    IsDecoding (Bounds.ofElement maxRepeat element) := by
  rw [Bounds.ofElement]
  refine (isDecoding_count _ _ _).bind fun _ => (isDecoding_count _ _ _).bind fun _ => ?_
  dsimp only
  split
  · exact isDecoding_malformed _ _
  · exact isDecoding_ok _

theorem mem_children_of_onlyChild {builtIn : Primitive} {node only : Expansion}
    (one : onlyChild builtIn node = .ok only) : only ∈ node.children := by
  rw [onlyChild] at one
  split at one
  · next child children_eq =>
      obtain rfl := Except.ok.inj one
      rw [children_eq]
      exact List.mem_singleton_self _
  · cases one

end Decoding

end Traversal

/-- A relation between computations in two monads that is kept when they are put together. -/
structure Lockstep {m n : Type → Type} [Monad m] [Monad n]
    (related : ∀ α : Type, m α → n α → Prop) : Prop where
  /-- Giving the same result in both is related. -/
  pure {α : Type} (result : α) : related α (Pure.pure result) (Pure.pure result)
  /-- Doing one thing after another is related if each thing is, whatever the first gives. -/
  bind {α β : Type} {computation : m α} {other : n α} {next : α → m β} {other_next : α → n β} :
    related α computation other → (∀ result, related β (next result) (other_next result)) →
    related β (computation >>= next) (other >>= other_next)

namespace Lockstep

variable {m n : Type → Type} [Monad m] [Monad n] {related : ∀ α : Type, m α → n α → Prop}

theorem map (lockstep : Lockstep related) {α β : Type} {computation : m α} {other : n α}
    (each : related α computation other) (compute : α → β) :
    related β (computation >>= fun result => Pure.pure (compute result))
      (other >>= fun result => Pure.pure (compute result)) :=
  lockstep.bind each fun result => lockstep.pure (compute result)

theorem gather (lockstep : Lockstep related) {α β : Type} {step : α → m (List β)}
    {other : α → n (List β)} {items : List α}
    (each : ∀ item ∈ items, related (List β) (step item) (other item)) :
    related (List β) (Traversal.gather step items) (Traversal.gather other items) := by
  induction items with
  | nil => exact lockstep.pure []
  | cons item rest induction =>
      refine lockstep.bind (each item List.mem_cons_self) fun first => ?_
      exact lockstep.map
        (induction fun later member => each later (List.mem_cons_of_mem item member)) _

section Primitives

variable {child : Expansion → Reading → m (List Reading)}
  {other : Expansion → Reading → n (List Reading)}

theorem readSlots (lockstep : Lockstep related) {slots : List (Expansion × Slot)}
    (each : ∀ slot ∈ slots, ∀ reading, related _ (child slot.1 reading) (other slot.1 reading))
    (partials : List (Reading × Props)) :
    related _ (Traversal.readSlots child slots partials)
      (Traversal.readSlots other slots partials) := by
  induction slots generalizing partials with
  | nil => exact lockstep.pure partials
  | cons slot rest induction =>
      have first : related _ (Traversal.gather (readSlot child slot) partials)
          (Traversal.gather (readSlot other slot) partials) :=
        lockstep.gather fun entry _ => lockstep.map (each slot List.mem_cons_self _) _
      refine lockstep.bind first fun next => ?_
      exact induction (fun later member => each later (List.mem_cons_of_mem slot member)) next

theorem readSequence (lockstep : Lockstep related) {slots : List (Expansion × Slot)}
    (each : ∀ slot ∈ slots, ∀ reading, related _ (child slot.1 reading) (other slot.1 reading))
    (fixed : Option Value) (reading : Reading) :
    related _ (Traversal.readSequence child slots fixed reading)
      (Traversal.readSequence other slots fixed reading) :=
  lockstep.map (lockstep.readSlots each [(reading, [])]) _

theorem readChoice (lockstep : Lockstep related) {children : List Expansion}
    (each : ∀ node ∈ children, ∀ reading, related _ (child node reading) (other node reading))
    (fixed : Option Value) (reading : Reading) :
    related _ (Traversal.readChoice child children fixed reading)
      (Traversal.readChoice other children fixed reading) :=
  lockstep.gather fun node member => lockstep.map (each node member reading) _

theorem readOptional (lockstep : Lockstep related) {node : Expansion}
    (each : ∀ reading, related _ (child node reading) (other node reading)) (preferred : Bool)
    (reading : Reading) :
    related _ (Traversal.readOptional child node preferred reading)
      (Traversal.readOptional other node preferred reading) :=
  lockstep.map (each reading) _

variable {only : Reading → m (List Reading)} {only_other : Reading → n (List Reading)}

theorem readRounds (lockstep : Lockstep related)
    (each : ∀ reading, related _ (only reading) (only_other reading))
    (least remaining round : Nat) (frontier : List (Reading × List Value)) :
    related _ (Traversal.readRounds only least remaining round frontier)
      (Traversal.readRounds only_other least remaining round frontier) := by
  induction remaining generalizing round frontier with
  | zero => exact lockstep.pure []
  | succ remaining induction =>
      have steps : related _ (readStep only frontier) (readStep only_other frontier) :=
        lockstep.gather fun entry _ => lockstep.map (each entry.1) _
      rw [readRounds_succ, readRounds_succ]
      refine lockstep.bind steps fun found => ?_
      split
      · exact lockstep.pure _
      · exact lockstep.map (induction (round + 1) _) _

theorem readRepeat (lockstep : Lockstep related)
    (each : ∀ reading, related _ (only reading) (only_other reading)) (bounds : Bounds)
    (reading : Reading) :
    related _ (Traversal.readRepeat only bounds reading)
      (Traversal.readRepeat only_other bounds reading) :=
  lockstep.map (lockstep.readRounds each bounds.least bounds.greatest 1 [(reading, [])]) _

end Primitives

section Engines

variable {σ υ : Type} {related : ∀ α : Type, Action σ EngineError α → Action υ EngineError α → Prop}

theorem decoding (outcomes : ∀ {α : Type} {decoded : Except EngineError α}, IsDecoding decoded →
      related α (Engine.outcome decoded) (Engine.outcome decoded))
    {α β : Type} {decoded : Except EngineError α} (decodes : IsDecoding decoded)
    {next : α → Action σ EngineError β} {other_next : α → Action υ EngineError β}
    (rest : ∀ result, decoded = .ok result → related β (next result) (other_next result)) :
    related β (Engine.outcome decoded >>= next) (Engine.outcome decoded >>= other_next) := by
  cases decoded with
  | ok result => exact rest result rfl
  | error error =>
      obtain ⟨builtIn, reason, rfl⟩ := decodes error rfl
      exact outcomes (isDecoding_malformed builtIn reason)

/-- Two engines with the same bound on repetitions read a primitive in lockstep. -/
theorem readPrimitive (lockstep : Lockstep related)
    (outcomes : ∀ {α : Type} {decoded : Except EngineError α}, IsDecoding decoded →
      related α (Engine.outcome decoded) (Engine.outcome decoded))
    (engine : Engine σ) (partner : Engine υ)
    (same : engine.config.maxRepeat = partner.config.maxRepeat) {node : Expansion}
    (child : Expansion → Reading → Action σ EngineError (List Reading))
    (other : Expansion → Reading → Action υ EngineError (List Reading))
    (each : ∀ below ∈ node.children, ∀ reading,
      related _ (child below reading) (other below reading))
    (builtIn : Primitive) (reading : Reading) :
    related _ (engine.readPrimitive child builtIn node reading)
      (partner.readPrimitive other builtIn node reading) := by
  cases builtIn with
  | literal => exact decoding outcomes (isDecoding_literal _) fun literal _ => lockstep.pure _
  | sequence =>
      refine decoding outcomes (.mapM (fun _ => isDecoding_slot _) _) fun slots _ => ?_
      refine lockstep.readSequence (fun entry member => ?_) _ reading
      exact each entry.1 (List.of_mem_zip member).1
  | choice => exact lockstep.readChoice each _ reading
  | optional =>
      refine decoding outcomes (isDecoding_onlyChild _ _) fun only one => ?_
      refine decoding outcomes (isDecoding_switch _ _ _) fun preferred _ => ?_
      exact lockstep.readOptional (each only (mem_children_of_onlyChild one)) preferred reading
  | «repeat» =>
      refine decoding outcomes (isDecoding_onlyChild _ _) fun only one => ?_
      rw [same]
      refine decoding outcomes (isDecoding_bounds _ _) fun bounds _ => ?_
      exact lockstep.readRepeat (each only (mem_children_of_onlyChild one)) bounds reading

end Engines

end Lockstep

end Phrasing
