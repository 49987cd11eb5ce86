import Mathlib.Data.List.Forall2
import Phrasing.Content.Xxh3
import Phrasing.Proofs.Traversal.Gathering
import Phrasing.Proofs.Traversal.Steadiness

/-!
# Nested sequences

A sequence takes all readings through one child before it enters the next, while a sequence that is
nested in it is finished for one reading after another, and gathers fields of its own.  Yet where a
nested sequence merges its fields into those around it, it reads as if its children stood in its
place: the readings come in the same order, and each name stands for what was offered under it last.
-/

namespace Phrasing

open Traversal

section Mirrors

variable {ε α β γ δ : Type}

/-- Where one computation gives a result, another one gives a related result. -/
def Mirrors (related : α → β → Prop) (computation : Except ε α) (other : Except ε β) : Prop :=
  ∀ result, computation = .ok result → ∃ partner, other = .ok partner ∧ related result partner

variable {related : α → β → Prop} {related_next : γ → δ → Prop}

theorem mirrors_pure {result : α} {partner : β} (same : related result partner) :
    Mirrors related (pure result : Except ε α) (pure partner) := by
  rintro _ ⟨⟩
  exact ⟨partner, rfl, same⟩

theorem mirrors_refl (computation : Except ε α) : Mirrors Eq computation computation :=
  fun result run => ⟨result, run, rfl⟩

theorem Mirrors.trans {computation other : Except ε α} {third : Except ε β}
    (first : Mirrors Eq computation other) (second : Mirrors related other third) :
    Mirrors related computation third := by
  intro result run
  obtain ⟨partner, run_other, rfl⟩ := first result run
  exact second result run_other

theorem Mirrors.bind {computation : Except ε α} {other : Except ε β} {next : α → Except ε γ}
    {other_next : β → Except ε δ} (first : Mirrors related computation other)
    (rest : ∀ result partner, related result partner →
      Mirrors related_next (next result) (other_next partner)) :
    Mirrors related_next (computation >>= next) (other >>= other_next) := by
  intro result run
  obtain ⟨middle, run_first, run_rest⟩ := except_bind_eq_ok.mp run
  obtain ⟨partner, run_other, same⟩ := first middle run_first
  obtain ⟨last, run_last, same_last⟩ := rest middle partner same result run_rest
  exact ⟨last, except_bind_eq_ok.mpr ⟨partner, run_other, run_last⟩, same_last⟩

theorem mirrors_gather {step : α → Except ε (List γ)} {other : β → Except ε (List δ)}
    {items : List α} {others : List β} (alike : List.Forall₂ related items others)
    (each : ∀ item partner, related item partner →
      Mirrors (List.Forall₂ related_next) (step item) (other partner)) :
    Mirrors (List.Forall₂ related_next) (gather step items) (gather other others) := by
  induction alike with
  | nil => exact mirrors_pure .nil
  | cons same _ induction =>
      refine (each _ _ same).bind fun first first_partner first_alike => ?_
      refine induction.bind fun rest rest_partner rest_alike => ?_
      exact mirrors_pure (List.rel_append first_alike rest_alike)

end Mirrors

namespace Traversal

section Entries

variable {ε : Type} {child : Expansion → Reading → Except ε (List Reading)}

/-- Where readings can be taken through the children of a sequence together, they can be taken through
them in two parts. -/
theorem mirrors_readSlots_append (slots : List (Expansion × Slot))
    (front back : List (Reading × Props)) :
    Mirrors Eq (readSlots child slots (front ++ back))
      (readSlots child slots front >>= fun first =>
        readSlots child slots back >>= fun rest => pure (first ++ rest)) := by
  induction slots generalizing front back with
  | nil => exact mirrors_refl _
  | cons slot rest induction =>
      intro result run
      rw [readSlots_cons, gather_append] at run
      obtain ⟨next, run_both, run_next⟩ := except_bind_eq_ok.mp run
      obtain ⟨first, run_first, run_both⟩ := except_bind_eq_ok.mp run_both
      obtain ⟨second, run_second, both_eq⟩ := except_bind_eq_ok.mp run_both
      obtain rfl := Except.ok.inj both_eq
      obtain ⟨_, run_parts, rfl⟩ := induction first second result run_next
      obtain ⟨outs, run_outs, run_parts⟩ := except_bind_eq_ok.mp run_parts
      refine ⟨result, ?_, rfl⟩
      rw [readSlots_cons, readSlots_cons, run_first, run_second]
      exact except_bind_eq_ok.mpr ⟨outs, run_outs, run_parts⟩

/-- Where readings can be taken through the children of a sequence together, they can be taken through
them one after another. -/
theorem mirrors_one_by_one (slots : List (Expansion × Slot)) (partials : List (Reading × Props)) :
    Mirrors Eq (readSlots child slots partials)
      (gather (fun entry => readSlots child slots [entry]) partials) := by
  induction partials with
  | nil =>
      rw [readSlots_nil]
      exact mirrors_refl _
  | cons entry rest induction =>
      refine (mirrors_readSlots_append slots [entry] rest).trans ?_
      refine (mirrors_refl _).bind ?_
      rintro first _ rfl
      refine induction.bind ?_
      rintro others _ rfl
      exact mirrors_refl _

/-- Entries of a sequence whose readings differ in their results only, and whose fields are related. -/
structure Alike (related : Props → Props → Prop) (entry other : Reading × Props) : Prop where
  /-- The readings are the same up to their results. -/
  readings : entry.1.withResult .null = other.1.withResult .null
  /-- The fields are related. -/
  fields : related entry.2 other.2

theorem Alike.withResult {related : Props → Props → Prop} {entry other : Reading × Props}
    (alike : Alike related entry other) (result : Value) :
    entry.1.withResult result = other.1.withResult result :=
  congrArg (·.withResult result) alike.readings

/-- The children of a sequence keep entries alike, if their slots keep fields related. -/
theorem mirrors_readSlots {related : Props → Props → Prop} {slots : List (Expansion × Slot)}
    (kept : ∀ slot ∈ slots, ∀ result fields others, related fields others →
      related (slot.2.put result fields) (slot.2.put result others))
    {partials others : List (Reading × Props)} (alike : List.Forall₂ (Alike related) partials others) :
    Mirrors (List.Forall₂ (Alike related)) (readSlots child slots partials)
      (readSlots child slots others) := by
  induction slots generalizing partials others with
  | nil => exact mirrors_pure alike
  | cons slot rest induction =>
      have first : Mirrors (List.Forall₂ (Alike related)) (gather (readSlot child slot) partials)
          (gather (readSlot child slot) others) := by
        refine mirrors_gather alike fun entry other same => ?_
        rw [readSlot, readSlot, same.readings]
        refine (mirrors_refl _).bind ?_
        rintro outs _ rfl
        apply mirrors_pure
        rw [List.forall₂_map_left_iff, List.forall₂_map_right_iff, List.forall₂_same]
        intro out _
        exact ⟨rfl, kept slot List.mem_cons_self out.result _ _ same.fields⟩
      refine first.bind fun next partners next_alike => ?_
      exact induction (fun other member => kept other (List.mem_cons_of_mem slot member)) next_alike

end Entries

section Nesting

variable {ε : Type} {child : Expansion → Reading → Except ε (List Reading)} {gathered : Props}
  {slots : List (Expansion × Slot)}

/-- The slot of a child that merges its fields. -/
def Slot.merging : Slot :=
  { key? := none, merges := true }

/-- The same fields, in order. -/
def SameFields (fields others : Props) : Prop :=
  fields = others ∧ Fields.Ordered fields

theorem SameFields.put {fields others : Props} (same : SameFields fields others) (slot : Slot)
    (result : Value) : SameFields (slot.put result fields) (slot.put result others) := by
  obtain ⟨rfl, ordered⟩ := same
  refine ⟨rfl, ?_⟩
  rw [slot.put_eq_insertAll]
  exact Fields.ordered_insertAll ordered _

/-- Fields to which children have added, and what they have added. -/
def Adds (gathered : Props) (keyed : Bool) (fields added : Props) : Prop :=
  ∃ offers, fields = Fields.insertAll gathered offers ∧ added = Fields.ofList offers ∧
    (keyed = false → offers = [])

theorem Adds.put {keyed : Bool} {fields added : Props} (adds : Adds gathered keyed fields added)
    {slot : Slot} (some_key : keyed = false → slot.isKeyed = false) (result : Value) :
    Adds gathered keyed (slot.put result fields) (slot.put result added) := by
  obtain ⟨offers, rfl, rfl, nothing⟩ := adds
  refine ⟨offers ++ slot.offers result, ?_, ?_, fun none_keyed => ?_⟩
  · rw [slot.put_eq_insertAll, Fields.insertAll_append]
  · rw [slot.put_eq_insertAll, Fields.ofList_append]
  · rw [nothing none_keyed, Slot.offers_eq_nil (some_key none_keyed), List.append_nil]

/-- To merge what the children of a sequence have added is to add it one by one. -/
theorem Adds.merge {fields added : Props} (ordered : Fields.Ordered gathered)
    (adds : Adds gathered (slots.any fun entry => entry.2.isKeyed) fields added) :
    SameFields fields (Slot.merging.put (sequenceResult slots none added) gathered) := by
  obtain ⟨offers, rfl, rfl, nothing⟩ := adds
  refine ⟨?_, Fields.ordered_insertAll ordered offers⟩
  rw [sequenceResult]
  cases keyed : slots.any fun entry => entry.2.isKeyed with
  | false =>
      rw [nothing keyed]
      rfl
  | true => exact (Fields.insertAll_ofList ordered offers).symm

/-- Sequences in which some child is to offer fields have the same result. -/
theorem sequenceResult_eq {others : List (Expansion × Slot)}
    (keyed : (slots.any fun entry => entry.2.isKeyed) = true)
    (others_keyed : (others.any fun entry => entry.2.isKeyed) = true) :
    sequenceResult slots = sequenceResult others := by
  funext fixed fields
  simp only [sequenceResult, keyed, others_keyed]

theorem keyed_placed {children : List Expansion}
    (keyed : ∃ child ∈ children, child.element.slot.isKeyed) :
    ((placed children).any fun entry => entry.2.isKeyed) = true := by
  rw [any_placed]
  exact List.any_eq_true.mpr keyed

/-- A nested sequence takes an entry through its children, and merges what they have added. -/
def readNested (child : Expansion → Reading → Except ε (List Reading))
    (slots : List (Expansion × Slot)) (entry : Reading × Props) :
    Except ε (List (Reading × Props)) := do
  let outs ← readSequence child slots none (entry.1.withResult .null)
  pure (outs.map fun out => (out, Slot.merging.put out.result entry.2))

theorem mirrors_readNested {entry other : Reading × Props} (alike : Alike SameFields entry other) :
    Mirrors (List.Forall₂ (Alike SameFields)) (readSlots child slots [entry])
      (readNested child slots other) := by
  obtain ⟨reading, fields⟩ := entry
  obtain ⟨partner, others⟩ := other
  obtain ⟨readings_eq, rfl, ordered⟩ := alike
  -- The nested sequence starts with no fields, where the other goes on with those gathered so far.
  let adds := Adds fields (slots.any fun entry => entry.2.isKeyed)
  have kept : ∀ slot ∈ slots, ∀ result fields added, adds fields added →
      adds (slot.2.put result fields) (slot.2.put result added) := by
    intro slot member result _ _ so_far
    apply so_far.put
    intro none_keyed
    simpa using List.any_eq_false.mp none_keyed slot member
  have started : List.Forall₂ (Alike adds) [(reading, fields)] [(partner.withResult .null, [])] :=
    .cons ⟨readings_eq, [], rfl, rfl, fun _ => rfl⟩ .nil
  intro result run
  obtain ⟨partners, run_inside, inside⟩ := mirrors_readSlots kept started result run
  refine ⟨partners.map fun entry => (entry.1.withResult (sequenceResult slots none entry.2),
    Slot.merging.put (sequenceResult slots none entry.2) fields), ?_, ?_⟩
  · rw [readNested, readSequence, run_inside]
    exact congrArg Except.ok List.map_map
  · rw [List.forall₂_map_right_iff]
    apply inside.imp
    intro entry other same
    exact ⟨same.readings, same.fields.merge ordered⟩

/-- The readings through the children of a sequence and of a nested sequence between them. -/
def readSlotsAround (child : Expansion → Reading → Except ε (List Reading))
    (front slots back : List (Expansion × Slot)) (partials : List (Reading × Props)) :
    Except ε (List (Reading × Props)) := do
  let before ← readSlots child front partials
  let after ← gather (readNested child slots) before
  readSlots child back after

/-- The readings of a sequence with a nested sequence, given the result for the fields gathered. -/
def readAround (child : Expansion → Reading → Except ε (List Reading))
    (front slots back : List (Expansion × Slot)) (result : Props → Value) (reading : Reading) :
    Except ε (List Reading) := do
  let finished ← readSlotsAround child front slots back [(reading, [])]
  pure (finished.map fun entry => entry.1.withResult (result entry.2))

/-- The children of a nested sequence are read as if they stood in its place. -/
theorem mirrors_readSlotsAround (front back : List (Expansion × Slot)) (reading : Reading) :
    Mirrors (List.Forall₂ (Alike SameFields)) (readSlots child (front ++ slots ++ back) [(reading, [])])
      (readSlotsAround child front slots back [(reading, [])]) := by
  have kept {part : List (Expansion × Slot)} : ∀ slot ∈ part, ∀ result fields others,
      SameFields fields others → SameFields (slot.2.put result fields) (slot.2.put result others) :=
    fun slot _ result _ _ same => same.put slot.2 result
  have started : List.Forall₂ (Alike SameFields) [(reading, [])] [(reading, [])] :=
    .cons ⟨rfl, rfl, Fields.ordered_nil⟩ .nil
  rw [readSlots_append, readSlots_append, bind_assoc]
  -- Both go through the front together; then one is breadth first, the other entry by entry.
  refine (mirrors_readSlots kept started).bind fun before partners alike => ?_
  refine Mirrors.bind ?_ fun after others after_alike => mirrors_readSlots kept after_alike
  refine (mirrors_one_by_one slots before).trans ?_
  exact mirrors_gather alike fun entry other same => mirrors_readNested same

theorem mirrors_readAround (front back : List (Expansion × Slot)) (fixed : Option Value)
    (reading : Reading) :
    Mirrors Eq (readSequence child (front ++ slots ++ back) fixed reading)
      (readAround child front slots back (sequenceResult (front ++ slots ++ back) fixed) reading) := by
  refine (mirrors_readSlotsAround front back reading).bind fun finished partners alike => ?_
  let report : Reading × Props → Reading := fun entry =>
    entry.1.withResult (sequenceResult (front ++ slots ++ back) fixed entry.2)
  have each : List.Forall₂ (· = ·) (finished.map report) (partners.map report) := by
    rw [List.forall₂_map_left_iff, List.forall₂_map_right_iff]
    apply alike.imp
    intro entry other same
    exact (same.withResult _).trans (congrArg _ (congrArg _ same.fields.1))
  rw [List.forall₂_eq_eq_eq] at each
  exact mirrors_pure each

end Nesting

end Traversal

/-- A sequence of children that take slots. -/
structure Expansion.IsSequenceOf (node : Expansion) (children : List Expansion) : Prop where
  /-- The node is a sequence. -/
  kind : node.element.kind = .primitive .sequence
  /-- It has the children. -/
  children_eq : node.children = children
  /-- The children take slots. -/
  placed : ∀ child ∈ children, child.element.Placed

namespace Engine

variable {σ : Type} {engine : Engine σ} {valid : World σ → Prop} {xs ys zs : List Expansion}
  {node inner : Expansion} {meant : Expansion → Reading → Except EngineError (List Reading)}

theorem traverseAt_isSequenceOf (engine : Engine σ) {children : List Expansion}
    (sequence : node.IsSequenceOf children) (room : Nat) (reading : Reading) :
    engine.traverseAt (room + 1) node reading =
      readSequence (engine.traverseAt room) (placed children) (node.element.prop? "value") reading := by
  obtain ⟨kind, rfl, each⟩ := sequence
  exact engine.traverseAt_sequence kind each reading

theorem realizes_slots (steady : ∀ child ∈ ys, engine.Steady valid child (meant child)) (room : Nat)
    (partials : List (Reading × Props)) :
    (engine.limited valid).Realizes (readSlots (engine.traverseAt room) (placed ys) partials)
      (readSlots meant (placed ys) partials) := by
  apply Regime.realizes_lockstep.readSlots
  intro slot member reading
  obtain ⟨child, among, rfl⟩ := List.mem_map.mp member
  exact steady child among room reading

/-- A sequence of steady children is steady. -/
theorem steady_sequence (sequence : node.IsSequenceOf ys)
    (steady : ∀ child ∈ ys, engine.Steady valid child (meant child)) :
    engine.Steady valid node (readSequence meant (placed ys) (node.element.prop? "value")) := by
  apply steady_of_succ
  intro room reading
  rw [engine.traverseAt_isSequenceOf sequence]
  exact (realizes_slots steady room [(reading, [])]).map _

/-- A sequence with a nested sequence of steady children is steady. -/
theorem steady_around (sequence : node.IsSequenceOf (xs ++ inner :: zs))
    (nested : inner.IsSequenceOf ys) (merging : inner.element.slot = Slot.merging)
    (unfixed : inner.element.prop? "value" = none)
    (steady : ∀ child ∈ xs ++ ys ++ zs, engine.Steady valid child (meant child)) :
    engine.Steady valid node
      (readAround meant (placed xs) (placed ys) (placed zs)
        (sequenceResult (placed (xs ++ inner :: zs)) (node.element.prop? "value"))) := by
  have steady_front : ∀ child ∈ xs, engine.Steady valid child (meant child) :=
    fun child member => steady child (by simp [member])
  have steady_nested : ∀ child ∈ ys, engine.Steady valid child (meant child) :=
    fun child member => steady child (by simp [member])
  have steady_back : ∀ child ∈ zs, engine.Steady valid child (meant child) :=
    fun child member => steady child (by simp [member])
  have steady_inner : engine.Steady valid inner (readSequence meant (placed ys) none) :=
    unfixed ▸ steady_sequence nested steady_nested
  have slots_eq : placed (xs ++ inner :: zs) = placed xs ++ (inner, Slot.merging) :: placed zs := by
    simp [placed, merging]
  apply steady_of_succ
  intro room reading
  rw [engine.traverseAt_isSequenceOf sequence]
  refine Regime.Realizes.map ?_ _
  rw [slots_eq, readSlots_append]
  refine (realizes_slots steady_front room _).bind fun before _ => ?_
  refine Regime.Realizes.bind ?_ fun after _ => realizes_slots steady_back room after
  exact Regime.realizes_lockstep.gather fun entry _ => (steady_inner room _).map _

/-- A sequence that merges its fields can be nested or not.  Where a sequence over all children gives
readings, so does one in which some of the children are gathered in a nested sequence, and it gives
the same ones in the same order, unless the depth limit is exceeded. -/
theorem nested_sequences_flatten (engine : Engine σ) {flat nested : Expansion}
    (flat_sequence : flat.IsSequenceOf (xs ++ ys ++ zs))
    (nested_sequence : nested.IsSequenceOf (xs ++ inner :: zs)) (inner_sequence : inner.IsSequenceOf ys)
    (same_value : nested.element.prop? "value" = flat.element.prop? "value")
    (merging : inner.element.slot = Slot.merging) (unfixed : inner.element.prop? "value" = none)
    (keyed : ∃ child ∈ xs ++ ys ++ zs, child.element.slot.isKeyed)
    (calm : ∀ child ∈ xs ++ ys ++ zs, engine.Calm valid child)
    {flat_room room : Nat} {reading : Reading} {flat_world flat_after world : World σ}
    {readings : List Reading} (flat_valid : valid flat_world) (valid_world : valid world)
    (run : engine.traverseAt flat_room flat reading flat_world = .ok readings flat_after)
    (within : ∀ kind after, engine.traverseAt room nested reading world ≠
      .error (.traversalTooDeep engine.config.maxDepth kind) after) :
    ∃ after, engine.traverseAt room nested reading world = .ok readings after := by
  have meanings : ∀ child ∈ xs ++ ys ++ zs, ∃ meant, engine.Steady valid child meant :=
    fun child member => (calm child member).exists_steady
  choose! meant steady using meanings
  have flat_meets := steady_sequence flat_sequence steady flat_room reading flat_world flat_valid
  rw [run] at flat_meets
  obtain ⟨_, read_flat, -, -, rfl⟩ := flat_meets.of_ok
  have slots_eq : placed (xs ++ ys ++ zs) = placed xs ++ placed ys ++ placed zs := by simp [placed]
  rw [slots_eq] at read_flat
  obtain ⟨_, read_around, rfl⟩ := mirrors_readAround _ _ _ reading readings read_flat
  have nested_keyed : ∃ child ∈ xs ++ inner :: zs, child.element.slot.isKeyed :=
    ⟨inner, by simp, by rw [merging]; rfl⟩
  rw [← slots_eq, sequenceResult_eq (keyed_placed keyed) (keyed_placed nested_keyed), ← same_value]
    at read_around
  have meets := steady_around nested_sequence inner_sequence merging unfixed steady room reading world
    valid_world
  rw [read_around] at meets
  generalize engine.traverseAt room nested reading world = outcome at meets within ⊢
  cases meets with
  | @ok _ _ after _ _ same => exact ⟨after, same ▸ rfl⟩
  | @excused _ after _ _ _ excuse =>
      obtain ⟨kind, rfl⟩ := excuse
      exact absurd rfl (within kind after)

/-- A type whose nodes stamp a letter. -/
private def stamping : NodeType :=
  ⟨0, "Stamp"⟩

/-- What a stamp leaves on a letter. -/
private def stamped (reading : Reading) : Reading :=
  reading.withResult (.map [("day", .int 12)])

/-- An engine for letters with stamps. -/
private def posting : Engine Unit where
  vocabulary := fun _ => { visit := some fun reading _ _ => pure [stamped reading] }
  processor := .identity

/-- A stamp, whose fields are merged. -/
private def stamp : Expansion :=
  .structural (.make 1 (.custom stamping) [("merge", .bool true)] []) none []

/-- A name with a number, under one key. -/
private def name (text : String) (number : Int64) : Expansion :=
  .structural (.make 2 (.primitive .literal)
    [("id", .text "name"), ("text", .text text), ("value", .int number)] []) none []

/-- The letter in one sequence. -/
private def letter : Expansion :=
  .structural (.make 3 (.primitive .sequence) [] []) none
    [name "ann" 1, stamp, name "bob" 2, stamp]

/-- The body of the letter. -/
private def body : Expansion :=
  .structural (.make 4 (.primitive .sequence) [("merge", .bool true)] []) none [stamp, name "bob" 2]

/-- The letter with a body of its own. -/
private def bodied : Expansion :=
  .structural (.make 5 (.primitive .sequence) [] []) none [name "ann" 1, body, stamp]

private theorem stamp_calm : posting.Calm (fun _ => True) stamp :=
  .visited (steady_of_succ fun _ reading _ _ =>
    .ok trivial trivial (rfl : [stamped reading] = [stamped reading]))

private theorem name_calm (text : String) (number : Int64) :
    posting.Calm (fun _ => True) (name text number) :=
  calm_of_silent (.structural (fun _ kind => nomatch kind) nofun)

/-- The second name takes the place of the first, also where it stands in the body. -/
theorem nested_sequences_flatten_letter :
    ∃ out after, posting.traverseAt 3 bodied (.ofInput "annbob") ⟨.empty, ()⟩ = .ok [out] after ∧
      out.result = .map [("day", .int 12), ("name", .int 2)] ∧ out.text = some "" := by
  have named (text : String) (number : Int64) : (name text number).element.Placed :=
    ⟨trivial, trivial⟩
  have stamp_placed : stamp.element.Placed := ⟨trivial, trivial⟩
  have body_placed : body.element.Placed := ⟨trivial, trivial⟩
  have flat : letter.IsSequenceOf ([name "ann" 1] ++ [stamp, name "bob" 2] ++ [stamp]) :=
    ⟨rfl, rfl, by simp [named, stamp_placed]⟩
  have inner : body.IsSequenceOf [stamp, name "bob" 2] :=
    ⟨rfl, rfl, by simp [named, stamp_placed]⟩
  have nested : bodied.IsSequenceOf ([name "ann" 1] ++ body :: [stamp]) :=
    ⟨rfl, rfl, by simp [named, stamp_placed, body_placed]⟩
  obtain ⟨out, run, result_eq, text_eq⟩ : ∃ out,
      posting.traverseAt 2 letter (.ofInput "annbob") ⟨.empty, ()⟩ = .ok [out] ⟨.empty, ()⟩ ∧
        out.result = .map [("day", .int 12), ("name", .int 2)] ∧ out.text = some "" :=
    ⟨_, rfl, rfl, by decide⟩
  have within : ∀ kind after, posting.traverseAt 3 bodied (.ofInput "annbob") ⟨.empty, ()⟩ ≠
      .error (.traversalTooDeep posting.config.maxDepth kind) after := fun _ _ => nofun
  have calm : ∀ child ∈ [name "ann" 1] ++ [stamp, name "bob" 2] ++ [stamp],
      posting.Calm (fun _ => True) child := by
    simp [stamp_calm, name_calm]
  obtain ⟨after, run_nested⟩ := posting.nested_sequences_flatten flat nested inner rfl rfl rfl
    ⟨stamp, by simp, rfl⟩ calm trivial trivial run within
  exact ⟨out, after, run_nested, result_eq, text_eq⟩

end Engine

end Phrasing
