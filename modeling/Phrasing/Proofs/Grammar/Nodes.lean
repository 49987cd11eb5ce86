import Phrasing.Proofs.Grammar.Language
import Phrasing.Proofs.Grammar.Rounds

/-!
# Reading legible expansions

The props of a legible node decode, so a legible expansion within the depth limit is read without an
error and without effects, and its readings go through the words of its language.
-/

namespace Phrasing

open Reading Traversal

namespace Element

theorem switch_ok {builtIn : Primitive} {element : Element} {key : String}
    (sort : Value.IsSwitch (element.prop? key)) : ∃ value, switch builtIn element key = .ok value := by
  rw [switch]
  generalize element.prop? key = prop at sort ⊢
  match prop, sort with
  | none, _ => exact ⟨false, rfl⟩
  | some .null, _ => exact ⟨false, rfl⟩
  | some (.bool value), _ => exact ⟨value, rfl⟩

theorem count_ok {builtIn : Primitive} {element : Element} {key : String}
    (sort : Value.IsCount (element.prop? key)) :
    count? builtIn element key = .ok (element.natural? key) := by
  rw [count?, natural?]
  generalize element.prop? key = prop at sort ⊢
  match prop, sort with
  | none, _ => rfl
  | some .null, _ => rfl
  | some (.int value), positive => exact if_pos positive

theorem literal_ok {element : Element} {text : String}
    (named : element.prop? "text" = some (.text text))
    (score : Value.IsScore (element.prop? "score")) :
    ∃ literal, Literal.ofElement element = .ok literal ∧ literal.text = text := by
  rw [Literal.ofElement, named]
  generalize element.prop? "score" = prop at score ⊢
  match prop, score with
  | none, _ => exact ⟨_, rfl, rfl⟩
  | some (.int value), _ => exact ⟨_, rfl, rfl⟩
  | some (.float value), _ => exact ⟨_, rfl, rfl⟩

theorem slot_ok {element : Element} (legible : element.Legible) :
    ∃ slot, Slot.ofElement element = .ok slot := by
  obtain ⟨merges, merges_eq⟩ : ∃ value, switch .sequence element "merge" = .ok value :=
    switch_ok legible.merge
  have sort := legible.key
  rw [Slot.ofElement, merges_eq]
  generalize element.prop? "id" = prop at sort ⊢
  match prop, sort with
  | none, _ => exact ⟨_, rfl⟩
  | some .null, _ => exact ⟨_, rfl⟩
  | some (.text key), _ => exact ⟨_, rfl⟩

theorem bounds_ok {element : Element} {maxRepeat : Nat}
    (least : Value.IsCount (element.prop? "min")) (greatest : Value.IsCount (element.prop? "max"))
    (positive : 1 ≤ element.greatestRepeat maxRepeat)
    (ordered : element.leastRepeat ≤ element.greatestRepeat maxRepeat) :
    Bounds.ofElement maxRepeat element =
      .ok ⟨element.leastRepeat, element.greatestRepeat maxRepeat⟩ := by
  rw [Bounds.ofElement, count_ok least, count_ok greatest]
  change (if element.greatestRepeat maxRepeat = 0 ||
      element.greatestRepeat maxRepeat < element.leastRepeat then _ else _) = _
  rw [if_neg]
  · rfl
  · simp
    omega

end Element

theorem slots_ok {children : List Expansion}
    (legible : ∀ child ∈ children, child.element.Legible) :
    ∃ slots, children.mapM (fun child => Slot.ofElement child.element) = .ok slots ∧
      slots.length = children.length := by
  induction children with
  | nil => exact ⟨[], rfl, rfl⟩
  | cons child rest induction =>
      obtain ⟨slot, slot_eq⟩ := Element.slot_ok (legible child List.mem_cons_self)
      obtain ⟨slots, slots_eq, length_eq⟩ :=
        induction fun other member => legible other (List.mem_cons_of_mem child member)
      refine ⟨slot :: slots, ?_, by simp [length_eq]⟩
      rw [List.mapM_cons, slot_eq, slots_eq]
      rfl

theorem Traversal.Reads.congr {language other : String → Prop} {read : Reading → List Reading}
    (reads : Reads language read) (same : ∀ word, other word ↔ language word) :
    Reads other read := by
  rwa [funext fun word => propext (same word)]

namespace Engine

variable {σ : Type}

/-- The readings of a node are a list that does not depend on the world, and go through the words
that the node derives. -/
structure ReadsNode (engine : Engine σ) (room : Nat) (read : Reading → List Reading)
    (node : Expansion) : Prop where
  /-- Reading has no effect and does not fail. -/
  effectless (reading : Reading) : engine.traverseAt room node reading = pure (read reading)
  /-- The readings go through the words of the node. -/
  reads : Reads (node.Derives engine.config.maxRepeat) read

theorem traverseAt_primitive (engine : Engine σ) {room : Nat} {node : Expansion}
    {builtIn : Primitive} (kind : node.element.kind = .primitive builtIn) (reading : Reading) :
    engine.traverseAt (room + 1) node reading =
      engine.readPrimitive (engine.traverseAt room) builtIn node reading := by
  rw [traverseAt, kind]

theorem traverseAt_described (engine : Engine σ) {room : Nat} {node body : Expansion}
    {type : NodeType} (kind : node.element.kind = .custom type)
    (silent : (engine.vocabulary type).visit = none) (description : node.description? = some body)
    (reading : Reading) :
    engine.traverseAt (room + 1) node reading = engine.traverseAt room body reading := by
  rw [traverseAt, kind]
  simp only [silent, description]

theorem readsNode_succ (engine : Engine σ) {room : Nat} {read : Expansion → Reading → List Reading}
    (below : ∀ child : Expansion, child.height < room →
      child.Legible engine.vocabulary engine.config.maxRepeat →
        engine.ReadsNode room (read child) child)
    {node : Expansion} (shallow : node.height < room + 1)
    (legible : node.Legible engine.vocabulary engine.config.maxRepeat) :
    ∃ found, engine.ReadsNode (room + 1) found node := by
  have child_below {child : Expansion} (member : child ∈ node.children)
      (legible : child.Legible engine.vocabulary engine.config.maxRepeat) :
      engine.ReadsNode room (read child) child :=
    below child (by have := Expansion.height_child_lt member; omega) legible
  cases legible with
  | literal kind props named score =>
      obtain ⟨literal, decoded, rfl⟩ := Element.literal_ok named score
      refine ⟨literal.read, fun reading => ?_, ?_⟩
      · rw [traverseAt_primitive engine kind, readPrimitive, decoded]
        rfl
      · exact (reads_literal literal).congr fun word => Expansion.derives_literal_iff kind named
  | sequence kind props children =>
      obtain ⟨slots, decoded, length_eq⟩ := slots_ok fun child member => (children child member).props
      have nodes : (node.children.zip slots).map Prod.fst = node.children :=
        List.map_fst_zip (by omega)
      have each : ∀ place ∈ node.children.zip slots,
          engine.ReadsNode room (read place.1) place.1 := by
        intro place member
        have inside : place.1 ∈ node.children := nodes ▸ List.mem_map_of_mem member
        exact child_below inside (children place.1 inside)
      let places := node.children.zip slots
      let result := sequenceResult places (node.element.prop? "value")
      refine ⟨sequenceReadings read places result, fun reading => ?_, ?_⟩
      · rw [traverseAt_primitive engine kind, readPrimitive, decoded]
        exact readSequence_eq_pure (fun place member => (each place member).effectless) _ reading
      · refine (reads_sequence _ fun place member => (each place member).reads).congr fun word => ?_
        rw [nodes]
        exact Expansion.derives_sequence_iff kind
  | choice kind props children =>
      refine ⟨choiceReadings read node.children (node.element.prop? "value"), fun reading => ?_, ?_⟩
      · rw [traverseAt_primitive engine kind]
        exact readChoice_eq_pure
          (fun child member => (child_below member (children child member)).effectless) _ reading
      · exact (reads_choice _ fun child member =>
          (child_below member (children child member)).reads).congr
            fun word => Expansion.derives_choice_iff kind
  | @optional _ child kind props only legible =>
      obtain ⟨preferred, decoded⟩ := Element.switch_ok props.preferred
      have inner : engine.ReadsNode room (read child) child :=
        child_below (by simp [only]) legible
      refine ⟨optionalReadings (read child) preferred, fun reading => ?_, ?_⟩
      · rw [traverseAt_primitive engine kind, readPrimitive, onlyChild, only, decoded]
        exact readOptional_eq_pure inner.effectless preferred reading
      · exact (reads_optional preferred inner.reads).congr
          fun word => Expansion.derives_optional_iff kind only
  | @repeated _ child kind props only least greatest positive ordered legible =>
      have inner : engine.ReadsNode room (read child) child :=
        child_below (by simp [only]) legible
      let bounds : Bounds :=
        ⟨node.element.leastRepeat, node.element.greatestRepeat engine.config.maxRepeat⟩
      refine ⟨repeatReadings (read child) bounds, fun reading => ?_, ?_⟩
      · rw [traverseAt_primitive engine kind, readPrimitive, onlyChild, only,
          Element.bounds_ok least greatest positive ordered]
        exact readRepeat_eq_pure inner.effectless _ reading
      · exact (reads_repeat inner.reads).congr
          fun word => Expansion.derives_repeat_iff kind only
  | @described _ body type kind silent props description legible =>
      have inner : engine.ReadsNode room (read body) body :=
        below body (by have := Expansion.height_description_lt description; omega) legible
      refine ⟨read body, fun reading => ?_, ?_⟩
      · rw [traverseAt_described engine kind silent description]
        exact inner.effectless reading
      · exact inner.reads.congr fun word => Expansion.derives_described_iff kind description

theorem exists_readsNode (engine : Engine σ) (room : Nat) :
    ∃ read : Expansion → Reading → List Reading, ∀ node : Expansion, node.height < room →
      node.Legible engine.vocabulary engine.config.maxRepeat →
        engine.ReadsNode room (read node) node := by
  induction room with
  | zero => exact ⟨fun _ _ => [], fun node shallow => absurd shallow (by omega)⟩
  | succ room induction =>
      obtain ⟨read, below⟩ := induction
      have next (node : Expansion) : ∃ found : Reading → List Reading, node.height < room + 1 →
          node.Legible engine.vocabulary engine.config.maxRepeat →
            engine.ReadsNode (room + 1) found node := by
        by_cases shallow : node.height < room + 1
        · by_cases legible : node.Legible engine.vocabulary engine.config.maxRepeat
          · obtain ⟨found, reads⟩ := engine.readsNode_succ below shallow legible
            exact ⟨found, fun _ _ => reads⟩
          · exact ⟨fun _ => [], fun _ legible' => absurd legible' legible⟩
        · exact ⟨fun _ => [], fun shallow' => absurd shallow' shallow⟩
      choose found reads using next
      exact ⟨found, reads⟩

end Engine

end Phrasing
