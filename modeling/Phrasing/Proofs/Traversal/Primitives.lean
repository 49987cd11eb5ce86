import Phrasing.Proofs.Grammar.Steps
import Phrasing.Proofs.Traversal.Twins
import Phrasing.Traversal.Engine

/-!
# Primitives read alike

What primitives make of readings is uniform if what their children make of them is: alike nodes give
alike readings from alike readings, or fail with the same error.
-/

namespace Phrasing

open Traversal

variable {σ ε : Type} {census : Census σ} {valid : World σ → Prop} {left right : World σ}

theorem Census.Alike.rest_eq {left right : σ} {first second : Reading}
    (alike : census.Alike left right first second) : first.text = second.text :=
  (Census.alike_reading.mp alike).1

/-- Literals that are alike read alike. -/
theorem literal_read_alike {literal other : Literal} {first second : Reading}
    (literals : LiteralsAlike census left.ambient right.ambient literal other)
    (alike : census.Alike left.ambient right.ambient first second) :
    census.AlikeEach left right (literal.read first) (other.read second) := by
  obtain ⟨text_eq, fragments_eq, score_eq, -⟩ := Census.alike_reading.mp alike
  have next (text : Option String) (fragments : List Fragment) :
      census.Alike left.ambient right.ambient
        ({ text, fragments := first.fragments ++ fragments, result := literal.result
           score := first.score * literal.score } : Reading)
        { text, fragments := second.fragments ++ fragments, result := other.result
          score := second.score * other.score } :=
    Census.alike_reading.mpr ⟨rfl, by rw [fragments_eq], by rw [score_eq, literals.score_eq],
      literals.result⟩
  rw [Literal.read, Literal.read, text_eq, literals.text_eq]
  split
  · exact .cons (next _ _) .nil
  · split
    · exact .cons (next _ _) .nil
    · split
      · exact .cons (next _ _) .nil
      · exact .nil

theorem formFields_insert (focus : Focus) (name : String) (value : Value) (fields : Props) :
    Value.formFields focus (Fields.insert name value fields) =
      Fields.insert name (value.form focus) (Value.formFields focus fields) := by
  induction fields with
  | nil => rfl
  | cons field rest induction =>
      obtain ⟨other, present⟩ := field
      simp only [Fields.insert, Value.formFields]
      split
      · rfl
      · split
        · rfl
        · rw [Value.formFields, induction]

theorem formFields_insertAll (focus : Focus) (fields added : Props) :
    Value.formFields focus (Fields.insertAll fields added) =
      Fields.insertAll (Value.formFields focus fields) (Value.formFields focus added) := by
  induction added generalizing fields with
  | nil => rfl
  | cons field rest induction =>
      obtain ⟨name, value⟩ := field
      have tail := induction (Fields.insert name value fields)
      rw [formFields_insert] at tail
      exact tail

theorem every_insertAll {number : Float → Prop} {node : Element → Prop} {fields added : Props}
    (every : Value.EveryField number node fields)
    (every_added : Value.EveryField number node added) :
    Value.EveryField number node (Fields.insertAll fields added) := by
  induction added generalizing fields with
  | nil => exact every
  | cons field rest induction =>
      exact induction (every_insert every_added.1 every) every_added.2

theorem Traversal.Slot.form_put (slot : Slot) (result : Value) (fields : Props) :
    Value.formFields .structural (slot.put result fields) =
      slot.put (result.form .structural) (Value.formFields .structural fields) := by
  obtain ⟨key?, merges⟩ := slot
  cases key? with
  | some key => exact formFields_insert _ key result fields
  | none =>
      cases merges with
      | false => cases result <;> rfl
      | true =>
          cases result with
          | map added =>
              rw [Value.form]
              exact formFields_insertAll _ fields added
          | _ => rfl

theorem Traversal.Slot.every_put {number : Float → Prop} {node : Element → Prop} (slot : Slot)
    {result : Value} {fields : Props} (every_result : result.Every number node)
    (every : Value.EveryField number node fields) :
    Value.EveryField number node (slot.put result fields) := by
  obtain ⟨key?, merges⟩ := slot
  cases key? with
  | some key => exact every_insert every_result every
  | none =>
      cases merges with
      | false => cases result <;> exact every
      | true =>
          cases result with
          | map added => exact every_insertAll every every_result
          | _ => exact every

/-- A slot puts results that are alike into fields that are alike. -/
theorem slot_put_alike {left right : σ} (slot : Slot) {result other : Value} {fields others : Props}
    (results : census.Alike left right result other)
    (alike : census.Alike left right fields others) :
    census.Alike left right (slot.put result fields) (slot.put other others) := by
  refine ⟨slot.every_put results.knows_left alike.knows_left,
    slot.every_put results.knows_right alike.knows_right, ?_⟩
  have results_eq : result.form .structural = other.form .structural := results.form_eq
  have fields_eq : Value.formFields .structural fields = Value.formFields .structural others :=
    alike.form_eq
  change Value.formFields .structural (slot.put result fields) =
    Value.formFields .structural (slot.put other others)
  rw [slot.form_put, slot.form_put, results_eq, fields_eq]

instance : Structured Slot where
  form _ slot := slot
  Every _ _ _ := True
  every_imp _ _ := trivial

/-- Children that are alike and take the same slots. -/
theorem zip_slots_alike {first second : List Expansion} (slots : List Slot)
    (alike : census.AlikeEach left right first second) :
    census.AlikeEach left right (first.zip slots) (second.zip slots) := by
  induction alike generalizing slots with
  | nil => exact .nil
  | cons child _ induction =>
      cases slots with
      | nil => exact .nil
      | cons slot rest =>
          exact .cons (Census.alike_pair.mpr ⟨child, trivial, trivial, rfl⟩) (induction rest)

theorem any_keyed_eq {first second : List (Expansion × Slot)}
    (alike : census.AlikeEach left right first second) :
    (first.any fun entry => entry.2.isKeyed) = second.any fun entry => entry.2.isKeyed := by
  induction alike with
  | nil => rfl
  | cons entry _ induction =>
      have slot_eq := (Census.alike_pair.mp entry).2.form_eq
      rw [List.any_cons, List.any_cons, induction]
      exact congrArg (fun slot : Slot => slot.isKeyed || _) slot_eq

section Children

variable {child : Expansion → Reading → Action σ ε (List Reading)}
  (uniform : census.Uniform valid child)

include uniform

theorem readSlots_twins {slots others : List (Expansion × Slot)}
    {partials other_partials : List (Reading × Props)} (valid_left : valid left)
    (valid_right : valid right) (alike_slots : census.AlikeEach left right slots others)
    (alike : census.AlikeEach left right partials other_partials) :
    (census.reading valid).Twins left right census.AlikeEach (readSlots child slots partials left)
      (readSlots child others other_partials right) := by
  induction slots generalizing others partials other_partials left right with
  | nil =>
      cases alike_slots
      exact .pure valid_left valid_right alike
  | cons entry rest induction =>
      obtain ⟨other, rest_others, alike_entry, alike_rest, rfl⟩ :=
        List.forall₂_cons_left_iff.mp alike_slots
      obtain ⟨node, slot⟩ := entry
      obtain ⟨other_node, other_slot⟩ := other
      obtain ⟨nodes, slots⟩ := Census.alike_pair.mp alike_entry
      obtain rfl : slot = other_slot := slots.form_eq
      rw [readSlots, readSlots]
      refine .bind (gather_twins valid_left valid_right alike ?_) ?_
      · intro after_left after_right entry partner after_valid_left after_valid_right grows_left
          grows_right related
        obtain ⟨readings, fields⟩ := Census.alike_pair.mp related
        refine .map (uniform after_valid_left after_valid_right
          (nodes.grow grows_left grows_right) (readings.withResult Census.alike_null)) ?_
        intro outs others late_left late_right later_left later_right alike_outs
        refine alike_outs.map fun out partner alike_out => ?_
        exact Census.alike_pair.mpr ⟨alike_out,
          slot_put_alike slot alike_out.result (fields.grow later_left later_right)⟩
      · intro next others after_left after_right after_valid_left after_valid_right grows_left
          grows_right alike_next
        exact induction after_valid_left after_valid_right
          (Census.AlikeEach.grow alike_rest grows_left grows_right) alike_next

/-- A sequence whose children and whose fixed result are alike reads alike. -/
theorem readSequence_twins {children others : List (Expansion × Slot)} {fixed other : Option Value}
    {first second : Reading} (valid_left : valid left) (valid_right : valid right)
    (alike_children : census.AlikeEach left right children others)
    (alike_fixed : Option.Rel (census.Alike left.ambient right.ambient) fixed other)
    (alike : census.Alike left.ambient right.ambient first second) :
    (census.reading valid).Twins left right census.AlikeEach
      (readSequence child children fixed first left)
      (readSequence child others other second right) := by
  have start : census.AlikeEach left right [(first, ([] : Props))] [(second, [])] :=
    .cons (Census.alike_pair.mpr ⟨alike, trivial, trivial, rfl⟩) .nil
  rw [readSequence, readSequence, any_keyed_eq alike_children]
  refine .map (readSlots_twins uniform valid_left valid_right alike_children start) ?_
  intro finished others_finished after_left after_right grows_left grows_right alike_finished
  refine alike_finished.map fun entry partner related => ?_
  obtain ⟨readings, fields⟩ := Census.alike_pair.mp related
  refine readings.withResult ?_
  cases alike_fixed with
  | some value => exact value.grow grows_left grows_right
  | none =>
      change census.Alike _ _ (ite _ _ _) (ite _ _ _)
      split
      · exact fields.asMap
      · exact Census.alike_null

/-- A choice whose children and whose fixed result are alike reads alike. -/
theorem readChoice_twins {children others : List Expansion} {fixed other : Option Value}
    {first second : Reading} (valid_left : valid left) (valid_right : valid right)
    (alike_children : census.AlikeEach left right children others)
    (alike_fixed : Option.Rel (census.Alike left.ambient right.ambient) fixed other)
    (alike : census.Alike left.ambient right.ambient first second) :
    (census.reading valid).Twins left right census.AlikeEach
      (readChoice child children fixed first left)
      (readChoice child others other second right) := by
  refine gather_twins valid_left valid_right alike_children ?_
  intro middle_left middle_right node partner middle_valid_left middle_valid_right grows_left
    grows_right nodes
  refine .map (uniform middle_valid_left middle_valid_right nodes
    (alike.grow grows_left grows_right)) ?_
  intro outs others after_left after_right later_left later_right alike_outs
  cases alike_fixed with
  | none => exact alike_outs
  | some value =>
      exact alike_outs.map fun out partner related => related.withResult
        (value.grow (grows_left.trans later_left) (grows_right.trans later_right))

theorem readOptional_twins {node other : Expansion} {first second : Reading} (preferred : Bool)
    (valid_left : valid left) (valid_right : valid right)
    (nodes : census.Alike left.ambient right.ambient node other)
    (alike : census.Alike left.ambient right.ambient first second) :
    (census.reading valid).Twins left right census.AlikeEach
      (readOptional child node preferred first left)
      (readOptional child other preferred second right) := by
  refine .map (uniform valid_left valid_right nodes alike) ?_
  intro taken others after_left after_right grows_left grows_right alike_taken
  have skipped : census.Alike after_left.ambient after_right.ambient (first.withResult .null)
      (second.withResult .null) :=
    (alike.grow grows_left grows_right).withResult Census.alike_null
  split
  · exact alike_taken.append (.cons skipped .nil)
  · exact .cons skipped alike_taken

end Children

theorem progressed_eq {before after other_before other_after : Reading}
    (alike_before : census.Alike left.ambient right.ambient before other_before)
    (alike_after : census.Alike left.ambient right.ambient after other_after) :
    progressed before after = progressed other_before other_after := by
  rw [progressed, progressed, alike_before.rest_eq, alike_after.rest_eq]

theorem reported_alike (least round : Nat) {steps others : List (Reading × Reading × List Value)}
    (alike : census.AlikeEach left right steps others) :
    census.AlikeEach left right (reported least round steps) (reported least round others) := by
  rw [reported, reported]
  split
  · refine alike.map fun step partner related => ?_
    obtain ⟨out, results⟩ := Census.alike_pair.mp (Census.alike_pair.mp related).2
    exact out.withResult results.asList
  · exact .nil

theorem passedOn_alike (least remaining round : Nat)
    {steps others : List (Reading × Reading × List Value)}
    (alike : census.AlikeEach left right steps others) :
    census.AlikeEach left right (passedOn least remaining round steps)
      (passedOn least remaining round others) := by
  rw [passedOn, passedOn]
  split
  · exact .nil
  · refine (alike.filter fun step partner related => ?_).map fun step partner related =>
      (Census.alike_pair.mp related).2
    obtain ⟨before, related⟩ := Census.alike_pair.mp related
    rw [progressed_eq before (Census.alike_pair.mp related).1]

section Repetitions

variable {only other : Reading → Action σ ε (List Reading)}

/-- The child of a repetition reads alike in all later worlds. -/
def Census.Repeats (census : Census σ) (valid : World σ → Prop) (left right : World σ)
    (only other : Reading → Action σ ε (List Reading)) : Prop :=
  ∀ after_left after_right first second, valid after_left → valid after_right →
    census.Grows left.ambient after_left.ambient →
    census.Grows right.ambient after_right.ambient →
    census.Alike after_left.ambient after_right.ambient first second →
    (census.reading valid).Twins after_left after_right census.AlikeEach (only first after_left)
      (other second after_right)

theorem Census.Repeats.grow {after_left after_right : World σ}
    (repeats : census.Repeats valid left right only other)
    (grows_left : census.Grows left.ambient after_left.ambient)
    (grows_right : census.Grows right.ambient after_right.ambient) :
    census.Repeats valid after_left after_right only other :=
  fun late_left late_right first second valid_left valid_right later_left later_right =>
    repeats late_left late_right first second valid_left valid_right (grows_left.trans later_left)
      (grows_right.trans later_right)

theorem readStep_twins {frontier others : List (Reading × List Value)}
    (repeats : census.Repeats valid left right only other) (valid_left : valid left)
    (valid_right : valid right) (alike : census.AlikeEach left right frontier others) :
    (census.reading valid).Twins left right census.AlikeEach (readStep only frontier left)
      (readStep other others right) := by
  refine gather_twins valid_left valid_right alike ?_
  intro middle_left middle_right entry partner middle_valid_left middle_valid_right grows_left
    grows_right related
  obtain ⟨readings, results⟩ := Census.alike_pair.mp related
  refine .map (repeats middle_left middle_right _ _ middle_valid_left middle_valid_right grows_left
    grows_right readings) ?_
  intro outs others after_left after_right later_left later_right alike_outs
  refine alike_outs.map fun out partner alike_out => ?_
  exact Census.alike_pair.mpr ⟨readings.grow later_left later_right, Census.alike_pair.mpr
    ⟨alike_out, (results.grow later_left later_right).snoc alike_out.result⟩⟩

theorem readRounds_twins (least remaining round : Nat) {frontier others : List (Reading × List Value)}
    (repeats : census.Repeats valid left right only other) (valid_left : valid left)
    (valid_right : valid right) (alike : census.AlikeEach left right frontier others) :
    (census.reading valid).Twins left right census.AlikeEach
      (readRounds only least remaining round frontier left)
      (readRounds other least remaining round others right) := by
  induction remaining generalizing round frontier others left right with
  | zero => exact .pure valid_left valid_right .nil
  | succ remaining induction =>
      rw [readRounds, readRounds]
      refine .bind (readStep_twins repeats valid_left valid_right alike) ?_
      intro steps other_steps middle_left middle_right middle_valid_left middle_valid_right grows_left
        grows_right alike_steps
      have found := reported_alike least round alike_steps
      have next := passedOn_alike least remaining round alike_steps
      have ended : (passedOn least remaining round steps).isEmpty =
          (passedOn least remaining round other_steps).isEmpty := by
        rw [Bool.eq_iff_iff, List.isEmpty_iff_length_eq_zero, List.isEmpty_iff_length_eq_zero,
          next.length_eq]
      change (census.reading valid).Twins middle_left middle_right census.AlikeEach
        ((if (passedOn least remaining round steps).isEmpty then _ else _ : Action σ ε _) middle_left)
        ((if (passedOn least remaining round other_steps).isEmpty then _ else _ : Action σ ε _)
          middle_right)
      rw [ended]
      split
      · exact .pure middle_valid_left middle_valid_right found
      · refine .map (induction (round + 1) (repeats.grow grows_left grows_right) middle_valid_left
          middle_valid_right next) ?_
        intro later other_later after_left after_right later_left later_right alike_later
        exact (found.grow later_left later_right).append alike_later

/-- A repetition reads alike if its child does. -/
theorem readRepeat_twins (bounds : Bounds) {first second : Reading}
    (repeats : census.Repeats valid left right only other) (valid_left : valid left)
    (valid_right : valid right) (alike : census.Alike left.ambient right.ambient first second) :
    (census.reading valid).Twins left right census.AlikeEach (readRepeat only bounds first left)
      (readRepeat other bounds second right) := by
  have start : census.AlikeEach left right [(first, ([] : List Value))] [(second, [])] :=
    .cons (Census.alike_pair.mpr ⟨alike, trivial, trivial, rfl⟩) .nil
  refine .map (readRounds_twins bounds.least bounds.greatest 1 repeats valid_left valid_right
    start) ?_
  intro repeated others after_left after_right grows_left grows_right alike_repeated
  have skipped : census.AlikeEach after_left after_right
      (if bounds.least = 0 then [first.withResult (.list [])] else [])
      (if bounds.least = 0 then [second.withResult (.list [])] else []) := by
    split
    · exact .cons ((alike.grow grows_left grows_right).withResult ⟨trivial, trivial, rfl⟩) .nil
    · exact .nil
  exact skipped.append alike_repeated

end Repetitions

namespace Engine

theorem outcome_twins {α : Type} {related : α → α → Prop} {first second : Except EngineError α}
    (decoded : Decoded related first second) (valid_left : valid left) (valid_right : valid right) :
    (census.reading valid).Twins left right (fun _ _ => related)
      ((outcome first : Action σ EngineError α) left)
      ((outcome second : Action σ EngineError α) right) := by
  cases decoded with
  | ok relates => exact .pure valid_left valid_right relates
  | failed error => exact .throw error valid_left valid_right

/-- A primitive reads alike if its children do. -/
theorem readPrimitive_twins (engine : Engine σ)
    {child : Expansion → Reading → Action σ EngineError (List Reading)}
    (uniform : census.Uniform valid child) (builtIn : Primitive)
    {node other : Expansion} {first second : Reading} (valid_left : valid left)
    (valid_right : valid right) (nodes : census.Alike left.ambient right.ambient node other)
    (alike : census.Alike left.ambient right.ambient first second) :
    (census.reading valid).Twins left right census.AlikeEach
      (engine.readPrimitive child builtIn node first left)
      (engine.readPrimitive child builtIn other second right) := by
  have element := nodes.element
  have children : census.AlikeEach left right node.children other.children := nodes.children
  cases builtIn with
  | literal =>
      refine .map (outcome_twins (literal_decoded element) valid_left valid_right) ?_
      intro literal partner after_left after_right grows_left grows_right literals
      exact literal_read_alike (literals.grow grows_left grows_right)
        (alike.grow grows_left grows_right)
  | sequence =>
      refine .bind (outcome_twins (.of_eq (slots_decoded children)) valid_left valid_right) ?_
      rintro slots _ after_left after_right after_valid_left after_valid_right grows_left grows_right
        rfl
      exact readSequence_twins uniform after_valid_left after_valid_right
        (zip_slots_alike slots (children.grow grows_left grows_right))
        ((element.grow grows_left grows_right).prop "value") (alike.grow grows_left grows_right)
  | choice =>
      exact readChoice_twins uniform valid_left valid_right children (element.prop "value") alike
  | optional =>
      refine .bind (outcome_twins (onlyChild_decoded .optional nodes) valid_left valid_right) ?_
      intro only partner middle_left middle_right middle_valid_left middle_valid_right grows_left
        grows_right only_alike
      refine .bind (outcome_twins (.of_eq (switch_eq .optional element "preferred"))
        middle_valid_left middle_valid_right) ?_
      rintro preferred _ after_left after_right after_valid_left after_valid_right later_left
        later_right rfl
      exact readOptional_twins uniform preferred after_valid_left after_valid_right
        ((only_alike.grow grows_left grows_right).grow later_left later_right)
        ((alike.grow grows_left grows_right).grow later_left later_right)
  | «repeat» =>
      refine .bind (outcome_twins (onlyChild_decoded .repeat nodes) valid_left valid_right) ?_
      intro only partner middle_left middle_right middle_valid_left middle_valid_right grows_left
        grows_right only_alike
      refine .bind (outcome_twins (.of_eq (element.eq (bounds_form engine.config.maxRepeat)))
        middle_valid_left middle_valid_right) ?_
      rintro bounds _ after_left after_right after_valid_left after_valid_right later_left
        later_right rfl
      refine readRepeat_twins bounds ?_ after_valid_left after_valid_right
        ((alike.grow grows_left grows_right).grow later_left later_right)
      intro late_left late_right reading other late_valid_left late_valid_right last_left last_right
        readings
      exact uniform late_valid_left late_valid_right
        (((only_alike.grow grows_left grows_right).grow later_left later_right).grow last_left
          last_right) readings

end Engine

end Phrasing
