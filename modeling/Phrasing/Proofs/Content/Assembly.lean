import Phrasing.Content.Xxh3
import Phrasing.Proofs.Content.Comparison

/-!
# Elements that callers assemble

A caller makes nodes one after another from the nodes at hand, and lets go of nodes.  A node that
nothing else holds is changed in place: it is let go, and a node with its identity is made of its
parts.  All along, nodes carry the hashes of their contents and an identity belongs to one node.
-/

namespace Phrasing

/-- How a caller makes a node. -/
inductive Construction where
  /-- From its parts. -/
  | ofParts (kind : Kind) (props : Props) (children : List Element)
  /-- From a declared type. -/
  | ofType (type : NodeType)
  /-- As a literal. -/
  | literal (text : String)
  /-- As a sequence. -/
  | sequence (children : List Element)
  /-- As a choice. -/
  | choice (children : List Element)
  /-- As an optional element. -/
  | optional (child : Element)
  /-- As a repeated element. -/
  | repeated (child : Element)
  /-- Like another one, with a prop set. -/
  | withProp (element : Element) (key : String) (value : Value)
  /-- Like another one, with a child added. -/
  | withChild (element child : Element)

namespace Construction

/-- The node that is made. -/
def element [Digest] (id : NodeId) : Construction → Element
  | .ofParts kind props children => .make id kind props children
  | .ofType type => .ofType id type
  | .literal text => .literal id text
  | .sequence children => .sequence id children
  | .choice children => .choice id children
  | .optional child => .optional id child
  | .repeated child => .repeated id child
  | .withProp element key value => .withProp id element key value
  | .withChild element child => .withChild id element child

/-- The parts of the node come from the nodes of a set.  A node that another one is made like need not
be there any more. -/
def Given (node : Element → Prop) : Construction → Prop
  | .ofParts _ props children =>
      Value.EveryField (fun _ => True) node props ∧ Element.EveryChild (fun _ => True) node children
  | .ofType _ | .literal _ => True
  | .sequence children | .choice children => Element.EveryChild (fun _ => True) node children
  | .optional child | .repeated child => child.Every (fun _ => True) node
  | .withProp element _ value =>
      Value.EveryField (fun _ => True) node element.props ∧
        Element.EveryChild (fun _ => True) node element.children ∧
        value.Every (fun _ => True) node
  | .withChild element child =>
      Value.EveryField (fun _ => True) node element.props ∧
        Element.EveryChild (fun _ => True) node element.children ∧
        child.Every (fun _ => True) node

variable [Digest]

theorem id_element (id : NodeId) (construction : Construction) :
    (construction.element id).id = id := by
  cases construction <;> rfl

theorem contentHash_element (id : NodeId) (construction : Construction) :
    (construction.element id).contentHash = (construction.element id).content.hash := by
  cases construction <;> rfl

/-- What is made of nodes of a set is made of nodes of any set that has these and the new one. -/
theorem every_element {node other : Element → Prop} {construction : Construction} (id : NodeId)
    (given : construction.Given node) (weaker : ∀ element, node element → other element)
    (known : other (construction.element id)) :
    (construction.element id).Every (fun _ => True) other := by
  cases construction with
  | ofParts kind props children => exact ⟨known, given.1.imp weaker, given.2.imp weaker⟩
  | ofType type => exact ⟨known, trivial, trivial⟩
  | literal text => exact ⟨known, ⟨trivial, trivial⟩, trivial⟩
  | sequence children | choice children =>
      exact ⟨known, trivial, Element.EveryChild.imp weaker given⟩
  | optional child | repeated child =>
      exact ⟨known, trivial, Element.Every.imp weaker given, trivial⟩
  | withProp element key value =>
      exact ⟨known, every_insert (given.2.2.imp weaker) (given.1.imp weaker),
        given.2.1.imp weaker⟩
  | withChild element child =>
      exact ⟨known, given.1.imp weaker,
        everyChild_append (given.2.1.imp weaker) ⟨given.2.2.imp weaker, trivial⟩⟩

end Construction

/-- The nodes that are there after a caller made some and let go of some. -/
inductive Assembled [Digest] : (Element → Prop) → Prop
  /-- At first there are none. -/
  | start : Assembled fun _ => False
  /-- A node is made, with an identity that no node has. -/
  | build {alive : Element → Prop} (assembled : Assembled alive) (id : NodeId)
      (construction : Construction) (fresh : ∀ element, alive element → element.id ≠ id)
      (given : construction.Given alive) :
      Assembled fun element => alive element ∨ element = construction.element id
  /-- Nodes are let go of which no other node is made. -/
  | release {alive remaining : Element → Prop} (assembled : Assembled alive)
      (kept : ∀ element, remaining element → alive element)
      (closed : ∀ element, remaining element → element.Every (fun _ => True) remaining) :
      Assembled remaining

namespace Assembled

variable [Digest] {alive : Element → Prop}

theorem closed (assembled : Assembled alive) {element : Element} (present : alive element) :
    element.Every (fun _ => True) alive := by
  induction assembled generalizing element with
  | start => exact present.elim
  | build _ id construction _ given induction =>
      rcases present with present | rfl
      · exact (induction present).imp fun _ => .inl
      · exact construction.every_element id given (fun _ => .inl) (.inr rfl)
  | release _ _ closed => exact closed element present

theorem sealed (assembled : Assembled alive) : Element.Sealed alive := by
  induction assembled with
  | start => exact nofun
  | build _ id construction _ _ induction =>
      rintro element (present | rfl)
      · exact induction element present
      · exact construction.contentHash_element id
  | release _ kept _ induction => exact fun element present => induction element (kept element present)

theorem identified (assembled : Assembled alive) : Element.Identified alive := by
  induction assembled with
  | start => exact nofun
  | build _ id construction fresh _ induction =>
      rintro left right (left_present | rfl) (right_present | rfl) shared
      · exact induction left right left_present right_present shared
      · rw [construction.id_element] at shared
        exact absurd shared (fresh left left_present)
      · rw [construction.id_element] at shared
        exact absurd shared.symm (fresh right right_present)
      · rfl
  | release _ kept _ induction =>
      exact fun left right left_present right_present =>
        induction left right (kept left left_present) (kept right right_present)

/-- However nodes were made and let go of, each one carries the hash of its content, all the way down.
Elements made of them, without values that differ from themselves, are the same exactly when kinds,
props and children are, compared without a look at hashes and identities, and no shortcut of the
comparison changes its answer. -/
theorem comparison_deep (assembled : Assembled alive) :
    (∀ element, alive element →
      element.Every (fun _ => True) fun node => node.contentHash = node.content.hash) ∧
    ∀ left right : Element, left.Every (·.toBits ≠ Number.undefinedBits) alive →
      right.Every (·.toBits ≠ Number.undefinedBits) alive →
      ((left == right) = true ↔
        left.kind = right.kind ∧ Value.sameFieldsBy .none left.props right.props = true ∧
          Element.sameChildrenBy .none left.children right.children = true) ∧
      ∀ shortcuts : Shortcuts, left.sameBy shortcuts right = (left == right) := by
  have defined : Number.Defined (·.toBits ≠ Number.undefinedBits) := fun _ differs => differs
  refine ⟨fun _ present => (assembled.closed present).imp assembled.sealed, ?_⟩
  intro left right left_every right_every
  have answers (shortcuts : Shortcuts) : left.sameBy shortcuts right = (left == right) :=
    Element.sameBy_eq_beq shortcuts assembled.sealed assembled.identified defined left_every
      right_every
  refine ⟨?_, answers⟩
  rw [← answers .none, Element.sameBy_none_iff]

end Assembled

open Xxh3

namespace Weights

/-- A letter with a weight that is the negative zero, set on the node of the letter. -/
private def weighted : Element :=
  .withProp 0 (.literal 0 "a") "weight" (.float (.ofBits 0x8000000000000000))

/-- A letter with a weight that is the positive zero, made at once. -/
private def weighed : Element :=
  .make 1 (.primitive .literal) [("text", .text "a"), ("weight", .float (.ofBits 0))] []

/-- A sequence to which the second letter was added on its node. -/
private def extended : Element :=
  .withChild 2 (.sequence 2 [weighted]) weighed

/-- A sequence of one letter twice. -/
private def doubled : Element :=
  .sequence 3 [weighed, weighed]

private theorem every_letter {number : Float → Prop} {node : Element → Prop}
    (zeros : number (.ofBits 0x8000000000000000) ∧ number (.ofBits 0)) {letter : Element}
    (letters : letter = weighted ∨ letter = weighed) (present : node letter) :
    letter.Every number node := by
  rcases letters with rfl | rfl
  · exact ⟨present, ⟨trivial, zeros.1, trivial⟩, trivial⟩
  · exact ⟨present, ⟨trivial, zeros.2, trivial⟩, trivial⟩

private theorem assembled_letters :
    Assembled fun element => element = weighted ∨ element = weighed := by
  have letter : Assembled fun element => False ∨ element = Element.literal 0 "a" :=
    Assembled.start.build 0 (.literal "a") nofun trivial
  have nothing : Assembled fun _ => False := letter.release nofun nofun
  have edited : Assembled fun element => False ∨ element = weighted :=
    nothing.build 0 (.withProp (.literal 0 "a") "weight" (.float (.ofBits 0x8000000000000000)))
      nofun ⟨⟨trivial, trivial⟩, trivial, trivial⟩
  have letters : Assembled fun element => (False ∨ element = weighted) ∨ element = weighed := by
    refine edited.build 1 (.ofParts _ _ _) ?_ ⟨⟨trivial, trivial, trivial⟩, trivial⟩
    rintro element (⟨⟨⟩⟩ | rfl)
    decide
  simpa only [false_or] using letters

/-- The nodes that are there in the end. -/
private def sequences (element : Element) : Prop :=
  ((element = weighted ∨ element = weighed) ∨ element = extended) ∨ element = doubled

private theorem assembled_sequences : Assembled sequences := by
  have made : Assembled fun element =>
      (element = weighted ∨ element = weighed) ∨ element = Element.sequence 2 [weighted] := by
    refine assembled_letters.build 2 (.sequence [weighted]) ?_
      ⟨every_letter ⟨trivial, trivial⟩ (.inl rfl) (.inl rfl), trivial⟩
    rintro element (rfl | rfl) <;> decide
  have letters : Assembled fun element => element = weighted ∨ element = weighed :=
    made.release (fun _ => .inl) fun _ present => every_letter ⟨trivial, trivial⟩ present present
  have changed : Assembled fun element =>
      (element = weighted ∨ element = weighed) ∨ element = extended := by
    refine letters.build 2 (.withChild (.sequence 2 [weighted]) weighed) ?_
      ⟨trivial, ⟨every_letter ⟨trivial, trivial⟩ (.inl rfl) (.inl rfl), trivial⟩,
        every_letter ⟨trivial, trivial⟩ (.inr rfl) (.inr rfl)⟩
    rintro element (rfl | rfl) <;> decide
  refine changed.build 3 (.sequence [weighed, weighed]) ?_ ?_
  · rintro element ((rfl | rfl) | rfl) <;> decide
  · exact ⟨every_letter ⟨trivial, trivial⟩ (.inr rfl) (.inl (.inr rfl)),
      every_letter ⟨trivial, trivial⟩ (.inr rfl) (.inl (.inr rfl)), trivial⟩

private theorem every_sequence {sequence : Element}
    (made : sequence = extended ∨ sequence = doubled) :
    sequence.Every (·.toBits ≠ Number.undefinedBits) sequences := by
  have letter {letter : Element} (letters : letter = weighted ∨ letter = weighed) :
      letter.Every (·.toBits ≠ Number.undefinedBits) sequences :=
    every_letter (by decide) letters (.inl (.inl letters))
  rcases made with rfl | rfl
  · exact ⟨.inl (.inr rfl), trivial, letter (.inl rfl), letter (.inr rfl), trivial⟩
  · exact ⟨.inr rfl, trivial, letter (.inr rfl), letter (.inr rfl), trivial⟩

private theorem sameBy_weighed {letter : Element} (letters : letter = weighted ∨ letter = weighed) :
    letter.sameBy .none weighed = true := by
  have signs : Number.same (.ofBits 0x8000000000000000) (.ofBits 0) = true := by decide
  have zeros : Number.same (.ofBits 0) (.ofBits 0) = true := by decide
  have props_eq : weighted.props =
      [("text", .text "a"), ("weight", .float (.ofBits 0x8000000000000000))] := rfl
  have childless : Element.sameChildrenBy .none [] [] = true := by rw [Element.sameChildrenBy]
  rcases letters with rfl | rfl
  · refine Element.sameBy_none_iff.mpr ⟨rfl, ?_, childless⟩
    rw [props_eq]
    simp only [weighed, Element.make, Element.props, Value.sameFieldsBy, Value.sameBy, signs,
      beq_self_eq_true, Bool.and_self]
  · refine Element.sameBy_none_iff.mpr ⟨rfl, ?_, childless⟩
    simp only [weighed, Element.make, Element.props, Value.sameFieldsBy, Value.sameBy, zeros,
      beq_self_eq_true, Bool.and_self]

end Weights

open Weights in
/-- Two sequences are the same although they are made of different nodes in different steps. -/
theorem Assembled.comparison_deep_sequences :
    extended.contentHash = extended.content.hash ∧ (extended == doubled) = true := by
  obtain ⟨sealed, compared⟩ := assembled_sequences.comparison_deep
  obtain ⟨deep, -⟩ := compared _ _ (every_sequence (.inl rfl)) (every_sequence (.inr rfl))
  refine ⟨(sealed extended (.inl (.inr rfl))).1, deep.mpr ⟨rfl, ?_, ?_⟩⟩
  · change Value.sameFieldsBy .none [] [] = true
    rw [Value.sameFieldsBy]
  · change Element.sameChildrenBy .none [weighted, weighed] [weighed, weighed] = true
    simp only [Element.sameChildrenBy, sameBy_weighed (.inl rfl), sameBy_weighed (.inr rfl),
      Bool.and_self]

end Phrasing
