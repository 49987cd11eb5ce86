import Mathlib.Data.List.Forall2
import Phrasing.Compilation
import Phrasing.Proofs.Expansion.Heights

/-!
# The language of an expansion

An expansion without visits is a grammar.  The texts it stands for are given here by rules of their
own, one for each way to derive a text from a node, without a word about how readings are led
through it.  A legible expansion is one that every reading can be led through: each node has the
props and the children that its kind asks for.
-/

namespace Phrasing

/-- The prop is absent, null or a truth value. -/
def Value.IsSwitch : Option Value → Prop
  | none | some .null | some (.bool _) => True
  | _ => False

/-- The prop is absent, null or a text. -/
def Value.IsKey : Option Value → Prop
  | none | some .null | some (.text _) => True
  | _ => False

/-- The prop is absent, null or an integer that is not negative. -/
def Value.IsCount : Option Value → Prop
  | none | some .null => True
  | some (.int value) => 0 ≤ value.toInt
  | _ => False

/-- The prop is absent or a number. -/
def Value.IsScore : Option Value → Prop
  | none | some (.int _) | some (.float _) => True
  | _ => False

namespace Element

/-- The props that every node may have are of their sorts. -/
structure Legible (element : Element) : Prop where
  /-- The key is a text. -/
  key : Value.IsKey (element.prop? "id")
  /-- Merging is a switch. -/
  merge : Value.IsSwitch (element.prop? "merge")
  /-- Preference is a switch. -/
  preferred : Value.IsSwitch (element.prop? "preferred")

/-- The number that a prop gives, if it gives one. -/
def natural? (element : Element) (key : String) : Option Nat :=
  match element.prop? key with
  | some (.int value) => some value.toInt.toNat
  | _ => none

/-- The least number of repetitions, one unless it is set. -/
def leastRepeat (element : Element) : Nat :=
  (element.natural? "min").getD 1

/-- The greatest number of repetitions, `maxRepeat` unless it is set. -/
def greatestRepeat (maxRepeat : Nat) (element : Element) : Nat :=
  (element.natural? "max").getD maxRepeat

end Element

namespace Expansion

/-- Every node can be read: its props are of their sorts, its children are as many as its kind asks
for, and a node of a declared type has a description and does not visit. -/
inductive Legible {σ : Type} (vocabulary : Vocabulary σ) (maxRepeat : Nat) : Expansion → Prop
  | literal {node : Expansion} {text : String}
      (kind : node.element.kind = .primitive .literal) (props : node.element.Legible)
      (named : node.element.prop? "text" = some (.text text))
      (score : Value.IsScore (node.element.prop? "score")) : Legible vocabulary maxRepeat node
  | sequence {node : Expansion} (kind : node.element.kind = .primitive .sequence)
      (props : node.element.Legible)
      (children : ∀ child ∈ node.children, Legible vocabulary maxRepeat child) :
      Legible vocabulary maxRepeat node
  | choice {node : Expansion} (kind : node.element.kind = .primitive .choice)
      (props : node.element.Legible)
      (children : ∀ child ∈ node.children, Legible vocabulary maxRepeat child) :
      Legible vocabulary maxRepeat node
  | optional {node child : Expansion} (kind : node.element.kind = .primitive .optional)
      (props : node.element.Legible) (only : node.children = [child])
      (legible : Legible vocabulary maxRepeat child) : Legible vocabulary maxRepeat node
  | repeated {node child : Expansion} (kind : node.element.kind = .primitive .repeat)
      (props : node.element.Legible) (only : node.children = [child])
      (least : Value.IsCount (node.element.prop? "min"))
      (greatest : Value.IsCount (node.element.prop? "max"))
      (positive : 1 ≤ node.element.greatestRepeat maxRepeat)
      (ordered : node.element.leastRepeat ≤ node.element.greatestRepeat maxRepeat)
      (legible : Legible vocabulary maxRepeat child) : Legible vocabulary maxRepeat node
  | described {node body : Expansion} {type : NodeType} (kind : node.element.kind = .custom type)
      (silent : (vocabulary type).visit = none) (props : node.element.Legible)
      (description : node.description? = some body) (legible : Legible vocabulary maxRepeat body) :
      Legible vocabulary maxRepeat node

theorem Legible.props {σ : Type} {vocabulary : Vocabulary σ} {maxRepeat : Nat} {node : Expansion}
    (legible : node.Legible vocabulary maxRepeat) : node.element.Legible := by
  cases legible <;> assumption

/-- The texts that an expansion stands for. -/
inductive Derives (maxRepeat : Nat) : Expansion → String → Prop
  | literal {node : Expansion} {text : String} (kind : node.element.kind = .primitive .literal)
      (named : node.element.prop? "text" = some (.text text)) : Derives maxRepeat node text
  | sequence {node : Expansion} {words : List String}
      (kind : node.element.kind = .primitive .sequence)
      (each : List.Forall₂ (Derives maxRepeat) node.children words) :
      Derives maxRepeat node (String.join words)
  | choice {node child : Expansion} {word : String}
      (kind : node.element.kind = .primitive .choice) (member : child ∈ node.children)
      (chosen : Derives maxRepeat child word) : Derives maxRepeat node word
  | skipped {node : Expansion} (kind : node.element.kind = .primitive .optional) :
      Derives maxRepeat node ""
  | taken {node child : Expansion} {word : String}
      (kind : node.element.kind = .primitive .optional) (member : child ∈ node.children)
      (derived : Derives maxRepeat child word) : Derives maxRepeat node word
  | repeated {node child : Expansion} {words : List String}
      (kind : node.element.kind = .primitive .repeat) (member : child ∈ node.children)
      (least : node.element.leastRepeat ≤ words.length)
      (greatest : words.length ≤ node.element.greatestRepeat maxRepeat)
      (each : ∀ word ∈ words, Derives maxRepeat child word) :
      Derives maxRepeat node (String.join words)
  | described {node body : Expansion} {type : NodeType} {word : String}
      (kind : node.element.kind = .custom type) (description : node.description? = some body)
      (derived : Derives maxRepeat body word) : Derives maxRepeat node word

variable {maxRepeat : Nat} {node : Expansion} {word : String}

theorem derives_literal_iff {text : String} (kind : node.element.kind = .primitive .literal)
    (named : node.element.prop? "text" = some (.text text)) :
    node.Derives maxRepeat word ↔ word = text := by
  constructor
  · intro derived
    cases derived <;> simp_all
  · rintro rfl
    exact .literal kind named

theorem derives_sequence_iff (kind : node.element.kind = .primitive .sequence) :
    node.Derives maxRepeat word ↔
      ∃ words, List.Forall₂ (Derives maxRepeat) node.children words ∧ word = String.join words := by
  constructor
  · intro derived
    cases derived with
    | sequence _ each => exact ⟨_, each, rfl⟩
    | _ => simp_all
  · rintro ⟨words, each, rfl⟩
    exact .sequence kind each

theorem derives_choice_iff (kind : node.element.kind = .primitive .choice) :
    node.Derives maxRepeat word ↔ ∃ child ∈ node.children, child.Derives maxRepeat word := by
  constructor
  · intro derived
    cases derived with
    | choice _ member chosen => exact ⟨_, member, chosen⟩
    | _ => simp_all
  · rintro ⟨child, member, chosen⟩
    exact .choice kind member chosen

theorem derives_optional_iff {child : Expansion} (kind : node.element.kind = .primitive .optional)
    (only : node.children = [child]) :
    node.Derives maxRepeat word ↔ word = "" ∨ child.Derives maxRepeat word := by
  constructor
  · intro derived
    cases derived <;> simp_all
  · rintro (rfl | derived)
    · exact .skipped kind
    · exact .taken kind (by simp [only]) derived

theorem derives_repeat_iff {child : Expansion} (kind : node.element.kind = .primitive .repeat)
    (only : node.children = [child]) :
    node.Derives maxRepeat word ↔
      ∃ words : List String, node.element.leastRepeat ≤ words.length ∧
        words.length ≤ node.element.greatestRepeat maxRepeat ∧
        (∀ part ∈ words, child.Derives maxRepeat part) ∧ word = String.join words := by
  constructor
  · intro derived
    cases derived with
    | repeated _ member least greatest each =>
        obtain rfl := List.mem_singleton.mp (only ▸ member)
        exact ⟨_, least, greatest, each, rfl⟩
    | _ => simp_all
  · rintro ⟨words, least, greatest, each, rfl⟩
    exact .repeated kind (by simp [only]) least greatest each

theorem derives_described_iff {body : Expansion} {type : NodeType}
    (kind : node.element.kind = .custom type) (description : node.description? = some body) :
    node.Derives maxRepeat word ↔ body.Derives maxRepeat word := by
  constructor
  · intro derived
    cases derived <;> simp_all
  · exact .described kind description

end Expansion

end Phrasing
