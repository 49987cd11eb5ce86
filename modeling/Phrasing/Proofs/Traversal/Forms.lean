import Phrasing.Proofs.Expansion.Deliveries
import Phrasing.Proofs.Expansion.Meaning
import Phrasing.Traversal.Primitive

/-!
# Readings and expansions without identity

Readings and expansions are data made of values and elements.  Two of them are alike when each is
listed in the state it belongs to and they have the same form.  What a primitive decodes from its
props depends on their form alone.
-/

namespace Phrasing

open Traversal

mutual

/-- Every number and every node in an expansion satisfies a condition. -/
def Expansion.Every (number : Float → Prop) (node : Element → Prop) : Expansion → Prop
  | .structural element data children =>
      element.Every number node ∧ Structured.Every number node data ∧
        Expansion.EveryEach number node children
  | .described element data body =>
      element.Every number node ∧ Structured.Every number node data ∧
        Expansion.Every number node body

/-- Every number and every node in several expansions satisfies a condition. -/
def Expansion.EveryEach (number : Float → Prop) (node : Element → Prop) : List Expansion → Prop
  | [] => True
  | first :: rest =>
      Expansion.Every number node first ∧ Expansion.EveryEach number node rest

end

mutual

theorem Expansion.Every.imp {number : Float → Prop} {node other : Element → Prop}
    (weaker : ∀ element, node element → other element) :
    ∀ {expansion : Expansion}, expansion.Every number node → expansion.Every number other
  | .structural .., every =>
      ⟨every.1.imp weaker, Structured.every_imp weaker every.2.1,
        Expansion.EveryEach.imp weaker every.2.2⟩
  | .described .., every =>
      ⟨every.1.imp weaker, Structured.every_imp weaker every.2.1,
        Expansion.Every.imp weaker every.2.2⟩

theorem Expansion.EveryEach.imp {number : Float → Prop} {node other : Element → Prop}
    (weaker : ∀ element, node element → other element) :
    ∀ {expansions : List Expansion}, Expansion.EveryEach number node expansions →
      Expansion.EveryEach number other expansions
  | [], _ => trivial
  | _ :: _, every =>
      ⟨Expansion.Every.imp weaker every.1, Expansion.EveryEach.imp weaker every.2⟩

end

instance : Structured Expansion where
  form := Expansion.form
  Every := Expansion.Every
  every_imp weaker every := every.imp weaker

instance : Structured Reading where
  form focus reading := reading.withResult (reading.result.form focus)
  Every number node reading := reading.result.Every number node
  every_imp weaker every := every.imp weaker

instance : Structured VisitContext where
  form focus context :=
    { data := Value.formOption focus context.data
      props := Value.formFields focus context.props
      node := context.node.form focus }
  Every number node context :=
    Structured.Every number node context.data ∧ Value.EveryField number node context.props ∧
      context.node.Every number node
  every_imp weaker every :=
    ⟨Structured.every_imp weaker every.1, every.2.1.imp weaker, every.2.2.imp weaker⟩

instance : Structured (List Value) where
  form := Value.formItems
  Every := Value.EveryItem
  every_imp weaker every := every.imp weaker

instance : Structured Props where
  form := Value.formFields
  Every := Value.EveryField
  every_imp weaker every := every.imp weaker

instance {α β : Type} [Structured α] [Structured β] : Structured (α × β) where
  form focus pair := (Structured.form focus pair.1, Structured.form focus pair.2)
  Every number node pair :=
    Structured.Every number node pair.1 ∧ Structured.Every number node pair.2
  every_imp weaker every :=
    ⟨Structured.every_imp weaker every.1, Structured.every_imp weaker every.2⟩

variable {σ : Type} {census : Census σ} {left right : σ}

/-- Data of two states are listed there and have the same form. -/
structure Census.Alike {α : Type} [Structured α] (census : Census σ) (left right : σ)
    (first second : α) : Prop where
  /-- The first data are listed. -/
  knows_left : census.Knows left first
  /-- The second data are listed. -/
  knows_right : census.Knows right second
  /-- They have the same form. -/
  form_eq : Structured.form .structural first = Structured.form .structural second

namespace Census

theorem Alike.grow {α : Type} [Structured α] {left_after right_after : σ} {first second : α}
    (alike : census.Alike left right first second) (grows_left : census.Grows left left_after)
    (grows_right : census.Grows right right_after) :
    census.Alike left_after right_after first second :=
  ⟨alike.knows_left.grow grows_left, alike.knows_right.grow grows_right, alike.form_eq⟩

theorem alike_pair {α β : Type} [Structured α] [Structured β] {first second : α × β} :
    census.Alike left right first second ↔
      census.Alike left right first.1 second.1 ∧ census.Alike left right first.2 second.2 := by
  constructor
  · intro alike
    have form_eq := Prod.mk.inj alike.form_eq
    exact ⟨⟨alike.knows_left.1, alike.knows_right.1, form_eq.1⟩,
      ⟨alike.knows_left.2, alike.knows_right.2, form_eq.2⟩⟩
  · rintro ⟨fst, snd⟩
    exact ⟨⟨fst.knows_left, snd.knows_left⟩, ⟨fst.knows_right, snd.knows_right⟩,
      Prod.ext fst.form_eq snd.form_eq⟩

theorem alike_null : census.Alike left right Value.null Value.null :=
  ⟨trivial, trivial, rfl⟩

/-- A map of fields that are alike. -/
theorem Alike.asMap {fields others : Props} (alike : census.Alike left right fields others) :
    census.Alike left right (Value.map fields) (Value.map others) :=
  ⟨alike.knows_left, alike.knows_right, congrArg Value.map alike.form_eq⟩

/-- A list of items that are alike. -/
theorem Alike.asList {items others : List Value} (alike : census.Alike left right items others) :
    census.Alike left right (Value.list items) (Value.list others) :=
  ⟨alike.knows_left, alike.knows_right, congrArg Value.list alike.form_eq⟩

theorem formItems_append (focus : Focus) (items others : List Value) :
    Value.formItems focus (items ++ others) =
      Value.formItems focus items ++ Value.formItems focus others := by
  induction items with
  | nil => rfl
  | cons item rest induction =>
      rw [List.cons_append, Value.formItems, Value.formItems, induction, List.cons_append]

theorem everyItem_append {number : Float → Prop} {node : Element → Prop} {items others : List Value}
    (every : Value.EveryItem number node items) (every_others : Value.EveryItem number node others) :
    Value.EveryItem number node (items ++ others) := by
  induction items with
  | nil => exact every_others
  | cons item rest induction => exact ⟨every.1, induction every.2⟩

/-- One more item after items that are alike. -/
theorem Alike.snoc {items others : List Value} {value other : Value}
    (alike : census.Alike left right items others) (last : census.Alike left right value other) :
    census.Alike left right (items ++ [value]) (others ++ [other]) := by
  refine ⟨everyItem_append alike.knows_left ⟨last.knows_left, trivial⟩,
    everyItem_append alike.knows_right ⟨last.knows_right, trivial⟩, ?_⟩
  have items_eq : Value.formItems .structural items = Value.formItems .structural others :=
    alike.form_eq
  have last_eq : value.form .structural = other.form .structural := last.form_eq
  change Value.formItems .structural (items ++ [value]) =
    Value.formItems .structural (others ++ [other])
  simp only [formItems_append, items_eq, Value.formItems, last_eq]

section Readings

variable {first second : Reading}

theorem alike_reading :
    census.Alike left right first second ↔
      first.text = second.text ∧ first.fragments = second.fragments ∧ first.score = second.score ∧
        census.Alike left right first.result second.result := by
  constructor
  · intro alike
    have form_eq : first.withResult (first.result.form .structural) =
        second.withResult (second.result.form .structural) :=
      alike.form_eq
    simp only [Reading.withResult, Reading.mk.injEq] at form_eq
    obtain ⟨text_eq, fragments_eq, result_eq, score_eq⟩ := form_eq
    exact ⟨text_eq, fragments_eq, score_eq, alike.knows_left, alike.knows_right, result_eq⟩
  · rintro ⟨text_eq, fragments_eq, score_eq, result⟩
    refine ⟨result.knows_left, result.knows_right, ?_⟩
    change first.withResult (first.result.form .structural) =
      second.withResult (second.result.form .structural)
    have result_eq : first.result.form .structural = second.result.form .structural := result.form_eq
    rw [Reading.withResult, Reading.withResult, text_eq, fragments_eq, score_eq, result_eq]

theorem Alike.withResult {value other : Value} (alike : census.Alike left right first second)
    (result : census.Alike left right value other) :
    census.Alike left right (first.withResult value) (second.withResult other) := by
  obtain ⟨text_eq, fragments_eq, score_eq, -⟩ := alike_reading.mp alike
  exact alike_reading.mpr ⟨text_eq, fragments_eq, score_eq, result⟩

theorem Alike.result (alike : census.Alike left right first second) :
    census.Alike left right first.result second.result :=
  (alike_reading.mp alike).2.2.2

end Readings

section Expansions

variable {first second : Expansion}

theorem Alike.element (alike : census.Alike left right first second) :
    census.Alike left right first.element second.element := by
  obtain ⟨knows_left, knows_right, form_eq⟩ := alike
  cases first <;> cases second <;>
    simp only [Structured.form, Expansion.form, Expansion.structural.injEq,
      Expansion.described.injEq, reduceCtorEq] at form_eq <;>
    exact ⟨knows_left.1, knows_right.1, form_eq.1⟩

theorem Alike.data (alike : census.Alike left right first second) :
    census.Alike left right first.data second.data := by
  obtain ⟨knows_left, knows_right, form_eq⟩ := alike
  cases first <;> cases second <;>
    simp only [Structured.form, Expansion.form, Expansion.structural.injEq,
      Expansion.described.injEq, reduceCtorEq] at form_eq <;>
    exact ⟨knows_left.2.1, knows_right.2.1, form_eq.2.1⟩

private theorem alike_each {first second : List Expansion}
    (knows_left : Expansion.EveryEach census.number (census.Lists left) first)
    (knows_right : Expansion.EveryEach census.number (census.Lists right) second)
    (form_eq : Expansion.forms .structural first = Expansion.forms .structural second) :
    List.Forall₂ (census.Alike left right) first second := by
  induction first generalizing second with
  | nil =>
      cases second with
      | nil => exact .nil
      | cons => simp [Expansion.forms] at form_eq
  | cons expansion rest induction =>
      cases second with
      | nil => simp [Expansion.forms] at form_eq
      | cons other others =>
          rw [Expansion.forms, Expansion.forms, List.cons.injEq] at form_eq
          exact .cons ⟨knows_left.1, knows_right.1, form_eq.1⟩
            (induction knows_left.2 knows_right.2 form_eq.2)

theorem Alike.children (alike : census.Alike left right first second) :
    List.Forall₂ (census.Alike left right) first.children second.children := by
  obtain ⟨knows_left, knows_right, form_eq⟩ := alike
  cases first <;> cases second <;>
    simp only [Structured.form, Expansion.form, Expansion.structural.injEq, reduceCtorEq]
      at form_eq
  · exact alike_each knows_left.2.2 knows_right.2.2 form_eq.2.2
  · exact .nil

theorem Alike.description (alike : census.Alike left right first second) :
    Option.Rel (census.Alike left right) first.description? second.description? := by
  obtain ⟨knows_left, knows_right, form_eq⟩ := alike
  cases first <;> cases second <;>
    simp only [Structured.form, Expansion.form, Expansion.described.injEq, reduceCtorEq] at form_eq
  · exact .none
  · exact .some ⟨knows_left.2.2, knows_right.2.2, form_eq.2.2⟩

end Expansions

section Elements

variable {first second : Element}

theorem Alike.kind_eq (alike : census.Alike left right first second) :
    first.kind = second.kind := by
  have form_eq := congrArg Element.kind alike.form_eq
  exact (Element.kind_form _ first).symm.trans (form_eq.trans (Element.kind_form _ second))

/-- What does not depend on identities is the same for alike elements. -/
theorem Alike.eq {β : Type} {read : Element → β}
    (invariant : ∀ element, read (element.form .structural) = read element)
    (alike : census.Alike left right first second) : read first = read second :=
  (invariant first).symm.trans ((congrArg read alike.form_eq).trans (invariant second))

end Elements

theorem Knows.props {ambient : σ} {element : Element} (knows : census.Knows ambient element) :
    census.Knows ambient element.props := by
  cases element
  exact knows.2.1

theorem Alike.props {first second : Element} (alike : census.Alike left right first second) :
    census.Alike left right first.props second.props := by
  refine ⟨alike.knows_left.props, alike.knows_right.props, ?_⟩
  have form_eq := congrArg Element.props alike.form_eq
  exact (Element.props_form _ first).symm.trans (form_eq.trans (Element.props_form _ second))

/-- Visits of nodes that are alike are given contexts that are alike. -/
theorem Alike.visitContext {node other : Expansion} (alike : census.Alike left right node other) :
    census.Alike left right
      ({ data := node.data, props := node.element.props, node } : VisitContext)
      { data := other.data, props := other.element.props, node := other } := by
  have data := alike.data
  have props := alike.element.props
  refine ⟨⟨data.knows_left, props.knows_left, alike.knows_left⟩,
    ⟨data.knows_right, props.knows_right, alike.knows_right⟩, ?_⟩
  have data_eq : Value.formOption .structural node.data = Value.formOption .structural other.data :=
    data.form_eq
  have props_eq : Value.formFields .structural node.element.props =
      Value.formFields .structural other.element.props :=
    props.form_eq
  have node_eq : node.form .structural = other.form .structural := alike.form_eq
  simp only [Structured.form, data_eq, props_eq, node_eq]

mutual

/-- An expansion is listed when each of its nodes is. -/
theorem knows_of_meets {ambient : σ} : ∀ {expansion : Expansion} {root : Position},
    census.standard.Meets ambient (Expansion.Located root expansion) →
    census.Knows ambient expansion
  | .structural element data children, root, meets =>
      have here := meets root (.structural element data children) .here
      ⟨here.1, here.2, knowsEach_of_meets fun position node located =>
        meets position node (Expansion.located_structural.mpr (.inr located))⟩
  | .described element data body, root, meets =>
      have here := meets root (.described element data body) .here
      ⟨here.1, here.2, knows_of_meets fun position node located =>
        meets position node (.body located)⟩

theorem knowsEach_of_meets {ambient : σ} : ∀ {expansions : List Expansion} {root : Position}
    {start : Nat},
    census.standard.Meets ambient (Expansion.LocatedAmong root start expansions) →
    Expansion.EveryEach census.number (census.Lists ambient) expansions
  | [], _, _, _ => trivial
  | _ :: _, _, _, meets =>
      ⟨knows_of_meets fun position node located =>
        meets position node (Expansion.locatedAmong_cons.mpr (.inl located)),
        knowsEach_of_meets fun position node located =>
          meets position node (Expansion.locatedAmong_cons.mpr (.inr located))⟩

end

end Census

theorem Element.prop?_form (focus : Focus) (element : Element) (key : String) :
    (element.form focus).prop? key = (element.prop? key).map (Value.form focus) := by
  rw [Element.prop?, Element.props_form, Element.prop?]
  induction element.props with
  | nil => rfl
  | cons field rest induction =>
      obtain ⟨name, value⟩ := field
      rw [Value.formFields, List.lookup_cons, List.lookup_cons, induction]
      cases key == name <;> rfl

theorem Census.Knows.prop {ambient : σ} {element : Element} {key : String} {value : Value}
    (knows : census.Knows ambient element) (present : element.prop? key = some value) :
    census.Knows ambient value := by
  obtain ⟨id, kind, props, children, hash⟩ := element
  obtain ⟨-, every, -⟩ := knows
  change props.lookup key = some value at present
  induction props with
  | nil => cases present
  | cons field rest induction =>
      obtain ⟨name, other⟩ := field
      rw [List.lookup_cons] at present
      split at present
      · exact Option.some.inj present ▸ every.1
      · exact induction every.2 present

theorem Census.Alike.prop {first second : Element} (alike : census.Alike left right first second)
    (key : String) :
    Option.Rel (census.Alike left right) (first.prop? key) (second.prop? key) := by
  have form_eq := (Element.prop?_form .structural first key).symm.trans
    ((congrArg (Element.prop? · key) alike.form_eq).trans (Element.prop?_form .structural second key))
  cases first_eq : first.prop? key with
  | none =>
      rw [first_eq, Option.map_none] at form_eq
      rw [Option.map_eq_none_iff.mp form_eq.symm]
      exact .none
  | some value =>
      rw [first_eq, Option.map_some] at form_eq
      obtain ⟨other, second_eq, other_form⟩ := Option.map_eq_some_iff.mp form_eq.symm
      rw [second_eq]
      exact .some ⟨alike.knows_left.prop first_eq, alike.knows_right.prop second_eq,
        other_form.symm⟩

@[simp]
theorem Value.text?_form (focus : Focus) (value : Value) :
    (value.form focus).text? = value.text? := by
  cases value <;> rfl

@[simp]
theorem Value.number?_form (value : Value) :
    (value.form .structural).number? = value.number? := by
  cases value <;> rfl

namespace Traversal

theorem switch_form (builtIn : Primitive) (element : Element) (key : String) :
    switch builtIn (element.form .structural) key = switch builtIn element key := by
  rw [switch, switch, Element.prop?_form]
  rcases element.prop? key with - | value
  · rfl
  · cases value <;> rfl

theorem switch_eq (builtIn : Primitive) {first second : Element}
    (alike : census.Alike left right first second) (key : String) :
    switch builtIn first key = switch builtIn second key := by
  have form_eq : first.form .structural = second.form .structural := alike.form_eq
  rw [← switch_form, form_eq, switch_form]

theorem count?_form (builtIn : Primitive) (element : Element) (key : String) :
    count? builtIn (element.form .structural) key = count? builtIn element key := by
  rw [count?, count?, Element.prop?_form]
  rcases element.prop? key with - | value
  · rfl
  · cases value <;> rfl

theorem slot_form (element : Element) :
    Slot.ofElement (element.form .structural) = Slot.ofElement element := by
  rw [Slot.ofElement, Slot.ofElement, switch_form, Element.prop?_form]
  rcases element.prop? "id" with - | value
  · rfl
  · cases value <;> rfl

theorem bounds_form (maxRepeat : Nat) (element : Element) :
    Bounds.ofElement maxRepeat (element.form .structural) = Bounds.ofElement maxRepeat element := by
  rw [Bounds.ofElement, Bounds.ofElement, count?_form, count?_form]

/-- Two outcomes of decoding are alike: both fail with the same error, or what they give is related. -/
inductive Decoded {α : Type} (related : α → α → Prop) :
    Except EngineError α → Except EngineError α → Prop
  | ok {first second : α} (relates : related first second) : Decoded related (.ok first) (.ok second)
  | failed (error : EngineError) : Decoded related (.error error) (.error error)

theorem Decoded.of_eq {α : Type} {first second : Except EngineError α} (same : first = second) :
    Decoded Eq first second := by
  subst same
  cases first with
  | ok result => exact .ok rfl
  | error error => exact .failed error

/-- Two literals with the same text and score, and with results that are alike. -/
structure LiteralsAlike (census : Census σ) (left right : σ) (first second : Literal) : Prop where
  /-- The texts are the same. -/
  text_eq : first.text = second.text
  /-- The scores are the same. -/
  score_eq : first.score = second.score
  /-- The results are alike. -/
  result : census.Alike left right first.result second.result

theorem LiteralsAlike.grow {left_after right_after : σ} {first second : Literal}
    (literals : LiteralsAlike census left right first second)
    (grows_left : census.Grows left left_after) (grows_right : census.Grows right right_after) :
    LiteralsAlike census left_after right_after first second :=
  ⟨literals.text_eq, literals.score_eq, literals.result.grow grows_left grows_right⟩

section Alike

variable {first second : Element} (alike : census.Alike left right first second)

include alike

private theorem alike_value :
    census.Alike left right ((first.prop? "value").getD .null) ((second.prop? "value").getD .null) := by
  have related := alike.prop "value"
  generalize first.prop? "value" = value at related ⊢
  generalize second.prop? "value" = other at related ⊢
  cases related with
  | none => exact Census.alike_null
  | some value => exact value

theorem literal_decoded :
    Decoded (LiteralsAlike census left right) (Literal.ofElement first)
      (Literal.ofElement second) := by
  have text_eq : (first.prop? "text").bind Value.text? = (second.prop? "text").bind Value.text? := by
    have related := alike.prop "text"
    generalize first.prop? "text" = value at related ⊢
    generalize second.prop? "text" = other at related ⊢
    cases related with
    | none => rfl
    | @some value other text =>
        have form_eq : value.form .structural = other.form .structural := text.form_eq
        change value.text? = other.text?
        rw [← Value.text?_form .structural value, form_eq, Value.text?_form]
  rw [Literal.ofElement, Literal.ofElement, text_eq]
  split
  · exact .failed _
  · have result := alike_value alike
    have related := alike.prop "score"
    generalize first.prop? "score" = value at related ⊢
    generalize second.prop? "score" = other at related ⊢
    cases related with
    | none => exact .ok ⟨rfl, rfl, result⟩
    | @some value other score =>
        have form_eq : value.form .structural = other.form .structural := score.form_eq
        have number_eq : value.number? = other.number? := by
          rw [← Value.number?_form value, form_eq, Value.number?_form]
        simp only [number_eq]
        split
        · exact .ok ⟨rfl, rfl, result⟩
        · exact .failed _

end Alike

theorem onlyChild_decoded (builtIn : Primitive) {first second : Expansion}
    (alike : census.Alike left right first second) :
    Decoded (census.Alike left right) (onlyChild builtIn first) (onlyChild builtIn second) := by
  have children := alike.children
  rw [onlyChild, onlyChild]
  generalize first.children = expansions at children ⊢
  generalize second.children = others at children ⊢
  match children with
  | .nil => exact .failed _
  | .cons only .nil => exact .ok only
  | .cons _ (.cons _ rest) =>
      simp only [List.length_cons, rest.length_eq]
      exact .failed _

theorem slots_decoded {first second : List Expansion}
    (alike : List.Forall₂ (census.Alike left right) first second) :
    (first.mapM fun child => Slot.ofElement child.element) =
      second.mapM fun child => Slot.ofElement child.element := by
  induction alike with
  | nil => rfl
  | cons child _ induction =>
      rw [List.mapM_cons, List.mapM_cons, child.element.eq slot_form, induction]

end Traversal

end Phrasing
