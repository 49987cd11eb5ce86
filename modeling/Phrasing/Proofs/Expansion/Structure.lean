import Mathlib.Data.List.Forall2
import Phrasing.Expansion.Basic
import Phrasing.Vocabulary

/-!
# Structure without identity

The form of a value or an element forgets which nodes it is made of and keeps kinds, props and
children.  Values that compare equal have the same form, provided that an identity belongs to one
node only.  A census says which node an identity belongs to, in every state of the callbacks, and
what a callback has at hand must be listed there.
-/

namespace Phrasing

/-- What a form keeps of numbers and of content hashes. -/
structure Focus where
  /-- What it keeps of a number. -/
  number : Float → Float
  /-- What it keeps of a content hash. -/
  hash : ContentHash → ContentHash

mutual

/-- A value without the identities of its nodes. -/
def Value.form (focus : Focus) : Value → Value
  | .null => .null
  | .bool value => .bool value
  | .int value => .int value
  | .float value => .float (focus.number value)
  | .text value => .text value
  | .list items => .list (Value.formItems focus items)
  | .map fields => .map (Value.formFields focus fields)
  | .element node => .element (Element.form focus node)

/-- The forms of the items of a list. -/
def Value.formItems (focus : Focus) : List Value → List Value
  | [] => []
  | item :: rest => Value.form focus item :: Value.formItems focus rest

/-- The forms of the fields of a map. -/
def Value.formFields (focus : Focus) : List (String × Value) → List (String × Value)
  | [] => []
  | (key, value) :: rest => (key, Value.form focus value) :: Value.formFields focus rest

/-- An element without the identities of its nodes. -/
def Element.form (focus : Focus) : Element → Element
  | .node _ kind props children hash =>
      .node 0 kind (Value.formFields focus props) (Element.formChildren focus children)
        (focus.hash hash)

/-- The forms of several elements. -/
def Element.formChildren (focus : Focus) : List Element → List Element
  | [] => []
  | child :: rest => Element.form focus child :: Element.formChildren focus rest

end

mutual

/-- Every number and every node in a value satisfies a condition. -/
def Value.Every (number : Float → Prop) (node : Element → Prop) : Value → Prop
  | .null => True
  | .bool _ => True
  | .int _ => True
  | .float value => number value
  | .text _ => True
  | .list items => Value.EveryItem number node items
  | .map fields => Value.EveryField number node fields
  | .element element => Element.Every number node element

/-- Every number and every node in the items of a list satisfies a condition. -/
def Value.EveryItem (number : Float → Prop) (node : Element → Prop) : List Value → Prop
  | [] => True
  | item :: rest => Value.Every number node item ∧ Value.EveryItem number node rest

/-- Every number and every node in the fields of a map satisfies a condition. -/
def Value.EveryField (number : Float → Prop) (node : Element → Prop) :
    List (String × Value) → Prop
  | [] => True
  | (_, value) :: rest => Value.Every number node value ∧ Value.EveryField number node rest

/-- Every number and every node in an element satisfies a condition. -/
def Element.Every (number : Float → Prop) (node : Element → Prop) : Element → Prop
  | .node id kind props children hash =>
      node (.node id kind props children hash) ∧ Value.EveryField number node props ∧
        Element.EveryChild number node children

/-- Every number and every node in several elements satisfies a condition. -/
def Element.EveryChild (number : Float → Prop) (node : Element → Prop) : List Element → Prop
  | [] => True
  | child :: rest => Element.Every number node child ∧ Element.EveryChild number node rest

end

section Conditions

variable {number : Float → Prop} {node other : Element → Prop}

mutual

theorem Value.Every.imp (weaker : ∀ element, node element → other element) :
    ∀ {value : Value}, value.Every number node → value.Every number other
  | .null, _ => by simp [Value.Every]
  | .bool _, _ => by simp [Value.Every]
  | .int _, _ => by simp [Value.Every]
  | .text _, _ => by simp [Value.Every]
  | .float _, every => by simpa [Value.Every] using every
  | .list _, every => by
      rw [Value.Every] at every ⊢
      exact Value.EveryItem.imp weaker every
  | .map _, every => by
      rw [Value.Every] at every ⊢
      exact Value.EveryField.imp weaker every
  | .element _, every => by
      rw [Value.Every] at every ⊢
      exact Element.Every.imp weaker every

theorem Value.EveryItem.imp (weaker : ∀ element, node element → other element) :
    ∀ {items : List Value}, Value.EveryItem number node items → Value.EveryItem number other items
  | [], _ => trivial
  | _ :: _, every => ⟨every.1.imp weaker, every.2.imp weaker⟩

theorem Value.EveryField.imp (weaker : ∀ element, node element → other element) :
    ∀ {fields : List (String × Value)}, Value.EveryField number node fields →
      Value.EveryField number other fields
  | [], _ => trivial
  | (_, _) :: _, every => ⟨every.1.imp weaker, every.2.imp weaker⟩

theorem Element.Every.imp (weaker : ∀ element, node element → other element) :
    ∀ {element : Element}, element.Every number node → element.Every number other
  | .node .., every => ⟨weaker _ every.1, every.2.1.imp weaker, every.2.2.imp weaker⟩

theorem Element.EveryChild.imp (weaker : ∀ element, node element → other element) :
    ∀ {children : List Element}, Element.EveryChild number node children →
      Element.EveryChild number other children
  | [], _ => trivial
  | _ :: _, every => ⟨every.1.imp weaker, every.2.imp weaker⟩

end

theorem every_insert {name : String} {value : Value} {fields : Props}
    (every_value : value.Every number node) (every : Value.EveryField number node fields) :
    Value.EveryField number node (Fields.insert name value fields) := by
  induction fields with
  | nil => exact ⟨every_value, trivial⟩
  | cons field rest induction =>
      obtain ⟨other, present⟩ := field
      rw [Fields.insert]
      split
      · exact ⟨every_value, every⟩
      · split
        · exact ⟨every_value, every.2⟩
        · exact ⟨every.1, induction every.2⟩

theorem everyChild_append {children others : List Element}
    (every : Element.EveryChild number node children)
    (every_others : Element.EveryChild number node others) :
    Element.EveryChild number node (children ++ others) := by
  induction children with
  | nil => exact every_others
  | cons child rest induction => exact ⟨every.1, induction every.2⟩

theorem Element.EveryChild.of_mem {children : List Element} {child : Element}
    (every : Element.EveryChild number node children) (member : child ∈ children) :
    child.Every number node := by
  induction children with
  | nil => cases member
  | cons first rest induction =>
      rcases List.mem_cons.mp member with rfl | later
      · exact every.1
      · exact induction every.2 later

theorem Element.Every.child {element child : Element} (every : element.Every number node)
    (member : child ∈ element.children) : child.Every number node := by
  cases element
  exact every.2.2.of_mem member

end Conditions

/-- Under the condition on numbers and nodes, what compares equal has the same form. -/
structure Focus.Discerns (focus : Focus) (number : Float → Prop) (node : Element → Prop) :
    Prop where
  /-- Numbers that compare equal have the same form. -/
  numbers (left right : Float) : number left → number right → Number.same left right = true →
    focus.number left = focus.number right
  /-- Nodes that share an identity are one node. -/
  identity (left right : Element) : node left → node right → left.id = right.id → left = right

section Comparison

variable {focus : Focus} {number : Float → Prop} {node : Element → Prop}

mutual

theorem Value.form_eq_of_same (discerns : focus.Discerns number node) :
    ∀ {left right : Value}, left.Every number node → right.Every number node →
      Value.same left right = true → left.form focus = right.form focus
  | .null, right, _, _, same => by cases right <;> simp_all [Value.same]
  | .bool _, right, _, _, same => by cases right <;> simp_all [Value.same, Value.form]
  | .int _, right, _, _, same => by cases right <;> simp_all [Value.same, Value.form]
  | .text _, right, _, _, same => by cases right <;> simp_all [Value.same, Value.form]
  | .float left, right, left_every, right_every, same => by
      cases right with
      | float right =>
          rw [Value.same] at same
          rw [Value.form, Value.form, discerns.numbers left right left_every right_every same]
      | _ => simp [Value.same] at same
  | .list left, right, left_every, right_every, same => by
      cases right with
      | list right =>
          rw [Value.same] at same
          rw [Value.form, Value.form,
            Value.formItems_eq_of_same discerns left_every right_every same]
      | _ => simp [Value.same] at same
  | .map left, right, left_every, right_every, same => by
      cases right with
      | map right =>
          rw [Value.same] at same
          rw [Value.form, Value.form,
            Value.formFields_eq_of_same discerns left_every right_every same]
      | _ => simp [Value.same] at same
  | .element left, right, left_every, right_every, same => by
      cases right with
      | element right =>
          rw [Value.same] at same
          rw [Value.form, Value.form, Element.form_eq_of_same discerns left_every right_every same]
      | _ => simp [Value.same] at same

theorem Value.formItems_eq_of_same (discerns : focus.Discerns number node) :
    ∀ {left right : List Value}, Value.EveryItem number node left →
      Value.EveryItem number node right → Value.sameItems left right = true →
      Value.formItems focus left = Value.formItems focus right
  | [], right, _, _, same => by cases right <;> simp_all [Value.sameItems]
  | left :: lefts, rights, left_every, right_every, same => by
      cases rights with
      | nil => simp [Value.sameItems] at same
      | cons right rights =>
          rw [Value.sameItems, Bool.and_eq_true] at same
          rw [Value.formItems, Value.formItems,
            Value.form_eq_of_same discerns left_every.1 right_every.1 same.1,
            Value.formItems_eq_of_same discerns left_every.2 right_every.2 same.2]

theorem Value.formFields_eq_of_same (discerns : focus.Discerns number node) :
    ∀ {left right : List (String × Value)}, Value.EveryField number node left →
      Value.EveryField number node right → Value.sameFields left right = true →
      Value.formFields focus left = Value.formFields focus right
  | [], right, _, _, same => by cases right <;> simp_all [Value.sameFields]
  | (key, left) :: lefts, rights, left_every, right_every, same => by
      cases rights with
      | nil => simp [Value.sameFields] at same
      | cons field rights =>
          obtain ⟨other, right⟩ := field
          rw [Value.sameFields, Bool.and_eq_true, Bool.and_eq_true, beq_iff_eq] at same
          rw [Value.formFields, Value.formFields, same.1.1,
            Value.form_eq_of_same discerns left_every.1 right_every.1 same.1.2,
            Value.formFields_eq_of_same discerns left_every.2 right_every.2 same.2]

theorem Element.form_eq_of_same (discerns : focus.Discerns number node) :
    ∀ {left right : Element}, left.Every number node → right.Every number node →
      Element.same left right = true → left.form focus = right.form focus
  | .node id kind props children hash, .node otherId otherKind otherProps otherChildren otherHash,
      left_every, right_every, same => by
      rw [Element.same, Bool.or_eq_true, beq_iff_eq] at same
      rcases same with shared | same
      · rw [discerns.identity _ _ left_every.1 right_every.1 shared]
      · simp only [Bool.and_eq_true, beq_iff_eq] at same
        rw [Element.form, Element.form, same.1.1.1, same.1.1.2,
          Value.formFields_eq_of_same discerns left_every.2.1 right_every.2.1 same.1.2,
          Element.formChildren_eq_of_same discerns left_every.2.2 right_every.2.2 same.2]

theorem Element.formChildren_eq_of_same (discerns : focus.Discerns number node) :
    ∀ {left right : List Element}, Element.EveryChild number node left →
      Element.EveryChild number node right → Element.sameChildren left right = true →
      Element.formChildren focus left = Element.formChildren focus right
  | [], right, _, _, same => by cases right <;> simp_all [Element.sameChildren]
  | left :: lefts, rights, left_every, right_every, same => by
      cases rights with
      | nil => simp [Element.sameChildren] at same
      | cons right rights =>
          rw [Element.sameChildren, Bool.and_eq_true] at same
          rw [Element.formChildren, Element.formChildren,
            Element.form_eq_of_same discerns left_every.1 right_every.1 same.1,
            Element.formChildren_eq_of_same discerns left_every.2 right_every.2 same.2]

end

end Comparison

/-! ## What callbacks are given -/

/-- Data made of values and elements. -/
class Structured (α : Type) where
  /-- The data without the identities of their nodes. -/
  form : Focus → α → α
  /-- Every number and every node in the data satisfies a condition. -/
  Every : (Float → Prop) → (Element → Prop) → α → Prop
  /-- A weaker condition on nodes is satisfied as well. -/
  every_imp {number : Float → Prop} {node other : Element → Prop} {data : α} :
    (∀ element, node element → other element) → Every number node data → Every number other data

instance : Structured Value where
  form := Value.form
  Every := Value.Every
  every_imp weaker every := every.imp weaker

instance : Structured Element where
  form := Element.form
  Every := Element.Every
  every_imp weaker every := every.imp weaker

/-- The form of a value that may be missing. -/
def Value.formOption (focus : Focus) (data : Option Value) : Option Value :=
  data.map (Value.form focus)

instance : Structured (Option Value) where
  form := Value.formOption
  Every number node data := ∀ value, data = some value → value.Every number node
  every_imp weaker every value present := (every value present).imp weaker

instance : Structured ObserveContext where
  form focus context :=
    { props := Value.formFields focus context.props
      children := Element.formChildren focus context.children }
  Every number node context :=
    Value.EveryField number node context.props ∧ Element.EveryChild number node context.children
  every_imp weaker every := ⟨every.1.imp weaker, every.2.imp weaker⟩

instance : Structured DescribeContext where
  form focus context :=
    { data := Value.formOption focus context.data
      props := Value.formFields focus context.props
      children := Element.formChildren focus context.children }
  Every number node context :=
    Structured.Every number node context.data ∧ Value.EveryField number node context.props ∧
      Element.EveryChild number node context.children
  every_imp weaker every :=
    ⟨Structured.every_imp weaker every.1, every.2.1.imp weaker, every.2.2.imp weaker⟩

instance : Structured ObserveInputs where
  form focus inputs :=
    { kind := inputs.kind
      props := Value.formFields focus inputs.props
      children := Element.formChildren focus inputs.children }
  Every number node inputs :=
    Value.EveryField number node inputs.props ∧ Element.EveryChild number node inputs.children
  every_imp weaker every := ⟨every.1.imp weaker, every.2.imp weaker⟩

instance : Structured DescribeInputs where
  form focus inputs :=
    { kind := inputs.kind
      props := Value.formFields focus inputs.props
      children := Element.formChildren focus inputs.children
      data := Value.formOption focus inputs.data }
  Every number node inputs :=
    Structured.Every number node inputs.data ∧ Value.EveryField number node inputs.props ∧
      Element.EveryChild number node inputs.children
  every_imp weaker every :=
    ⟨Structured.every_imp weaker every.1, every.2.1.imp weaker, every.2.2.imp weaker⟩

section Inputs

variable {focus : Focus} {number : Float → Prop} {node : Element → Prop}

theorem ObserveInputs.form_eq_of_beq (discerns : focus.Discerns number node)
    {left right : ObserveInputs} (left_every : Structured.Every number node left)
    (right_every : Structured.Every number node right) (same : (left == right) = true) :
    Structured.form focus left = Structured.form focus right := by
  have parts : ((left.kind == right.kind && Value.sameFields left.props right.props) &&
      Element.sameChildren left.children right.children) = true := same
  simp only [Bool.and_eq_true, beq_iff_eq] at parts
  simp only [Structured.form, parts.1.1,
    Value.formFields_eq_of_same discerns left_every.1 right_every.1 parts.1.2,
    Element.formChildren_eq_of_same discerns left_every.2 right_every.2 parts.2]

theorem Value.formOption_eq_of_same (discerns : focus.Discerns number node)
    {left right : Option Value} (left_every : Structured.Every number node left)
    (right_every : Structured.Every number node right) (same : Value.sameOption left right = true) :
    Value.formOption focus left = Value.formOption focus right := by
  match left, right with
  | none, none => rfl
  | some left, some right =>
      exact congrArg some (Value.form_eq_of_same discerns (left_every left rfl)
        (right_every right rfl) same)

theorem DescribeInputs.form_eq_of_beq (discerns : focus.Discerns number node)
    {left right : DescribeInputs} (left_every : Structured.Every number node left)
    (right_every : Structured.Every number node right) (same : (left == right) = true) :
    Structured.form focus left = Structured.form focus right := by
  have parts : (((left.kind == right.kind && Value.sameFields left.props right.props) &&
      Element.sameChildren left.children right.children) &&
        Value.sameOption left.data right.data) = true := same
  simp only [Bool.and_eq_true, beq_iff_eq] at parts
  simp only [Structured.form, parts.1.1.1,
    Value.formOption_eq_of_same discerns left_every.1 right_every.1 parts.2,
    Value.formFields_eq_of_same discerns left_every.2.1 right_every.2.1 parts.1.1.2,
    Element.formChildren_eq_of_same discerns left_every.2.2 right_every.2.2 parts.1.2]

end Inputs

mutual

/-- An expansion without the identities of its nodes. -/
def Expansion.form (focus : Focus) : Expansion → Expansion
  | .structural element data children =>
      .structural (element.form focus) (Value.formOption focus data)
        (Expansion.forms focus children)
  | .described element data body =>
      .described (element.form focus) (Value.formOption focus data) (Expansion.form focus body)

/-- Several expansions without the identities of their nodes. -/
def Expansion.forms (focus : Focus) : List Expansion → List Expansion
  | [] => []
  | first :: rest => Expansion.form focus first :: Expansion.forms focus rest

end

theorem Element.formChildren_eq_map (focus : Focus) (children : List Element) :
    Element.formChildren focus children = children.map (Element.form focus) := by
  induction children with
  | nil => rfl
  | cons child rest induction => rw [Element.formChildren, induction, List.map_cons]

@[simp]
theorem Element.kind_form (focus : Focus) (element : Element) :
    (element.form focus).kind = element.kind := by
  cases element
  rfl

@[simp]
theorem Element.props_form (focus : Focus) (element : Element) :
    (element.form focus).props = Value.formFields focus element.props := by
  cases element
  rfl

@[simp]
theorem Element.children_form (focus : Focus) (element : Element) :
    (element.form focus).children = Element.formChildren focus element.children := by
  cases element
  rfl

/-- Nodes of the same form have props and children of the same form. -/
theorem Element.parts_eq_of_form {focus : Focus} {left right : Element}
    (same : left.form focus = right.form focus) :
    Value.formFields focus left.props = Value.formFields focus right.props ∧
      Element.formChildren focus left.children = Element.formChildren focus right.children := by
  have same_props := congrArg Element.props same
  have same_children := congrArg Element.children same
  rw [Element.props_form, Element.props_form] at same_props
  rw [Element.children_form, Element.children_form] at same_children
  exact ⟨same_props, same_children⟩

theorem Element.mapM_children_form {m : Type → Type} [Monad m] [LawfulMonad m] {β : Type}
    (focus : Focus) (element : Element) (run : Element × Nat → m β) :
    (element.form focus).children.zipIdx.mapM run =
      element.children.zipIdx.mapM fun entry => run (entry.1.form focus, entry.2) := by
  rw [Element.children_form, Element.formChildren_eq_map, List.zipIdx_map, List.mapM_map]
  rfl

theorem Expansion.forms_eq {focus : Focus} {results values : List Expansion}
    (expected : List.Forall₂ (fun result value => result.form focus = value) results values) :
    Expansion.forms focus results = values := by
  induction expected with
  | nil => rfl
  | cons first _ induction => rw [Expansion.forms, first, induction]

/-! ## Censuses -/

/-- Which nodes there are in a state of the callbacks, and of what sort numbers and nodes are. -/
structure Census (σ : Type) where
  /-- The node that an identity belongs to. -/
  nodeAt : σ → NodeId → Option Element
  /-- The numbers that occur in values. -/
  number : Float → Prop
  /-- The nodes that occur in elements. -/
  node : Element → Prop

namespace Census

variable {σ α : Type}

/-- A node is listed under its identity. -/
def Lists (census : Census σ) (ambient : σ) (node : Element) : Prop :=
  census.nodeAt ambient node.id = some node ∧ census.node node

/-- The data are made of listed nodes, and of numbers that occur. -/
def Knows [Structured α] (census : Census σ) (ambient : σ) (data : α) : Prop :=
  Structured.Every census.number (census.Lists ambient) data

/-- Every identity that belongs to a node goes on belonging to it. -/
def Grows (census : Census σ) (before after : σ) : Prop :=
  ∀ id node, census.nodeAt before id = some node → census.nodeAt after id = some node

theorem Grows.refl (census : Census σ) (ambient : σ) : census.Grows ambient ambient :=
  fun _ _ listed => listed

theorem Grows.trans {census : Census σ} {first second third : σ}
    (earlier : census.Grows first second) (later : census.Grows second third) :
    census.Grows first third :=
  fun id node listed => later id node (earlier id node listed)

theorem Knows.grow [Structured α] {census : Census σ} {before after : σ} {data : α}
    (knows : census.Knows before data) (grows : census.Grows before after) :
    census.Knows after data :=
  Structured.every_imp (fun node listed => ⟨grows node.id node listed.1, listed.2⟩) knows

theorem knows_element {census : Census σ} {ambient : σ} {element : Element} :
    census.Knows ambient (Value.element element) ↔ census.Knows ambient element := by
  simp [Knows, Structured.Every, Value.Every]

theorem Knows.observeContext {census : Census σ} {ambient : σ} {element : Element}
    (knows : census.Knows ambient element) :
    census.Knows ambient
      ({ props := element.props, children := element.children } : ObserveContext) := by
  cases element
  exact knows.2

theorem Knows.describeContext {census : Census σ} {ambient : σ} {element : Element}
    {data : Option Value} (knows : census.Knows ambient element)
    (knows_data : census.Knows ambient data) :
    census.Knows ambient
      ({ data, props := element.props, children := element.children } : DescribeContext) := by
  cases element
  exact ⟨knows_data, knows.2⟩

theorem Knows.observeInputs {census : Census σ} {ambient : σ} {element : Element}
    (knows : census.Knows ambient element) :
    census.Knows ambient (ObserveInputs.ofElement element) := by
  cases element
  exact knows.2

theorem Knows.describeInputs {census : Census σ} {ambient : σ} {element : Element}
    {data : Option Value} (knows : census.Knows ambient element)
    (knows_data : census.Knows ambient data) :
    census.Knows ambient (DescribeInputs.ofElement element data) := by
  cases element
  exact ⟨knows_data, knows.2⟩

theorem Knows.child {census : Census σ} {ambient : σ} {element child : Element}
    (knows : census.Knows ambient element) (member : child ∈ element.children) :
    census.Knows ambient child :=
  Element.Every.child knows member

theorem knows_none {census : Census σ} {ambient : σ} : census.Knows ambient (none : Option Value) :=
  nofun

theorem knows_some {census : Census σ} {ambient : σ} {value : Value} :
    census.Knows ambient (some value) ↔ census.Knows ambient value := by
  simp [Knows, Structured.Every]

theorem discerns {census : Census σ} {focus : Focus}
    (numbers : ∀ left right, census.number left → census.number right →
      Number.same left right = true → focus.number left = focus.number right) (ambient : σ) :
    focus.Discerns census.number (census.Lists ambient) where
  numbers := numbers
  identity left right left_listed right_listed shared := by
    have listed := left_listed.1
    rw [shared, right_listed.1] at listed
    exact (Option.some.inj listed).symm

end Census

end Phrasing
