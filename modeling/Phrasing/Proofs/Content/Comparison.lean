import Phrasing.Proofs.Content.Decoding

/-!
# Comparison with and without shortcuts

Comparison of elements takes two shortcuts: one node equals itself, and nodes with different hashes
differ.  Each of them can be left out, and without both of them comparison is deep.  Among nodes that
carry the hashes of their contents, where an identity belongs to one node and every number equals
itself, all these comparisons decide whether contents are the same.
-/

namespace Phrasing

/-- The shortcuts that a comparison of elements takes. -/
structure Shortcuts where
  /-- Elements that share a node are the same. -/
  sharing : Bool
  /-- Elements with different hashes are not the same. -/
  hashing : Bool

/-- Every shortcut is taken. -/
def Shortcuts.all : Shortcuts where
  sharing := true
  hashing := true

/-- No shortcut is taken. -/
def Shortcuts.none : Shortcuts where
  sharing := false
  hashing := false

mutual

/-- Whether two values are the same. -/
def Value.sameBy (shortcuts : Shortcuts) : Value → Value → Bool
  | .null, .null => true
  | .bool left, .bool right => left == right
  | .int left, .int right => left == right
  | .float left, .float right => Number.same left right
  | .text left, .text right => left == right
  | .list left, .list right => Value.sameItemsBy shortcuts left right
  | .map left, .map right => Value.sameFieldsBy shortcuts left right
  | .element left, .element right => Element.sameBy shortcuts left right
  | _, _ => false

/-- Whether two lists of values are the same. -/
def Value.sameItemsBy (shortcuts : Shortcuts) : List Value → List Value → Bool
  | [], [] => true
  | left :: lefts, right :: rights =>
      Value.sameBy shortcuts left right && Value.sameItemsBy shortcuts lefts rights
  | _, _ => false

/-- Whether two maps have the same keys with the same values. -/
def Value.sameFieldsBy (shortcuts : Shortcuts) :
    List (String × Value) → List (String × Value) → Bool
  | [], [] => true
  | (key, left) :: lefts, (other, right) :: rights =>
      key == other && Value.sameBy shortcuts left right &&
        Value.sameFieldsBy shortcuts lefts rights
  | _, _ => false

/-- Whether two elements are the same. -/
def Element.sameBy (shortcuts : Shortcuts) : Element → Element → Bool
  | .node id kind props children hash, .node otherId otherKind otherProps otherChildren otherHash =>
      shortcuts.sharing && id == otherId ||
        (!shortcuts.hashing || hash == otherHash) && kind == otherKind &&
          Value.sameFieldsBy shortcuts props otherProps &&
          Element.sameChildrenBy shortcuts children otherChildren

/-- Whether two lists of elements are the same. -/
def Element.sameChildrenBy (shortcuts : Shortcuts) : List Element → List Element → Bool
  | [], [] => true
  | left :: lefts, right :: rights =>
      Element.sameBy shortcuts left right && Element.sameChildrenBy shortcuts lefts rights
  | _, _ => false

end

mutual

theorem Value.sameBy_all : ∀ left right : Value, left.sameBy .all right = left.same right
  | .list left, right => by
      cases right with
      | list right =>
          rw [Value.sameBy, Value.same]
          exact Value.sameItemsBy_all left right
      | _ => simp [Value.sameBy, Value.same]
  | .map left, right => by
      cases right with
      | map right =>
          rw [Value.sameBy, Value.same]
          exact Value.sameFieldsBy_all left right
      | _ => simp [Value.sameBy, Value.same]
  | .element left, right => by
      cases right with
      | element right =>
          rw [Value.sameBy, Value.same]
          exact Element.sameBy_all left right
      | _ => simp [Value.sameBy, Value.same]
  | .null, right => by cases right <;> simp [Value.sameBy, Value.same]
  | .bool _, right => by cases right <;> simp [Value.sameBy, Value.same]
  | .int _, right => by cases right <;> simp [Value.sameBy, Value.same]
  | .float _, right => by cases right <;> simp [Value.sameBy, Value.same]
  | .text _, right => by cases right <;> simp [Value.sameBy, Value.same]

theorem Value.sameItemsBy_all :
    ∀ left right : List Value, Value.sameItemsBy .all left right = Value.sameItems left right
  | [], right => by cases right <;> simp [Value.sameItemsBy, Value.sameItems]
  | left :: lefts, rights => by
      cases rights with
      | nil => simp [Value.sameItemsBy, Value.sameItems]
      | cons right rights =>
          rw [Value.sameItemsBy, Value.sameItems, Value.sameBy_all left right,
            Value.sameItemsBy_all lefts rights]

theorem Value.sameFieldsBy_all :
    ∀ left right : List (String × Value),
      Value.sameFieldsBy .all left right = Value.sameFields left right
  | [], right => by cases right <;> simp [Value.sameFieldsBy, Value.sameFields]
  | (key, left) :: lefts, rights => by
      cases rights with
      | nil => simp [Value.sameFieldsBy, Value.sameFields]
      | cons field rights =>
          obtain ⟨other, right⟩ := field
          rw [Value.sameFieldsBy, Value.sameFields, Value.sameBy_all left right,
            Value.sameFieldsBy_all lefts rights]

theorem Element.sameBy_all : ∀ left right : Element, left.sameBy .all right = left.same right
  | .node _ _ props children _, .node _ _ otherProps otherChildren _ => by
      rw [Element.sameBy, Element.same, Value.sameFieldsBy_all props otherProps,
        Element.sameChildrenBy_all children otherChildren]
      rfl

theorem Element.sameChildrenBy_all :
    ∀ left right : List Element,
      Element.sameChildrenBy .all left right = Element.sameChildren left right
  | [], right => by cases right <;> simp [Element.sameChildrenBy, Element.sameChildren]
  | left :: lefts, rights => by
      cases rights with
      | nil => simp [Element.sameChildrenBy, Element.sameChildren]
      | cons right rights =>
          rw [Element.sameChildrenBy, Element.sameChildren, Element.sameBy_all left right,
            Element.sameChildrenBy_all lefts rights]

end

theorem Element.sameBy_none_iff {left right : Element} :
    left.sameBy .none right = true ↔
      left.kind = right.kind ∧ Value.sameFieldsBy .none left.props right.props = true ∧
        Element.sameChildrenBy .none left.children right.children = true := by
  obtain ⟨id, kind, props, children, hash⟩ := left
  obtain ⟨otherId, otherKind, otherProps, otherChildren, otherHash⟩ := right
  simp [Element.sameBy, Element.kind, Element.props, Element.children, Shortcuts.none, and_assoc]

/-- Nodes of a set that share an identity are one node. -/
def Element.Identified (node : Element → Prop) : Prop :=
  ∀ left right, node left → node right → left.id = right.id → left = right

section Contents

variable {number : Float → Prop} {node : Element → Prop} [Digest]

mutual

theorem Value.sameBy_iff (shortcuts : Shortcuts) (sealed : Element.Sealed node)
    (identified : Element.Identified node) (defined : Number.Defined number) :
    ∀ {left right : Value}, left.Every number node → right.Every number node →
      (left.sameBy shortcuts right = true ↔ left.form .content = right.form .content)
  | .null, right, _, _ => by cases right <;> simp [Value.sameBy, Value.form]
  | .bool _, right, _, _ => by cases right <;> simp [Value.sameBy, Value.form]
  | .int _, right, _, _ => by cases right <;> simp [Value.sameBy, Value.form]
  | .text _, right, _, _ => by cases right <;> simp [Value.sameBy, Value.form]
  | .float left, right, left_every, _ => by
      cases right with
      | float right =>
          rw [Value.sameBy, Value.form, Value.form, Value.float.injEq]
          exact ⟨Number.unsigned_eq_of_same, Number.same_of_unsigned_eq (defined left left_every)⟩
      | _ => simp [Value.sameBy, Value.form]
  | .list left, right, left_every, right_every => by
      cases right with
      | list right =>
          rw [Value.sameBy, Value.form, Value.form, Value.list.injEq]
          exact Value.sameItemsBy_iff shortcuts sealed identified defined left_every right_every
      | _ => simp [Value.sameBy, Value.form]
  | .map left, right, left_every, right_every => by
      cases right with
      | map right =>
          rw [Value.sameBy, Value.form, Value.form, Value.map.injEq]
          exact Value.sameFieldsBy_iff shortcuts sealed identified defined left_every right_every
      | _ => simp [Value.sameBy, Value.form]
  | .element left, right, left_every, right_every => by
      cases right with
      | element right =>
          rw [Value.sameBy, Value.form, Value.form, Value.element.injEq]
          exact Element.sameBy_iff shortcuts sealed identified defined left_every right_every
      | _ => simp [Value.sameBy, Value.form]

theorem Value.sameItemsBy_iff (shortcuts : Shortcuts) (sealed : Element.Sealed node)
    (identified : Element.Identified node) (defined : Number.Defined number) :
    ∀ {left right : List Value}, Value.EveryItem number node left →
      Value.EveryItem number node right →
      (Value.sameItemsBy shortcuts left right = true ↔
        Value.formItems .content left = Value.formItems .content right)
  | [], right, _, _ => by cases right <;> simp [Value.sameItemsBy, Value.formItems]
  | left :: lefts, rights, left_every, right_every => by
      cases rights with
      | nil => simp [Value.sameItemsBy, Value.formItems]
      | cons right rights =>
          rw [Value.sameItemsBy, Bool.and_eq_true, Value.formItems, Value.formItems,
            List.cons.injEq,
            Value.sameBy_iff shortcuts sealed identified defined left_every.1 right_every.1,
            Value.sameItemsBy_iff shortcuts sealed identified defined left_every.2 right_every.2]

theorem Value.sameFieldsBy_iff (shortcuts : Shortcuts) (sealed : Element.Sealed node)
    (identified : Element.Identified node) (defined : Number.Defined number) :
    ∀ {left right : List (String × Value)}, Value.EveryField number node left →
      Value.EveryField number node right →
      (Value.sameFieldsBy shortcuts left right = true ↔
        Value.formFields .content left = Value.formFields .content right)
  | [], right, _, _ => by cases right <;> simp [Value.sameFieldsBy, Value.formFields]
  | (key, left) :: lefts, rights, left_every, right_every => by
      cases rights with
      | nil => simp [Value.sameFieldsBy, Value.formFields]
      | cons field rights =>
          obtain ⟨other, right⟩ := field
          rw [Value.sameFieldsBy, Bool.and_eq_true, Bool.and_eq_true, beq_iff_eq,
            Value.formFields, Value.formFields, List.cons.injEq, Prod.mk.injEq,
            Value.sameBy_iff shortcuts sealed identified defined left_every.1 right_every.1,
            Value.sameFieldsBy_iff shortcuts sealed identified defined left_every.2 right_every.2]

theorem Element.sameBy_iff (shortcuts : Shortcuts) (sealed : Element.Sealed node)
    (identified : Element.Identified node) (defined : Number.Defined number) :
    ∀ {left right : Element}, left.Every number node → right.Every number node →
      (left.sameBy shortcuts right = true ↔ left.form .content = right.form .content)
  | .node id kind props children hash, .node otherId otherKind otherProps otherChildren otherHash,
      left_every, right_every => by
      have fields := Value.sameFieldsBy_iff shortcuts sealed identified defined left_every.2.1
        right_every.2.1
      have rest := Element.sameChildrenBy_iff shortcuts sealed identified defined left_every.2.2
        right_every.2.2
      constructor
      · intro same
        rw [Element.sameBy, Bool.or_eq_true, Bool.and_eq_true, beq_iff_eq] at same
        rcases same with shared | same
        · rw [identified _ _ left_every.1 right_every.1 shared.2]
        · simp only [Bool.and_eq_true, beq_iff_eq] at same
          rw [Element.form, Element.form, same.1.1.2, fields.mp same.1.2, rest.mp same.2]
          rfl
      · intro forms
        -- the hashes are compared as well, and they are those of one content
        have hashes : hash = otherHash :=
          Element.contentHash_eq_of_form sealed left_every right_every forms
        rw [Element.form, Element.form, Element.node.injEq] at forms
        obtain ⟨-, kinds, props_eq, children_eq, -⟩ := forms
        rw [Element.sameBy, hashes, kinds, fields.mpr props_eq, rest.mpr children_eq]
        simp

theorem Element.sameChildrenBy_iff (shortcuts : Shortcuts) (sealed : Element.Sealed node)
    (identified : Element.Identified node) (defined : Number.Defined number) :
    ∀ {left right : List Element}, Element.EveryChild number node left →
      Element.EveryChild number node right →
      (Element.sameChildrenBy shortcuts left right = true ↔
        Element.formChildren .content left = Element.formChildren .content right)
  | [], right, _, _ => by cases right <;> simp [Element.sameChildrenBy, Element.formChildren]
  | left :: lefts, rights, left_every, right_every => by
      cases rights with
      | nil => simp [Element.sameChildrenBy, Element.formChildren]
      | cons right rights =>
          rw [Element.sameChildrenBy, Bool.and_eq_true, Element.formChildren,
            Element.formChildren, List.cons.injEq,
            Element.sameBy_iff shortcuts sealed identified defined left_every.1 right_every.1,
            Element.sameChildrenBy_iff shortcuts sealed identified defined left_every.2
              right_every.2]

end

/-- No shortcut changes the answer of a comparison. -/
theorem Element.sameBy_eq_beq (shortcuts : Shortcuts) (sealed : Element.Sealed node)
    (identified : Element.Identified node) (defined : Number.Defined number) {left right : Element}
    (left_every : left.Every number node) (right_every : right.Every number node) :
    left.sameBy shortcuts right = (left == right) := by
  change _ = left.same right
  rw [← sameBy_all, Bool.eq_iff_iff,
    sameBy_iff shortcuts sealed identified defined left_every right_every,
    sameBy_iff .all sealed identified defined left_every right_every]

end Contents

end Phrasing
