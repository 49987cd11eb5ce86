import Phrasing.Proofs.Expansion.Structure
import Phrasing.Store.Inputs

/-!
# Forms that comparison looks at

Comparison ignores identities and the sign of zero.  Where no value is undefined, data with one form
compare equal, and whatever is encoded, the encoding is that of the form.  So inputs with one form
have one fingerprint and find each other in a memo table.
-/

namespace Phrasing

/-- A number with both zeros folded into one. -/
def Number.unsigned (number : Float) : Float :=
  if number.toBits = 0x8000000000000000 then Float.ofBits 0 else number

theorem Number.toBits_unsigned (number : Float) : (unsigned number).toBits = canonicalBits number := by
  rw [unsigned, canonicalBits]
  split
  · decide
  · rfl

theorem Number.canonicalBits_unsigned (number : Float) :
    canonicalBits (unsigned number) = canonicalBits number := by
  have bits := toBits_unsigned number
  rw [canonicalBits, bits]
  split
  · next signed =>
      rw [canonicalBits] at signed ⊢
      split at signed <;> simp_all
  · rfl

theorem Number.unsigned_eq_of_canonicalBits {left right : Float}
    (equal : canonicalBits left = canonicalBits right) : unsigned left = unsigned right := by
  have bits : (unsigned left).toBits = (unsigned right).toBits := by
    rw [toBits_unsigned, toBits_unsigned, equal]
  generalize unsigned left = left at bits
  generalize unsigned right = right at bits
  obtain ⟨⟨left, left_valid⟩⟩ := left
  obtain ⟨⟨right, right_valid⟩⟩ := right
  obtain rfl : left = right := bits
  rfl

theorem Number.unsigned_eq_of_same {left right : Float} (equal : same left right = true) :
    unsigned left = unsigned right :=
  unsigned_eq_of_canonicalBits (same_iff.mp equal).2

theorem Number.same_of_unsigned_eq {left right : Float} (defined : left.toBits ≠ undefinedBits)
    (equal : unsigned left = unsigned right) : same left right = true := by
  refine same_iff.mpr ⟨defined, ?_⟩
  rw [← toBits_unsigned, ← toBits_unsigned, equal]

/-- Every number that occurs equals itself. -/
def Number.Defined (number : Float → Prop) : Prop :=
  ∀ value, number value → value.toBits ≠ undefinedBits

/-- The focus on what comparison looks at. -/
def Focus.comparison : Focus where
  number := Number.unsigned
  hash := id

section Comparison

variable {number : Float → Prop} {node : Element → Prop}

mutual

theorem Value.same_of_form_eq (defined : Number.Defined number) :
    ∀ {left right : Value}, left.Every number node →
      left.form .comparison = right.form .comparison → Value.same left right = true
  | .null, right, _, forms => by cases right <;> simp_all [Value.form, Value.same]
  | .bool _, right, _, forms => by cases right <;> simp_all [Value.form, Value.same]
  | .int _, right, _, forms => by cases right <;> simp_all [Value.form, Value.same]
  | .text _, right, _, forms => by cases right <;> simp_all [Value.form, Value.same]
  | .float left, right, every, forms => by
      cases right with
      | float right =>
          rw [Value.form, Value.form, Value.float.injEq] at forms
          rw [Value.same]
          exact Number.same_of_unsigned_eq (defined left every) forms
      | _ => simp [Value.form] at forms
  | .list left, right, every, forms => by
      cases right with
      | list right =>
          rw [Value.form, Value.form, Value.list.injEq] at forms
          rw [Value.same]
          exact Value.sameItems_of_form_eq defined every forms
      | _ => simp [Value.form] at forms
  | .map left, right, every, forms => by
      cases right with
      | map right =>
          rw [Value.form, Value.form, Value.map.injEq] at forms
          rw [Value.same]
          exact Value.sameFields_of_form_eq defined every forms
      | _ => simp [Value.form] at forms
  | .element left, right, every, forms => by
      cases right with
      | element right =>
          rw [Value.form, Value.form, Value.element.injEq] at forms
          rw [Value.same]
          exact Element.same_of_form_eq defined every forms
      | _ => simp [Value.form] at forms

theorem Value.sameItems_of_form_eq (defined : Number.Defined number) :
    ∀ {left right : List Value}, Value.EveryItem number node left →
      Value.formItems .comparison left = Value.formItems .comparison right →
      Value.sameItems left right = true
  | [], right, _, forms => by cases right <;> simp_all [Value.formItems, Value.sameItems]
  | left :: lefts, rights, every, forms => by
      cases rights with
      | nil => simp [Value.formItems] at forms
      | cons right rights =>
          rw [Value.formItems, Value.formItems, List.cons.injEq] at forms
          rw [Value.sameItems, Value.same_of_form_eq defined every.1 forms.1,
            Value.sameItems_of_form_eq defined every.2 forms.2]
          rfl

theorem Value.sameFields_of_form_eq (defined : Number.Defined number) :
    ∀ {left right : List (String × Value)}, Value.EveryField number node left →
      Value.formFields .comparison left = Value.formFields .comparison right →
      Value.sameFields left right = true
  | [], right, _, forms => by cases right <;> simp_all [Value.formFields, Value.sameFields]
  | (key, left) :: lefts, rights, every, forms => by
      cases rights with
      | nil => simp [Value.formFields] at forms
      | cons field rights =>
          obtain ⟨other, right⟩ := field
          rw [Value.formFields, Value.formFields, List.cons.injEq, Prod.mk.injEq] at forms
          rw [Value.sameFields, forms.1.1, Value.same_of_form_eq defined every.1 forms.1.2,
            Value.sameFields_of_form_eq defined every.2 forms.2, beq_self_eq_true]
          rfl

theorem Element.same_of_form_eq (defined : Number.Defined number) :
    ∀ {left right : Element}, left.Every number node →
      left.form .comparison = right.form .comparison → Element.same left right = true
  | .node id kind props children hash, .node otherId otherKind otherProps otherChildren otherHash,
      every, forms => by
      rw [Element.form, Element.form, Element.node.injEq] at forms
      obtain ⟨-, rfl, props_eq, children_eq, hash_eq⟩ := forms
      obtain rfl : hash = otherHash := hash_eq
      rw [Element.same, Value.sameFields_of_form_eq defined every.2.1 props_eq,
        Element.sameChildren_of_form_eq defined every.2.2 children_eq, beq_self_eq_true,
        beq_self_eq_true]
      exact Bool.or_true _

theorem Element.sameChildren_of_form_eq (defined : Number.Defined number) :
    ∀ {left right : List Element}, Element.EveryChild number node left →
      Element.formChildren .comparison left = Element.formChildren .comparison right →
      Element.sameChildren left right = true
  | [], right, _, forms => by cases right <;> simp_all [Element.formChildren, Element.sameChildren]
  | left :: lefts, rights, every, forms => by
      cases rights with
      | nil => simp [Element.formChildren] at forms
      | cons right rights =>
          rw [Element.formChildren, Element.formChildren, List.cons.injEq] at forms
          rw [Element.sameChildren, Element.same_of_form_eq defined every.1 forms.1,
            Element.sameChildren_of_form_eq defined every.2 forms.2]
          rfl

end

end Comparison

@[simp]
theorem Element.encoding_form (element : Element) :
    (element.form .comparison).encoding = element.encoding := by
  cases element
  rfl

theorem Element.listEncoding_form (elements : List Element) :
    Element.listEncoding (Element.formChildren .comparison elements) =
      Element.listEncoding elements := by
  simp [Element.listEncoding, Element.formChildren_eq_map, List.flatMap_map]

theorem Value.length_formItems (focus : Focus) (items : List Value) :
    (Value.formItems focus items).length = items.length := by
  induction items with
  | nil => rfl
  | cons item rest induction => rw [Value.formItems, List.length_cons, List.length_cons, induction]

theorem Value.length_formFields (focus : Focus) (fields : List (String × Value)) :
    (Value.formFields focus fields).length = fields.length := by
  induction fields with
  | nil => rfl
  | cons field rest induction =>
      rw [Value.formFields, List.length_cons, List.length_cons, induction]

mutual

theorem Value.bytes_encoding_form :
    ∀ value : Value, (value.form .comparison).encoding.bytes = value.encoding.bytes
  | .null => by rw [Value.form]
  | .bool _ => by rw [Value.form]
  | .int _ => by rw [Value.form]
  | .text _ => by rw [Value.form]
  | .float value => by
      simp [Value.form, Value.encoding, Write.bytes, Focus.comparison,
        Number.canonicalBits_unsigned]
  | .list items => by
      simp [Value.form, Value.encoding, Value.length_formItems, Value.bytes_itemsEncoding_form items]
  | .map fields => by
      simp [Value.form, Value.encoding, Value.length_formFields,
        Value.bytes_fieldsEncoding_form fields]
  | .element node => by rw [Value.form, Value.encoding, Value.encoding, Element.encoding_form]

theorem Value.bytes_itemsEncoding_form :
    ∀ items : List Value, (Value.itemsEncoding (Value.formItems .comparison items)).bytes =
      (Value.itemsEncoding items).bytes
  | [] => by rw [Value.formItems]
  | item :: rest => by
      simp [Value.formItems, Value.itemsEncoding, Value.bytes_encoding_form item,
        Value.bytes_itemsEncoding_form rest]

theorem Value.bytes_fieldsEncoding_form :
    ∀ fields : List (String × Value),
      (Value.fieldsEncoding (Value.formFields .comparison fields)).bytes =
        (Value.fieldsEncoding fields).bytes
  | [] => by rw [Value.formFields]
  | (key, value) :: rest => by
      simp [Value.formFields, Value.fieldsEncoding, Value.bytes_encoding_form value,
        Value.bytes_fieldsEncoding_form rest]

end

theorem Value.bytes_optionEncoding_form (data : Option Value) :
    (Value.optionEncoding (Value.formOption .comparison data)).bytes =
      (Value.optionEncoding data).bytes := by
  cases data with
  | none => rfl
  | some value => simp [Value.formOption, Value.optionEncoding, Value.bytes_encoding_form]

theorem Element.bytes_contentEncoding_form (kind : Kind) (props : Props) (children : List Element) :
    (Element.contentEncoding kind (Value.formFields .comparison props)
        (Element.formChildren .comparison children)).bytes =
      (Element.contentEncoding kind props children).bytes := by
  simp [Element.contentEncoding, Props.encoding, Value.length_formFields,
    Value.bytes_fieldsEncoding_form, Element.listEncoding_form]

section Inputs

variable {number : Float → Prop} {node : Element → Prop}

theorem ObserveInputs.beq_of_form_eq (defined : Number.Defined number)
    {left right : ObserveInputs} (every : Structured.Every number node left)
    (forms : Structured.form .comparison left = Structured.form .comparison right) :
    (left == right) = true := by
  obtain ⟨kind, props, children⟩ := left
  obtain ⟨otherKind, otherProps, otherChildren⟩ := right
  obtain ⟨rfl, props_eq, children_eq⟩ := ObserveInputs.mk.injEq .. ▸ forms
  change (kind == kind && Value.sameFields props otherProps &&
    Element.sameChildren children otherChildren) = true
  rw [beq_self_eq_true, Value.sameFields_of_form_eq defined every.1 props_eq,
    Element.sameChildren_of_form_eq defined every.2 children_eq]
  rfl

theorem DescribeInputs.beq_of_form_eq (defined : Number.Defined number)
    {left right : DescribeInputs} (every : Structured.Every number node left)
    (forms : Structured.form .comparison left = Structured.form .comparison right) :
    (left == right) = true := by
  obtain ⟨kind, props, children, data⟩ := left
  obtain ⟨otherKind, otherProps, otherChildren, otherData⟩ := right
  obtain ⟨rfl, props_eq, children_eq, data_eq⟩ := DescribeInputs.mk.injEq .. ▸ forms
  have data_same : Value.sameOption data otherData = true := by
    match data, otherData, data_eq with
    | none, none, _ => rfl
    | some left, some right, data_eq =>
        exact Value.same_of_form_eq defined (every.1 left rfl) (Option.some.inj data_eq)
  change (kind == kind && Value.sameFields props otherProps &&
    Element.sameChildren children otherChildren && Value.sameOption data otherData) = true
  rw [beq_self_eq_true, Value.sameFields_of_form_eq defined every.2.1 props_eq,
    Element.sameChildren_of_form_eq defined every.2.2 children_eq, data_same]
  rfl

end Inputs

section Fingerprints

variable [Digest]

theorem ObserveInputs.fingerprint_form (inputs : ObserveInputs) :
    (Structured.form .comparison inputs).fingerprint = inputs.fingerprint := by
  simp [fingerprint, encoding, Encoding.hash, Structured.form, Element.bytes_contentEncoding_form]

theorem DescribeInputs.fingerprint_form (inputs : DescribeInputs) :
    (Structured.form .comparison inputs).fingerprint = inputs.fingerprint := by
  simp [fingerprint, encoding, Encoding.hash, Structured.form, Element.bytes_contentEncoding_form,
    Value.bytes_optionEncoding_form]

theorem ObserveInputs.fingerprint_eq_of_form_eq {left right : ObserveInputs}
    (forms : Structured.form .comparison left = Structured.form .comparison right) :
    left.fingerprint = right.fingerprint := by
  rw [← fingerprint_form, forms, fingerprint_form]

theorem DescribeInputs.fingerprint_eq_of_form_eq {left right : DescribeInputs}
    (forms : Structured.form .comparison left = Structured.form .comparison right) :
    left.fingerprint = right.fingerprint := by
  rw [← fingerprint_form, forms, fingerprint_form]

end Fingerprints

theorem DescribeInputs.form_eq_iff {focus : Focus} {left right : Element}
    {left_data right_data : Option Value} :
    Structured.form focus (DescribeInputs.ofElement left left_data) =
        Structured.form focus (DescribeInputs.ofElement right right_data) ↔
      Structured.form focus (ObserveInputs.ofElement left) =
          Structured.form focus (ObserveInputs.ofElement right) ∧
        Value.formOption focus left_data = Value.formOption focus right_data := by
  simp [Structured.form, ofElement, ObserveInputs.ofElement, and_assoc]

/-- Comparison discerns whatever is listed. -/
theorem Census.discerns_comparison {σ : Type} (census : Census σ) (ambient : σ) :
    Focus.comparison.Discerns census.number (census.Lists ambient) :=
  Census.discerns (fun _ _ _ _ => Number.unsigned_eq_of_same) ambient

end Phrasing
