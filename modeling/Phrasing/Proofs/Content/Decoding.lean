import Phrasing.Proofs.Content.Writes

/-!
# Contents behind encodings

The writes of an encoding determine what was encoded, up to the sign of zero and to identities, and
also where the encoding ends in a longer one.  A node is encoded as its hash.  So the nodes at hand
must carry the hashes of their contents, and different contents among them must have different
hashes.
-/

namespace Phrasing

/-- The focus on contents: neither the sign of zero nor the hash of a node is part of them. -/
def Focus.content : Focus where
  number := Number.unsigned
  hash _ := ⟨0, 0⟩

/-- The encoding of the content of an element. -/
def Element.content (element : Element) : Encoding :=
  Element.contentEncoding element.kind element.props element.children

/-- The nodes of a set carry the hashes of their contents. -/
def Element.Sealed [Digest] (node : Element → Prop) : Prop :=
  ∀ element, node element → element.contentHash = element.content.hash

/-- The nodes of a set carry the hashes of their contents, and the hashes do not collide on them. -/
structure Element.Hashed [Digest] (node : Element → Prop) : Prop where
  /-- A node carries the hash of its content. -/
  sealed (element : Element) : node element → element.contentHash = element.content.hash
  /-- The lengths in its content fit into words. -/
  fits (element : Element) : node element → element.content.Fits
  /-- Contents with the same hash have the same encoding. -/
  apart (left right : Element) : node left → node right →
    left.content.hash = right.content.hash → left.content.bytes = right.content.bytes

theorem Element.contentHash_make [Digest] (id : NodeId) (kind : Kind) (props : Props)
    (children : List Element) :
    (make id kind props children).contentHash = (make id kind props children).content.hash :=
  rfl

theorem Primitive.code_inj {left right : Primitive} : left.code = right.code ↔ left = right := by
  constructor
  · intro same
    cases left <;> cases right <;> first | rfl | simp [code] at same
  · rintro rfl
    rfl

theorem Kind.canonical_encoding (kind : Kind) : kind.encoding.canonical = kind.encoding := by
  cases kind
  all_goals rfl

theorem Kind.eq_of_encoding_append {left right : Kind} {rest other : Encoding}
    (same : left.encoding ++ rest = right.encoding ++ other) : left = right ∧ rest = other := by
  cases left with
  | primitive builtIn =>
      cases right with
      | primitive => simpa [encoding, Primitive.code_inj] using same
      | custom => simp [encoding] at same
  | custom type =>
      cases right with
      | primitive => simp [encoding] at same
      | custom =>
          simp only [encoding, List.cons_append, List.nil_append, List.cons.injEq,
            Write.word.injEq, Write.text.injEq, true_and] at same
          exact ⟨congrArg Kind.custom (NodeType.mk.injEq .. ▸ ⟨same.1, same.2.1⟩), same.2.2⟩

theorem Element.canonical_listEncoding (elements : List Element) :
    (listEncoding elements).canonical =
      .length elements.length :: (elements.map contentHash).map Write.hash := by
  rw [listEncoding, Encoding.canonical_cons]
  congr 1
  induction elements with
  | nil => rfl
  | cons element rest induction =>
      rw [List.flatMap_cons, Encoding.canonical_append, induction]
      rfl

/-- Lists of nodes that begin an encoding have the same hashes. -/
theorem Element.contentHashes_eq {left right : List Element} {rest other : Encoding}
    (same : (listEncoding left).canonical ++ rest = (listEncoding right).canonical ++ other) :
    left.map contentHash = right.map contentHash ∧ rest = other := by
  simp only [canonical_listEncoding, List.cons_append, List.cons.injEq, Write.length.injEq] at same
  obtain ⟨hashes, rests⟩ := List.append_inj same.2 (by simpa using same.1)
  exact ⟨List.map_injective_iff.mpr (fun _ _ => Write.hash.inj) hashes, rests⟩

/-- Contents that begin an encoding agree in their kinds and in the number of their props. -/
theorem Element.contentEncoding_parts {kind other_kind : Kind} {props other_props : Props}
    {children other_children : List Element} {rest other : Encoding}
    (same : (contentEncoding kind props children).canonical ++ rest =
      (contentEncoding other_kind other_props other_children).canonical ++ other) :
    kind = other_kind ∧ props.length = other_props.length ∧
      (Value.fieldsEncoding props).canonical ++ ((listEncoding children).canonical ++ rest) =
        (Value.fieldsEncoding other_props).canonical ++
          ((listEncoding other_children).canonical ++ other) := by
  simp only [contentEncoding, Encoding.canonical_append, Kind.canonical_encoding,
    List.append_assoc] at same
  obtain ⟨kinds, behind⟩ := Kind.eq_of_encoding_append same
  simp only [Props.encoding, Encoding.canonical_cons, Write.canonical, List.cons_append] at behind
  obtain ⟨lengths, fields⟩ := List.cons.inj behind
  exact ⟨kinds, Write.length.inj lengths, fields⟩

theorem Element.listEncoding_eq {left right : List Element}
    (hashes : left.map contentHash = right.map contentHash) :
    (listEncoding left).canonical = (listEncoding right).canonical := by
  have lengths := congrArg List.length hashes
  rw [List.length_map, List.length_map] at lengths
  rw [canonical_listEncoding, canonical_listEncoding, lengths, hashes]

theorem Element.contentEncoding_eq (kind : Kind) {props other_props : Props}
    {children other_children : List Element} (lengths : props.length = other_props.length)
    (fields : (Value.fieldsEncoding props).canonical = (Value.fieldsEncoding other_props).canonical)
    (hashes : children.map contentHash = other_children.map contentHash) :
    (contentEncoding kind props children).canonical =
      (contentEncoding kind other_props other_children).canonical := by
  simp only [contentEncoding, Props.encoding, Encoding.canonical_append, Encoding.canonical_cons,
    lengths, fields, listEncoding_eq hashes]

section Contents

variable {number : Float → Prop} {node : Element → Prop} [Digest]

mutual

/-- Values that begin an encoding have the same content, and end at the same place. -/
theorem Value.form_eq_of_encoding (hashed : Element.Hashed node) :
    ∀ {left right : Value}, left.Every number node → right.Every number node →
      ∀ {rest other : Encoding},
        left.encoding.canonical ++ rest = right.encoding.canonical ++ other →
          left.form .content = right.form .content ∧ rest = other
  | .null, right, _, _, _, _, same => by
      cases right with
      | null => simpa [Value.encoding] using same
      | _ => simp [Value.encoding, Write.canonical] at same
  | .bool _, right, _, _, _, _, same => by
      cases right with
      | bool => simpa [Value.encoding, Write.canonical, Value.form] using same
      | _ => simp [Value.encoding, Write.canonical] at same
  | .int _, right, _, _, _, _, same => by
      cases right with
      | int => simpa [Value.encoding, Write.canonical, Value.form] using same
      | _ => simp [Value.encoding, Write.canonical] at same
  | .float _, right, _, _, _, _, same => by
      cases right with
      | float => simpa [Value.encoding, Write.canonical, Value.form, Focus.content] using same
      | _ => simp [Value.encoding, Write.canonical] at same
  | .text _, right, _, _, _, _, same => by
      cases right with
      | text => simpa [Value.encoding, Write.canonical, Value.form] using same
      | _ => simp [Value.encoding, Write.canonical] at same
  | .list lefts, right, left_every, right_every, _, _, same => by
      cases right with
      | list rights =>
          simp only [Value.encoding, Encoding.canonical_cons, Write.canonical, List.cons_append,
            List.cons.injEq, Write.length.injEq, true_and] at same
          obtain ⟨items, rests⟩ :=
            Value.formItems_eq_of_encoding hashed left_every right_every same.1 same.2
          exact ⟨congrArg Value.list items, rests⟩
      | _ => simp [Value.encoding, Write.canonical] at same
  | .map lefts, right, left_every, right_every, _, _, same => by
      cases right with
      | map rights =>
          simp only [Value.encoding, Encoding.canonical_cons, Write.canonical, List.cons_append,
            List.cons.injEq, Write.length.injEq, true_and] at same
          obtain ⟨fields, rests⟩ :=
            Value.formFields_eq_of_encoding hashed left_every right_every same.1 same.2
          exact ⟨congrArg Value.map fields, rests⟩
      | _ => simp [Value.encoding, Write.canonical] at same
  | .element left, right, left_every, right_every, _, _, same => by
      cases right with
      | element right =>
          simp only [Value.encoding, Element.encoding, Encoding.canonical_cons,
            Encoding.canonical_nil, Write.canonical, List.cons_append, List.nil_append,
            List.cons.injEq, Write.hash.injEq, true_and] at same
          exact ⟨congrArg Value.element
            (Element.form_eq_of_contentHash hashed left_every right_every same.1), same.2⟩
      | _ => simp [Value.encoding, Write.canonical] at same

theorem Value.formItems_eq_of_encoding (hashed : Element.Hashed node) :
    ∀ {left right : List Value}, Value.EveryItem number node left →
      Value.EveryItem number node right → left.length = right.length →
      ∀ {rest other : Encoding},
        (Value.itemsEncoding left).canonical ++ rest =
            (Value.itemsEncoding right).canonical ++ other →
          Value.formItems .content left = Value.formItems .content right ∧ rest = other
  | [], right, _, _, lengths, _, _, same => by
      obtain rfl := List.eq_nil_of_length_eq_zero lengths.symm
      exact ⟨rfl, same⟩
  | left :: lefts, rights, left_every, right_every, lengths, _, _, same => by
      cases rights with
      | nil => simp at lengths
      | cons right rights =>
          simp only [Value.itemsEncoding, Encoding.canonical_append, List.append_assoc] at same
          obtain ⟨first, same⟩ :=
            Value.form_eq_of_encoding hashed left_every.1 right_every.1 same
          obtain ⟨later, rests⟩ := Value.formItems_eq_of_encoding hashed left_every.2 right_every.2
            (Nat.succ.inj lengths) same
          exact ⟨by rw [Value.formItems, Value.formItems, first, later], rests⟩

theorem Value.formFields_eq_of_encoding (hashed : Element.Hashed node) :
    ∀ {left right : List (String × Value)}, Value.EveryField number node left →
      Value.EveryField number node right → left.length = right.length →
      ∀ {rest other : Encoding},
        (Value.fieldsEncoding left).canonical ++ rest =
            (Value.fieldsEncoding right).canonical ++ other →
          Value.formFields .content left = Value.formFields .content right ∧ rest = other
  | [], right, _, _, lengths, _, _, same => by
      obtain rfl := List.eq_nil_of_length_eq_zero lengths.symm
      exact ⟨rfl, same⟩
  | (key, left) :: lefts, rights, left_every, right_every, lengths, _, _, same => by
      cases rights with
      | nil => simp at lengths
      | cons field rights =>
          obtain ⟨other_key, right⟩ := field
          simp only [Value.fieldsEncoding, Encoding.canonical_cons, Encoding.canonical_append,
            Write.canonical, List.cons_append, List.append_assoc, List.cons.injEq,
            Write.text.injEq] at same
          obtain ⟨first, rest_eq⟩ :=
            Value.form_eq_of_encoding hashed left_every.1 right_every.1 same.2
          obtain ⟨later, rests⟩ := Value.formFields_eq_of_encoding hashed left_every.2
            right_every.2 (Nat.succ.inj lengths) rest_eq
          exact ⟨by rw [Value.formFields, Value.formFields, same.1, first, later], rests⟩

/-- Nodes with one hash have the same content. -/
theorem Element.form_eq_of_contentHash (hashed : Element.Hashed node) :
    ∀ {left right : Element}, left.Every number node → right.Every number node →
      left.contentHash = right.contentHash → left.form .content = right.form .content
  | .node id kind props children hash, .node otherId otherKind otherProps otherChildren otherHash,
      left_every, right_every, same => by
      -- one hash means one content, which is encoded part by part
      rw [hashed.sealed _ left_every.1, hashed.sealed _ right_every.1] at same
      have contents := (Encoding.bytes_eq_iff (hashed.fits _ left_every.1)
        (hashed.fits _ right_every.1)).mp (hashed.apart _ _ left_every.1 right_every.1 same)
      obtain ⟨kinds, lengths, behind⟩ :=
        Element.contentEncoding_parts (congrArg (· ++ ([] : Encoding)) contents)
      obtain ⟨props_eq, behind⟩ :=
        Value.formFields_eq_of_encoding hashed left_every.2.1 right_every.2.1 lengths behind
      have children_eq := Element.formChildren_eq_of_contentHash hashed left_every.2.2
        right_every.2.2 (Element.contentHashes_eq behind).1
      exact Element.node.injEq .. ▸ ⟨rfl, kinds, props_eq, children_eq, rfl⟩

theorem Element.formChildren_eq_of_contentHash (hashed : Element.Hashed node) :
    ∀ {left right : List Element}, Element.EveryChild number node left →
      Element.EveryChild number node right →
      left.map Element.contentHash = right.map Element.contentHash →
      Element.formChildren .content left = Element.formChildren .content right
  | [], right, _, _, same => by
      obtain rfl := List.map_eq_nil_iff.mp same.symm
      rfl
  | left :: lefts, rights, left_every, right_every, same => by
      cases rights with
      | nil => simp at same
      | cons right rights =>
          rw [List.map_cons, List.map_cons, List.cons.injEq] at same
          rw [Element.formChildren, Element.formChildren,
            Element.form_eq_of_contentHash hashed left_every.1 right_every.1 same.1,
            Element.formChildren_eq_of_contentHash hashed left_every.2 right_every.2 same.2]

end

mutual

theorem Value.encoding_eq_of_form (sealed : Element.Sealed node) :
    ∀ {left right : Value}, left.Every number node → right.Every number node →
      left.form .content = right.form .content → left.encoding.canonical = right.encoding.canonical
  | .null, right, _, _, forms => by cases right <;> simp_all [Value.form]
  | .bool _, right, _, _, forms => by cases right <;> simp_all [Value.form]
  | .int _, right, _, _, forms => by cases right <;> simp_all [Value.form]
  | .text _, right, _, _, forms => by cases right <;> simp_all [Value.form]
  | .float _, right, _, _, forms => by
      cases right with
      | float => exact congrArg (fun number => [Write.tag 3, Write.float number]) (Value.float.inj forms)
      | _ => simp [Value.form] at forms
  | .list lefts, right, left_every, right_every, forms => by
      cases right with
      | list rights =>
          obtain ⟨lengths, items⟩ := Value.itemsEncoding_eq_of_form sealed left_every right_every
            (Value.list.inj forms)
          simp only [Value.encoding, Encoding.canonical_cons, lengths, items]
      | _ => simp [Value.form] at forms
  | .map lefts, right, left_every, right_every, forms => by
      cases right with
      | map rights =>
          obtain ⟨lengths, fields⟩ := Value.fieldsEncoding_eq_of_form sealed left_every right_every
            (Value.map.inj forms)
          simp only [Value.encoding, Encoding.canonical_cons, lengths, fields]
      | _ => simp [Value.form] at forms
  | .element left, right, left_every, right_every, forms => by
      cases right with
      | element right =>
          rw [Value.encoding, Value.encoding, Element.encoding, Element.encoding,
            Element.contentHash_eq_of_form sealed left_every right_every (Value.element.inj forms)]
      | _ => simp [Value.form] at forms

theorem Value.itemsEncoding_eq_of_form (sealed : Element.Sealed node) :
    ∀ {left right : List Value}, Value.EveryItem number node left →
      Value.EveryItem number node right →
      Value.formItems .content left = Value.formItems .content right →
      left.length = right.length ∧
        (Value.itemsEncoding left).canonical = (Value.itemsEncoding right).canonical
  | [], right, _, _, forms => by cases right <;> simp_all [Value.formItems]
  | left :: lefts, rights, left_every, right_every, forms => by
      cases rights with
      | nil => simp [Value.formItems] at forms
      | cons right rights =>
          rw [Value.formItems, Value.formItems, List.cons.injEq] at forms
          obtain ⟨lengths, later⟩ :=
            Value.itemsEncoding_eq_of_form sealed left_every.2 right_every.2 forms.2
          refine ⟨congrArg (· + 1) lengths, ?_⟩
          rw [Value.itemsEncoding, Value.itemsEncoding, Encoding.canonical_append,
            Encoding.canonical_append, later,
            Value.encoding_eq_of_form sealed left_every.1 right_every.1 forms.1]

theorem Value.fieldsEncoding_eq_of_form (sealed : Element.Sealed node) :
    ∀ {left right : List (String × Value)}, Value.EveryField number node left →
      Value.EveryField number node right →
      Value.formFields .content left = Value.formFields .content right →
      left.length = right.length ∧
        (Value.fieldsEncoding left).canonical = (Value.fieldsEncoding right).canonical
  | [], right, _, _, forms => by cases right <;> simp_all [Value.formFields]
  | (key, left) :: lefts, rights, left_every, right_every, forms => by
      cases rights with
      | nil => simp [Value.formFields] at forms
      | cons field rights =>
          obtain ⟨other_key, right⟩ := field
          rw [Value.formFields, Value.formFields, List.cons.injEq, Prod.mk.injEq] at forms
          obtain ⟨lengths, later⟩ :=
            Value.fieldsEncoding_eq_of_form sealed left_every.2 right_every.2 forms.2
          refine ⟨congrArg (· + 1) lengths, ?_⟩
          rw [Value.fieldsEncoding, Value.fieldsEncoding, Encoding.canonical_cons,
            Encoding.canonical_cons, Encoding.canonical_append, Encoding.canonical_append, later,
            forms.1.1, Value.encoding_eq_of_form sealed left_every.1 right_every.1 forms.1.2]

theorem Element.contentHash_eq_of_form (sealed : Element.Sealed node) :
    ∀ {left right : Element}, left.Every number node → right.Every number node →
      left.form .content = right.form .content → left.contentHash = right.contentHash
  | .node id kind props children hash, .node otherId otherKind otherProps otherChildren otherHash,
      left_every, right_every, forms => by
      rw [sealed _ left_every.1, sealed _ right_every.1]
      rw [Element.form, Element.form, Element.node.injEq] at forms
      obtain ⟨-, rfl, props_eq, children_eq, -⟩ := forms
      obtain ⟨lengths, fields⟩ :=
        Value.fieldsEncoding_eq_of_form sealed left_every.2.1 right_every.2.1 props_eq
      have hashes := Element.contentHashes_eq_of_form sealed left_every.2.2 right_every.2.2
        children_eq
      exact congrArg digest
        (Encoding.bytes_eq_of_canonical (Element.contentEncoding_eq kind lengths fields hashes))

theorem Element.contentHashes_eq_of_form (sealed : Element.Sealed node) :
    ∀ {left right : List Element}, Element.EveryChild number node left →
      Element.EveryChild number node right →
      Element.formChildren .content left = Element.formChildren .content right →
      left.map Element.contentHash = right.map Element.contentHash
  | [], right, _, _, forms => by cases right <;> simp_all [Element.formChildren]
  | left :: lefts, rights, left_every, right_every, forms => by
      cases rights with
      | nil => simp [Element.formChildren] at forms
      | cons right rights =>
          rw [Element.formChildren, Element.formChildren, List.cons.injEq] at forms
          rw [List.map_cons, List.map_cons,
            Element.contentHash_eq_of_form sealed left_every.1 right_every.1 forms.1,
            Element.contentHashes_eq_of_form sealed left_every.2 right_every.2 forms.2]

end

end Contents

end Phrasing
