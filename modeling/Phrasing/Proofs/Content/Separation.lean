import Phrasing.Content.Xxh3
import Phrasing.Proofs.Content.Decoding

/-!
# Encodings that separate contents

Two values, or props, kinds, nodes, lists of nodes, values that may be missing or inputs of
callbacks, have the same bytes exactly when they have the same content, and the bytes of one never
begin with those of another one.  So a fingerprint takes in all of the inputs and nothing besides.
-/

namespace Phrasing

/-- Among what is admitted, an encoding determines a content and is determined by it, and it ends
where the encoding of another content ends that begins like it. -/
def Decodes {α β : Type} (encode : α → Encoding) (content : α → β) (admitted : α → Prop) : Prop :=
  ∀ ⦃left right : α⦄, admitted left → admitted right →
    (content left = content right → (encode left).canonical = (encode right).canonical) ∧
      ∀ ⦃rest other : Encoding⦄,
        (encode left).canonical ++ rest = (encode right).canonical ++ other →
          content left = content right ∧ rest = other

/-- Among what is admitted, bytes agree exactly when contents do, and no bytes properly begin
others.  Lengths are supposed to fit into words. -/
def Separates {α β : Type} (encode : α → Encoding) (content : α → β) (admitted : α → Prop) :
    Prop :=
  ∀ left right : α, admitted left → admitted right → (encode left).Fits → (encode right).Fits →
    ((encode left).bytes = (encode right).bytes ↔ content left = content right) ∧
      ((encode left).bytes <+: (encode right).bytes → (encode left).bytes = (encode right).bytes)

theorem Decodes.separates {α β : Type} {encode : α → Encoding} {content : α → β}
    {admitted : α → Prop} (decodes : Decodes encode content admitted) :
    Separates encode content admitted := by
  intro left right left_admitted right_admitted left_fits right_fits
  obtain ⟨encoded, decoded⟩ := decodes left_admitted right_admitted
  have bytes_iff := Encoding.bytes_eq_iff left_fits right_fits
  refine ⟨⟨fun same => ?_, fun same => bytes_iff.mpr (encoded same)⟩, fun ahead => ?_⟩
  · exact (decoded (congrArg (· ++ ([] : Encoding)) (bytes_iff.mp same))).1
  · obtain ⟨late, same⟩ := Encoding.canonical_prefix_of_bytes left_fits right_fits ahead
    have contents := (decoded (same.trans (List.append_nil _).symm)).1
    exact bytes_iff.mpr (encoded contents)

namespace Decodes

variable {α β γ δ : Type} {encode : α → Encoding} {content : α → β} {admitted : α → Prop}

theorem comap (decodes : Decodes encode content admitted) (part : γ → α) :
    Decodes (fun data => encode (part data)) (fun data => content (part data))
      fun data => admitted (part data) :=
  fun _ _ left_admitted right_admitted => decodes left_admitted right_admitted

theorem recast (decodes : Decodes encode content admitted) {other_content : α → δ}
    {other_admitted : α → Prop} (stricter : ∀ data, other_admitted data → admitted data)
    (same : ∀ left right, content left = content right ↔ other_content left = other_content right) :
    Decodes encode other_content other_admitted := by
  intro left right left_admitted right_admitted
  obtain ⟨encoded, decoded⟩ := decodes (stricter left left_admitted) (stricter right right_admitted)
  exact ⟨fun contents => encoded ((same left right).mpr contents), fun rest other alike =>
    (decoded alike).imp_left (same left right).mp⟩

theorem tagged (decodes : Decodes encode content admitted) (code : UInt8) :
    Decodes (fun data => .tag code :: encode data) content admitted := by
  intro left right left_admitted right_admitted
  obtain ⟨encoded, decoded⟩ := decodes left_admitted right_admitted
  exact ⟨fun contents => congrArg (Write.tag code :: ·) (encoded contents),
    fun rest other same => decoded (List.cons.inj same).2⟩

theorem append (decodes : Decodes encode content admitted) {encode_other : α → Encoding}
    {content_other : α → δ} {admitted_other : α → Prop}
    (decodes_other : Decodes encode_other content_other admitted_other) :
    Decodes (fun data => encode data ++ encode_other data)
      (fun data => (content data, content_other data))
      fun data => admitted data ∧ admitted_other data := by
  intro left right left_admitted right_admitted
  obtain ⟨encoded, decoded⟩ := decodes left_admitted.1 right_admitted.1
  obtain ⟨encoded_other, decoded_other⟩ := decodes_other left_admitted.2 right_admitted.2
  constructor
  · intro contents
    obtain ⟨first, second⟩ := Prod.mk.inj contents
    rw [Encoding.canonical_append, Encoding.canonical_append, encoded first, encoded_other second]
  · intro rest other same
    simp only [Encoding.canonical_append, List.append_assoc] at same
    obtain ⟨first, behind⟩ := decoded same
    obtain ⟨second, rests⟩ := decoded_other behind
    exact ⟨Prod.ext first second, rests⟩

end Decodes

section Contents

variable {number : Float → Prop} {node : Element → Prop} [Digest]

theorem Value.decodes (hashed : Element.Hashed node) :
    Decodes Value.encoding (Value.form .content) (Value.Every number node) :=
  fun _ _ left_every right_every =>
    ⟨Value.encoding_eq_of_form hashed.sealed left_every right_every,
      fun _ _ => Value.form_eq_of_encoding hashed left_every right_every⟩

theorem Props.decodes (hashed : Element.Hashed node) :
    Decodes Props.encoding (Value.formFields .content) (Value.EveryField number node) := by
  intro left right left_every right_every
  constructor
  · intro forms
    obtain ⟨lengths, fields⟩ :=
      Value.fieldsEncoding_eq_of_form hashed.sealed left_every right_every forms
    simp only [Props.encoding, Encoding.canonical_cons, lengths, fields]
  · intro rest other same
    simp only [Props.encoding, Encoding.canonical_cons, Write.canonical, List.cons_append,
      List.cons.injEq, Write.length.injEq] at same
    exact Value.formFields_eq_of_encoding hashed left_every right_every same.1 same.2

omit [Digest] in
theorem Kind.decodes : Decodes Kind.encoding id fun _ => True := by
  intro left right _ _
  refine ⟨fun same => congrArg (fun kind : Kind => kind.encoding.canonical) same, ?_⟩
  intro rest other same
  rw [canonical_encoding, canonical_encoding] at same
  exact Kind.eq_of_encoding_append same

theorem Element.decodes (hashed : Element.Hashed node) :
    Decodes Element.encoding (Element.form .content) (Element.Every number node) := by
  intro left right left_every right_every
  constructor
  · intro forms
    rw [encoding, encoding, contentHash_eq_of_form hashed.sealed left_every right_every forms]
  · intro rest other same
    obtain ⟨hashes, rests⟩ := List.cons.inj same
    exact ⟨form_eq_of_contentHash hashed left_every right_every (Write.hash.inj hashes), rests⟩

theorem Element.decodes_list (hashed : Element.Hashed node) :
    Decodes Element.listEncoding (Element.formChildren .content)
      (Element.EveryChild number node) := by
  intro left right left_every right_every
  constructor
  · intro forms
    exact listEncoding_eq (contentHashes_eq_of_form hashed.sealed left_every right_every forms)
  · intro rest other same
    obtain ⟨hashes, rests⟩ := contentHashes_eq same
    exact ⟨formChildren_eq_of_contentHash hashed left_every right_every hashes, rests⟩

/-- The encoding of data that may be missing, from the encoding of the data. -/
def Encoding.ofOption {α : Type} (encode : α → Encoding) : Option α → Encoding
  | none => [.tag 0x20]
  | some data => .tag 0x21 :: encode data

omit [Digest] in
theorem Value.optionEncoding_eq : Value.optionEncoding = Encoding.ofOption Value.encoding := by
  funext data
  cases data
  all_goals rfl

omit [Digest] in
theorem Decodes.option {α β : Type} {encode : α → Encoding} {content : α → β}
    {admitted : α → Prop} (decodes : Decodes encode content admitted) :
    Decodes (Encoding.ofOption encode) (Option.map content)
      fun data => ∀ present, data = some present → admitted present := by
  intro left right left_admitted right_admitted
  match left, right with
  | none, none => exact ⟨fun _ => rfl, fun _ _ same => ⟨rfl, (List.cons.inj same).2⟩⟩
  | none, some _ => exact ⟨nofun, fun _ _ same => by simp [Encoding.ofOption, Write.canonical] at same⟩
  | some _, none => exact ⟨nofun, fun _ _ same => by simp [Encoding.ofOption, Write.canonical] at same⟩
  | some left, some right =>
      obtain ⟨encoded, decoded⟩ := decodes (left_admitted left rfl) (right_admitted right rfl)
      constructor
      · intro same
        exact congrArg (Write.tag 0x21 :: ·) (encoded (Option.some.inj same))
      · intro rest other same
        obtain ⟨contents, rests⟩ := decoded (List.cons.inj same).2
        exact ⟨congrArg some contents, rests⟩

omit [Digest] in
/-- What separates data separates them also where they may be missing. -/
theorem Separates.option {α β : Type} {encode : α → Encoding} {content : α → β}
    {admitted : α → Prop} (separates : Separates encode content admitted) :
    Separates (Encoding.ofOption encode) (Option.map content)
      fun data => ∀ present, data = some present → admitted present := by
  intro left right left_admitted right_admitted left_fits right_fits
  match left, right with
  | none, none => exact ⟨⟨fun _ => rfl, fun _ => rfl⟩, fun _ => rfl⟩
  | none, some _ => simp [Encoding.ofOption, Write.bytes]
  | some _, none => simp [Encoding.ofOption, Write.bytes]
  | some left, some right =>
      obtain ⟨same, ahead⟩ := separates left right (left_admitted left rfl)
        (right_admitted right rfl) (fun write member => left_fits write (.tail _ member))
        fun write member => right_fits write (.tail _ member)
      simpa [Encoding.ofOption, Write.bytes] using ⟨same, ahead⟩

theorem Value.decodes_option (hashed : Element.Hashed node) :
    Decodes Value.optionEncoding (Value.formOption .content) (Structured.Every number node) :=
  Value.optionEncoding_eq ▸ (Value.decodes hashed).option

/-- A content is the kind, the props and the children. -/
theorem Element.decodes_content (hashed : Element.Hashed node) :
    Decodes
      (fun inputs : ObserveInputs => contentEncoding inputs.kind inputs.props inputs.children)
      (Structured.form .content) (Structured.Every number node) :=
  ((Kind.decodes.comap ObserveInputs.kind).append
    ((Props.decodes hashed).comap ObserveInputs.props)).append
      ((Element.decodes_list hashed).comap ObserveInputs.children)
    |>.recast (fun _ every => ⟨⟨trivial, every.1⟩, every.2⟩)
      fun left right => by simp [Structured.form, and_assoc]

theorem ObserveInputs.decodes (hashed : Element.Hashed node) :
    Decodes ObserveInputs.encoding (Structured.form .content) (Structured.Every number node) :=
  (Element.decodes_content hashed).tagged 0x6f

theorem DescribeInputs.decodes (hashed : Element.Hashed node) :
    Decodes DescribeInputs.encoding (Structured.form .content) (Structured.Every number node) :=
  (((Element.decodes_content hashed).comap fun inputs : DescribeInputs =>
      { kind := inputs.kind, props := inputs.props, children := inputs.children }).append
    ((Value.decodes_option hashed).comap DescribeInputs.data)).tagged 0x64
    |>.recast (fun _ every => ⟨every.2, every.1⟩)
      fun left right => by simp [Structured.form, and_assoc]

/-- Encodings separate contents exactly, among nodes on which hashes do not collide. -/
theorem encodings_separate (hashed : Element.Hashed node) :
    Separates Value.encoding (Value.form .content) (Value.Every number node) ∧
      Separates Props.encoding (Value.formFields .content) (Value.EveryField number node) ∧
      Separates Kind.encoding id (fun _ => True) ∧
      Separates Element.encoding (Element.form .content) (Element.Every number node) ∧
      Separates Element.listEncoding (Element.formChildren .content)
        (Element.EveryChild number node) ∧
      (∀ {α β : Type} (encode : α → Encoding) (content : α → β) (admitted : α → Prop),
        Separates encode content admitted →
          Separates (Encoding.ofOption encode) (Option.map content)
            fun data => ∀ present, data = some present → admitted present) ∧
      Separates Value.optionEncoding (Value.formOption .content) (Structured.Every number node) ∧
      Separates ObserveInputs.encoding (Structured.form .content) (Structured.Every number node) ∧
      Separates DescribeInputs.encoding (Structured.form .content)
        (Structured.Every number node) :=
  ⟨(Value.decodes hashed).separates, (Props.decodes hashed).separates, Kind.decodes.separates,
    (Element.decodes hashed).separates, (Element.decodes_list hashed).separates,
    fun _ _ _ separates => separates.option, (Value.decodes_option hashed).separates,
    (ObserveInputs.decodes hashed).separates, (DescribeInputs.decodes hashed).separates⟩

end Contents

open Xxh3

private def yes : Element :=
  .literal 1 "yes"

private def no : Element :=
  .literal 2 "no"

/-- A number with a reply. -/
private def replying (number : Float) (reply : Element) : Value :=
  .list [.float number, .element reply]

private theorem hashed_replies :
    Element.Hashed fun element => element = yes ∨ element = no where
  sealed element reply := by
    rcases reply with rfl | rfl
    all_goals exact Element.contentHash_make ..
  fits element reply := by
    rcases reply with rfl | rfl
    all_goals decide
  apart left right left_reply right_reply same := by
    have distinct : yes.content.hash ≠ no.content.hash := by decide +kernel
    rcases left_reply with rfl | rfl
    · rcases right_reply with rfl | rfl
      · rfl
      · exact absurd same distinct
    · rcases right_reply with rfl | rfl
      · exact absurd same.symm distinct
      · rfl

/-- The sign of zero does not show in bytes, and a different reply does. -/
theorem encodings_separate_replies :
    (replying (.ofBits 0x8000000000000000) yes).encoding.bytes =
        (replying (.ofBits 0) yes).encoding.bytes ∧
      ¬ (replying (.ofBits 0) yes).encoding.bytes <+: (replying (.ofBits 0) no).encoding.bytes := by
  obtain ⟨separates, -⟩ := encodings_separate hashed_replies
  have every (number : Float) (reply : Element) (known : reply = yes ∨ reply = no) :
      (replying number reply).Every (fun _ => True) fun element => element = yes ∨ element = no := by
    rcases known with rfl | rfl
    · exact ⟨trivial, ⟨.inl rfl, ⟨trivial, trivial⟩, trivial⟩, trivial⟩
    · exact ⟨trivial, ⟨.inr rfl, ⟨trivial, trivial⟩, trivial⟩, trivial⟩
  have fits (number : Float) (reply : Element) : (replying number reply).encoding.Fits := by
    simp [Encoding.Fits, replying, Value.encoding, Value.itemsEncoding, Element.encoding, Write.Fits,
      UInt64.size]
  constructor
  · exact (separates _ _ (every _ _ (.inl rfl)) (every _ _ (.inl rfl)) (fits _ _) (fits _ _)).1.mpr
      rfl
  · intro ahead
    obtain ⟨same_iff, begins⟩ :=
      separates _ _ (every _ yes (.inl rfl)) (every _ no (.inr rfl)) (fits _ _) (fits _ _)
    have forms := same_iff.mp (begins ahead)
    simp [replying, yes, no, Value.form, Value.formItems, Element.literal, Element.make,
      Element.form, Value.formFields] at forms

end Phrasing
