import Mathlib.Data.String.Basic
import Phrasing.Proofs.Grammar.Nodes

/-!
# What a sequence gathers

A sequence gathers fields from the results of its children.  Each child takes a slot, which says what
the child offers: its result under a key, the fields of its result, or nothing.  Offers are inserted
one after another, so each name stands for what was offered under it last.
-/

namespace Phrasing

namespace Fields

variable {α : Type} {fields others added : List (String × α)}

/-- The names of the fields ascend. -/
def Ordered (fields : List (String × α)) : Prop :=
  fields.Pairwise fun field other => field.1 < other.1

theorem ordered_nil : Ordered ([] : List (String × α)) :=
  .nil

theorem insertAll_append (fields front back : List (String × α)) :
    insertAll fields (front ++ back) = insertAll (insertAll fields front) back :=
  List.foldl_append

theorem ofList_append (front back : List (String × α)) :
    ofList (front ++ back) = insertAll (ofList front) back :=
  insertAll_append [] front back

theorem fst_of_mem_insert {name : String} {item : α} {field : String × α}
    (member : field ∈ insert name item fields) : field.1 = name ∨ field ∈ fields := by
  induction fields with
  | nil =>
      obtain rfl := List.mem_singleton.mp member
      exact .inl rfl
  | cons present rest induction =>
      rw [insert] at member
      split at member
      · exact (List.mem_cons.mp member).imp (congrArg Prod.fst) id
      · split at member
        · exact (List.mem_cons.mp member).imp (congrArg Prod.fst) (List.mem_cons_of_mem present)
        · rcases List.mem_cons.mp member with rfl | later
          · exact .inr List.mem_cons_self
          · exact (induction later).imp_right (List.mem_cons_of_mem present)

theorem ordered_insert (ordered : Ordered fields) (name : String) (item : α) :
    Ordered (insert name item fields) := by
  induction fields with
  | nil => exact List.pairwise_singleton _ _
  | cons present rest induction =>
      obtain ⟨above, ordered_rest⟩ := List.pairwise_cons.mp ordered
      rw [insert]
      split
      · next before =>
          refine List.pairwise_cons.mpr ⟨fun field member => ?_, ordered⟩
          rcases List.mem_cons.mp member with rfl | later
          · exact before
          · exact before.trans (above field later)
      · next not_before =>
          split
          · next same => exact List.pairwise_cons.mpr ⟨same ▸ above, ordered_rest⟩
          · next distinct =>
              have after : present.1 < name := lt_of_le_of_ne (not_lt.mp not_before) (Ne.symm distinct)
              refine List.pairwise_cons.mpr ⟨fun field member => ?_, induction ordered_rest⟩
              rcases fst_of_mem_insert member with same | later
              · exact after.trans_eq same.symm
              · exact above field later

theorem ordered_insertAll (ordered : Ordered fields) (added : List (String × α)) :
    Ordered (insertAll fields added) := by
  induction added generalizing fields with
  | nil => exact ordered
  | cons field rest induction => exact induction (ordered_insert ordered field.1 field.2)

theorem ordered_ofList (added : List (String × α)) : Ordered (ofList added) :=
  ordered_insertAll ordered_nil added

theorem lookup_eq_none {name : String} (above : ∀ field ∈ fields, name < field.1) :
    fields.lookup name = none :=
  List.lookup_eq_none_iff.mpr fun field member => bne_iff_ne.mpr (above field member).ne

/-- Each name stands for what was added under it last, or else for what it stood for before. -/
theorem lookup_insertAll (fields added : List (String × α)) (name : String) :
    (insertAll fields added).lookup name = (added.reverse.lookup name).or (fields.lookup name) := by
  induction added generalizing fields with
  | nil => rfl
  | cons field rest induction =>
      have first_eq : insertAll fields (field :: rest) =
          insertAll (insert field.1 field.2 fields) rest := rfl
      rw [first_eq, induction, List.reverse_cons, List.lookup_append, Option.or_assoc, lookup_insert,
        lookup_cons field.1 name field.2 []]
      congr 1
      split
      · rfl
      · rfl

/-- Each name stands for what is listed under it last. -/
theorem lookup_ofList (added : List (String × α)) (name : String) :
    (ofList added).lookup name = added.reverse.lookup name := by
  rw [ofList, lookup_insertAll, List.lookup_nil, Option.or_none]

theorem lookup_reverse (ordered : Ordered fields) (name : String) :
    fields.reverse.lookup name = fields.lookup name := by
  induction fields with
  | nil => rfl
  | cons field rest induction =>
      obtain ⟨above, ordered_rest⟩ := List.pairwise_cons.mp ordered
      rw [List.reverse_cons, List.lookup_append, induction ordered_rest,
        lookup_cons field.1 name field.2 [], lookup_cons field.1 name field.2 rest]
      by_cases same : name = field.1
      · rw [if_pos same, if_pos same, lookup_eq_none fun other member => same ▸ above other member,
          Option.none_or]
      · rw [if_neg same, if_neg same, List.lookup_nil, Option.or_none]

theorem lookup_self (field : String × α) (rest : List (String × α)) :
    (field :: rest).lookup field.1 = some field.2 := by
  rw [lookup_cons field.1 field.1 field.2 rest, if_pos rfl]

/-- Of two lists of fields in order, neither begins before the other if they have the same names. -/
theorem not_lt_of_lookup_eq {field other : String × α}
    (ordered : Ordered (other :: others)) (same : (other :: others).lookup field.1 ≠ none) :
    ¬field.1 < other.1 := by
  intro before
  apply same
  apply lookup_eq_none
  intro later member
  rcases List.mem_cons.mp member with rfl | member
  · exact before
  · exact before.trans ((List.pairwise_cons.mp ordered).1 later member)

/-- Fields in order are determined by what their names stand for. -/
theorem eq_of_lookup_eq (ordered : Ordered fields) (ordered_others : Ordered others)
    (same : ∀ name, fields.lookup name = others.lookup name) : fields = others := by
  induction fields generalizing others with
  | nil =>
      cases others with
      | nil => rfl
      | cons other others => simpa [lookup_self] using same other.1
  | cons field rest induction =>
      cases others with
      | nil => simpa [lookup_self] using same field.1
      | cons other others =>
          have name_eq : field.1 = other.1 := by
            apply le_antisymm
            · apply not_lt.mp
              apply not_lt_of_lookup_eq ordered
              simp [same, lookup_self]
            · apply not_lt.mp
              apply not_lt_of_lookup_eq ordered_others
              simp [← same, lookup_self]
          have item_eq : field.2 = other.2 := by
            have here := same field.1
            rw [lookup_self, name_eq, lookup_self] at here
            exact Option.some.inj here
          obtain ⟨above, ordered_rest⟩ := List.pairwise_cons.mp ordered
          obtain ⟨above_others, ordered_others⟩ := List.pairwise_cons.mp ordered_others
          have rest_eq : rest = others := by
            apply induction ordered_rest ordered_others
            intro name
            by_cases first : name = field.1
            · rw [first, lookup_eq_none above, name_eq, lookup_eq_none above_others]
            · have here := same name
              rwa [lookup_cons field.1 name field.2 rest, lookup_cons other.1 name other.2 others,
                if_neg first, if_neg (name_eq ▸ first)] at here
          rw [Prod.ext name_eq item_eq, rest_eq]

/-- Fields that were put in order among themselves are added as they would be one by one. -/
theorem insertAll_ofList (ordered : Ordered fields) (added : List (String × α)) :
    insertAll fields (ofList added) = insertAll fields added := by
  refine eq_of_lookup_eq (ordered_insertAll ordered _) (ordered_insertAll ordered _) fun name => ?_
  rw [lookup_insertAll, lookup_insertAll, lookup_reverse (ordered_ofList added), lookup_ofList]

end Fields

namespace Traversal.Slot

/-- What a child with a slot offers. -/
def offers (slot : Slot) (result : Value) : Props :=
  match slot.key?, slot.merges, result with
  | some key, _, result => [(key, result)]
  | none, true, .map added => added
  | none, _, _ => []

theorem put_eq_insertAll (slot : Slot) (result : Value) (fields : Props) :
    slot.put result fields = Fields.insertAll fields (slot.offers result) := by
  obtain ⟨key?, merges⟩ := slot
  cases key? with
  | some key => rfl
  | none => cases merges <;> cases result <;> rfl

theorem offers_eq_nil {slot : Slot} (unkeyed : slot.isKeyed = false) (result : Value) :
    slot.offers result = [] := by
  obtain ⟨key?, merges⟩ := slot
  obtain ⟨no_key, rfl⟩ : key?.isSome = false ∧ merges = false := Bool.or_eq_false_iff.mp unkeyed
  obtain rfl : key? = none := by simpa using no_key
  cases result <;> rfl

end Traversal.Slot

open Traversal

namespace Element

/-- The key under which a sequence puts the result of an element. -/
def key? (element : Element) : Option String :=
  match element.prop? "id" with
  | some (.text key) => some key
  | _ => none

/-- Whether a sequence adds the fields of the result of an element. -/
def merges (element : Element) : Bool :=
  match element.prop? "merge" with
  | some (.bool value) => value
  | _ => false

/-- The slot that an element takes in a sequence. -/
def slot (element : Element) : Slot :=
  { key? := element.key?, merges := element.merges }

/-- The props that give an element its slot are of their sorts. -/
structure Placed (element : Element) : Prop where
  /-- The key is a text. -/
  key : Value.IsKey (element.prop? "id")
  /-- Merging is a switch. -/
  merge : Value.IsSwitch (element.prop? "merge")

theorem switch_merge {element : Element} (sort : Value.IsSwitch (element.prop? "merge")) :
    switch .sequence element "merge" = .ok element.merges := by
  rw [switch, merges]
  generalize element.prop? "merge" = prop at sort ⊢
  cases prop with
  | none => rfl
  | some value =>
      cases value with
      | null => rfl
      | bool value => rfl
      | _ => exact sort.elim

theorem Placed.ofElement_eq {element : Element} (placed : element.Placed) :
    Slot.ofElement element = .ok element.slot := by
  have sort := placed.key
  rw [Slot.ofElement, switch_merge placed.merge, slot, key?]
  generalize element.prop? "id" = prop at sort ⊢
  cases prop with
  | none => rfl
  | some value =>
      cases value with
      | null => rfl
      | text key => rfl
      | _ => exact sort.elim

end Element

/-- Children with the slots they take in a sequence. -/
def placed (children : List Expansion) : List (Expansion × Slot) :=
  children.map fun child => (child, child.element.slot)

/-- What children offer, each with its result. -/
def offered (children : List Expansion) (results : List Value) : Props :=
  (children.zip results).flatMap fun entry => entry.1.element.slot.offers entry.2

/-- The result of a sequence: the one that is set, the fields that the children offer, or nothing
where no child is to offer any. -/
def Expansion.gathered (node : Expansion) (results : List Value) : Value :=
  match node.element.prop? "value" with
  | some value => value
  | none =>
      if node.children.any fun child => child.element.slot.isKeyed then
        .map (Fields.ofList (offered node.children results))
      else .null

theorem slots_eq {children : List Expansion} (each : ∀ child ∈ children, child.element.Placed) :
    children.mapM (fun child => Slot.ofElement child.element) =
      .ok (children.map fun child => child.element.slot) := by
  induction children with
  | nil => rfl
  | cons child rest induction =>
      rw [List.mapM_cons, (each child List.mem_cons_self).ofElement_eq,
        induction fun other member => each other (List.mem_cons_of_mem child member)]
      rfl

theorem any_placed (children : List Expansion) :
    ((placed children).any fun entry => entry.2.isKeyed) =
      children.any fun child => child.element.slot.isKeyed := by
  simp [placed, Function.comp_def]

theorem Expansion.gathered_eq_sequenceResult (node : Expansion) (results : List Value) :
    node.gathered results =
      sequenceResult (placed node.children) (node.element.prop? "value")
        (Fields.ofList (offered node.children results)) := by
  rw [gathered, ← any_placed]
  rfl

/-- A sequence whose children take slots is read through them. -/
theorem Engine.traverseAt_sequence {σ : Type} (engine : Engine σ) {room : Nat} {node : Expansion}
    (kind : node.element.kind = .primitive .sequence)
    (each : ∀ child ∈ node.children, child.element.Placed) (reading : Reading) :
    engine.traverseAt (room + 1) node reading =
      readSequence (engine.traverseAt room) (placed node.children) (node.element.prop? "value")
        reading := by
  rw [traverseAt_primitive engine kind, readPrimitive, slots_eq each, placed,
    List.map_prod_left_eq_zip]
  rfl

end Phrasing
