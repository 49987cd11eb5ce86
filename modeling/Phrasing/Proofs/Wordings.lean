import Mathlib.Data.List.Basic
import Mathlib.Data.List.Induction
import Phrasing.Fault

/-!
# Wordings that name positions

The written form of a step has neither a slash nor a blank in it.  So the last slash in the written
form of a position is where its last step begins, and the last blank in the wording of an error is
where the position that it names begins: both can be taken apart from the end.
-/

namespace Phrasing

theorem append_cons_inj_of_absent {α : Type} {separator : α} {left right tail other : List α}
    (absent : separator ∉ tail) (other_absent : separator ∉ other)
    (same : left ++ separator :: tail = right ++ separator :: other) :
    left = right ∧ tail = other := by
  rcases List.append_eq_append_iff.mp same with ⟨between, rfl, rest⟩ | ⟨between, rfl, rest⟩
  · cases between with
    | nil => exact ⟨(List.append_nil left).symm, (List.cons.inj rest).2⟩
    | cons first between =>
        rw [(List.cons.inj rest).2] at absent
        exact absurd (List.mem_append_right between List.mem_cons_self) absent
  · cases between with
    | nil => exact ⟨List.append_nil right, (List.cons.inj rest).2.symm⟩
    | cons first between =>
        rw [(List.cons.inj rest).2] at other_absent
        exact absurd (List.mem_append_right between List.mem_cons_self) other_absent

/-- What comes after the last separator in a text can be told from what comes before it. -/
theorem append_separator_inj {separator : Char} {left right tail other : String}
    (absent : separator ∉ tail.toList) (other_absent : separator ∉ other.toList) :
    left ++ String.singleton separator ++ tail = right ++ String.singleton separator ++ other ↔
      left = right ∧ tail = other := by
  constructor
  · intro same
    have characters : left.toList ++ separator :: tail.toList =
        right.toList ++ separator :: other.toList := by
      simpa using congrArg String.toList same
    have parts := append_cons_inj_of_absent absent other_absent characters
    exact ⟨String.toList_inj.mp parts.1, String.toList_inj.mp parts.2⟩
  · rintro ⟨rfl, rfl⟩
    rfl

theorem isDigit_of_mem_toString {number : Nat} {character : Char}
    (member : character ∈ (toString number).toList) : character.isDigit = true := by
  rw [Nat.toString_eq_ofList_toDigits, String.toList_ofList] at member
  exact Nat.isDigit_of_mem_toDigits (by decide) (by decide) member

theorem toString_inj {number other : Nat} : toString number = toString other ↔ number = other := by
  refine ⟨fun same => ?_, congrArg toString⟩
  rw [Nat.toString_eq_ofList_toDigits, Nat.toString_eq_ofList_toDigits, String.ofList_inj] at same
  rw [← Nat.ofDigitChars_ten_toDigits (n := number), same, Nat.ofDigitChars_ten_toDigits]

namespace Segment

theorem isDigit_or_mark_of_mem_text {segment : Segment} {character : Char}
    (member : character ∈ segment.text.toList) : character.isDigit = true ∨ character = '@' := by
  cases segment with
  | child index => exact .inl (isDigit_of_mem_toString member)
  | expansion => exact .inr (by simpa [text] using member)

theorem slash_notMem_text (segment : Segment) : '/' ∉ segment.text.toList := fun member => by
  simpa using isDigit_or_mark_of_mem_text member

theorem text_ne_empty (segment : Segment) : segment.text ≠ "" := by
  cases segment with
  | child index => exact Nat.repr_ne_empty
  | expansion => decide

theorem text_inj {left right : Segment} : left.text = right.text ↔ left = right := by
  -- The mark of a description is no digit, so it is not the written form of an index.
  have child_ne (index : UInt32) : (child index).text ≠ expansion.text := fun same => by
    have digit : '@' ∈ (toString index.toNat).toList := by
      rw [show toString index.toNat = "@" from same]
      decide
    simpa using isDigit_of_mem_toString digit
  cases left with
  | child index =>
      cases right with
      | child other =>
          rw [Segment.child.injEq, ← UInt32.toNat_inj]
          exact toString_inj
      | expansion => exact iff_of_false (child_ne index) nofun
  | expansion =>
      cases right with
      | child other => exact iff_of_false (child_ne other).symm nofun
      | expansion => exact iff_of_true rfl rfl

end Segment

namespace Position

/-- What the written forms of the positions below a position begin with: its own written form, or
nothing for the root. -/
def lead (position : Position) : String :=
  if position = root then "" else position.text

theorem lead_eq_join (position : Position) :
    position.lead = String.join (position.segments.map fun segment => "/" ++ segment.text) := by
  obtain ⟨segments⟩ := position
  cases segments with
  | nil => rfl
  | cons segment segments => exact if_neg (by simp [root])

theorem lead_concat (segments : List Segment) (segment : Segment) :
    (Position.mk (segments ++ [segment])).lead =
      (Position.mk segments).lead ++ "/" ++ segment.text := by
  rw [lead_eq_join, lead_eq_join, List.map_append, String.join_append, List.map_singleton,
    String.join_cons, String.join_nil, String.append_empty, String.append_assoc]

theorem text_eq_lead {position : Position} (below : position ≠ root) :
    position.text = position.lead :=
  (if_neg below).symm

theorem lead_ne_text_root (position : Position) : position.lead ≠ root.text := by
  obtain ⟨segments⟩ := position
  obtain rfl | ⟨segments, segment, rfl⟩ := List.eq_nil_or_concat' segments
  · decide
  · intro same
    rw [lead_concat, show root.text = "" ++ "/" ++ "" by decide] at same
    have parts := (append_separator_inj segment.slash_notMem_text (by simp)).mp same
    exact segment.text_ne_empty parts.2

theorem lead_inj {left right : Position} : left.lead = right.lead ↔ left = right := by
  refine ⟨fun same => ?_, congrArg lead⟩
  obtain ⟨segments⟩ := left
  obtain ⟨others⟩ := right
  have lead_ne (segments : List Segment) (segment : Segment) :
      (Position.mk (segments ++ [segment])).lead ≠ root.lead := by
    rw [lead_concat, show root.lead = "" by decide]
    simp
  induction segments using List.reverseRecOn generalizing others with
  | nil =>
      obtain rfl | ⟨others, other, rfl⟩ := List.eq_nil_or_concat' others
      · rfl
      · exact absurd same.symm (lead_ne others other)
  | append_singleton segments segment induction =>
      obtain rfl | ⟨others, other, rfl⟩ := List.eq_nil_or_concat' others
      · exact absurd same (lead_ne segments segment)
      · rw [lead_concat, lead_concat] at same
        have parts :=
          (append_separator_inj segment.slash_notMem_text other.slash_notMem_text).mp same
        obtain rfl := Position.mk.inj (induction others parts.1)
        rw [Segment.text_inj.mp parts.2]

theorem text_inj {left right : Position} : left.text = right.text ↔ left = right := by
  refine ⟨fun same => ?_, congrArg text⟩
  by_cases left_below : left = root
  · by_cases right_below : right = root
    · rw [left_below, right_below]
    · rw [left_below, text_eq_lead right_below] at same
      exact absurd same.symm (lead_ne_text_root right)
  · by_cases right_below : right = root
    · rw [right_below, text_eq_lead left_below] at same
      exact absurd same (lead_ne_text_root left)
    · rw [text_eq_lead left_below, text_eq_lead right_below] at same
      exact lead_inj.mp same

theorem blank_notMem_text (position : Position) : ' ' ∉ position.text.toList := by
  by_cases here : position = root
  · subst here
    decide
  · rw [text_eq_lead here, lead_eq_join, String.toList_join, List.flatMap_map]
    intro member
    obtain ⟨segment, -, member⟩ := List.mem_flatMap.mp member
    rcases List.mem_append.mp (String.toList_append ▸ member) with slash | mark
    · simp at slash
    · simpa using Segment.isDigit_or_mark_of_mem_text mark

theorem text_child (position : Position) (index : Nat) :
    (position.child index).text = position.lead ++ "/" ++ toString (index % UInt32.size) := by
  rw [text_eq_lead (by simp [child, root]), child, lead_concat]
  rfl

theorem text_expansion (position : Position) :
    position.expansion.text = position.lead ++ "/@" := by
  rw [text_eq_lead (by simp [expansion, root]), expansion, lead_concat, String.append_assoc]
  rfl

end Position

/-- What comes before the last word of two texts, and the position that the last word is. -/
theorem append_position_inj {left right : String} {position other : Position} :
    left ++ " " ++ position.text = right ++ " " ++ other.text ↔ left = right ∧ position = other := by
  rw [← Position.text_inj]
  exact append_separator_inj position.blank_notMem_text other.blank_notMem_text

theorem message_expansionTooDeep (limit : Nat) (position : Position) :
    (EngineError.expansionTooDeep limit position).message =
      "expansion exceeded depth limit " ++ toString limit ++ " at" ++ " " ++ position.text := by
  have words : " at " = " at" ++ " " := by decide
  change "expansion exceeded depth limit " ++ toString limit ++ " at " ++ position.text = _
  rw [words, ← String.append_assoc]

theorem message_expansionTooDeep_inj {limit other_limit : Nat} {position other : Position} :
    (EngineError.expansionTooDeep limit position).message =
        (EngineError.expansionTooDeep other_limit other).message ↔
      limit = other_limit ∧ position = other := by
  rw [message_expansionTooDeep, message_expansionTooDeep, append_position_inj,
    String.append_left_inj, String.append_right_inj, toString_inj]

namespace Memo.TableError

theorem message_dangling (table : String) (position : Position) :
    (dangling table position).message =
      "memo table `" ++ table ++ "` lost the entry" ++ " " ++ "for" ++ " " ++ position.text := by
  have words : "` lost the entry for " = "` lost the entry" ++ " " ++ "for" ++ " " := by decide
  change "memo table `" ++ table ++ "` lost the entry for " ++ position.text = _
  simp only [words, String.append_assoc]

theorem message_misfiled (table : String) (position found : Position) :
    (misfiled table position found).message =
      "memo table `" ++ table ++ "` has entry for" ++ " " ++ found.text ++ " indexed" ++ " " ++
        "under" ++ " " ++ position.text := by
  have first : "` has entry for " = "` has entry for" ++ " " := by decide
  have second : " indexed under " = " indexed" ++ " " ++ "under" ++ " " := by decide
  change "memo table `" ++ table ++ "` has entry for " ++ found.text ++ " indexed under " ++
    position.text = _
  simp only [first, second, String.append_assoc]

theorem message_inj {left right : TableError} : left.message = right.message ↔ left = right := by
  -- The last word but one tells which of the two errors it is.
  have dangling_ne (table other : String) (position current found : Position) :
      (dangling table position).message ≠ (misfiled other current found).message := by
    have word : ' ' ∉ "for".toList := by decide
    have other_word : ' ' ∉ "under".toList := by decide
    rw [message_dangling, message_misfiled]
    intro same
    have parts := (append_separator_inj word other_word).mp (append_position_inj.mp same).1
    exact absurd parts.2 (by decide)
  cases left with
  | dangling table position =>
      cases right with
      | dangling other current =>
          rw [message_dangling, message_dangling, append_position_inj, String.append_left_inj,
            String.append_left_inj, String.append_left_inj, String.append_right_inj, dangling.injEq]
      | misfiled other current found => exact iff_of_false (dangling_ne _ _ _ _ _) nofun
  | misfiled table position found =>
      cases right with
      | dangling other current => exact iff_of_false (dangling_ne _ _ _ _ _).symm nofun
      | misfiled other current other_found =>
          rw [message_misfiled, message_misfiled, append_position_inj, String.append_left_inj,
            String.append_left_inj, String.append_left_inj, append_position_inj,
            String.append_left_inj, String.append_right_inj, misfiled.injEq]
          tauto

end Memo.TableError

/-- The written form of a position, in which each step follows a slash, is written for no other
position.  So what is said where an expansion goes too deep, or where a memo table is broken, names
one position. -/
theorem text_names_position :
    (∀ left right : Position, left.text = right.text ↔ left = right) ∧
    (Position.root.text = "/" ∧ ∀ position : Position,
      (∀ index, (position.child index).text =
        (if position = .root then "" else position.text) ++ "/" ++
          toString (index % UInt32.size)) ∧
      position.expansion.text = (if position = .root then "" else position.text) ++ "/@") ∧
    (∀ (limit other_limit : Nat) (position other : Position),
      (EngineError.expansionTooDeep limit position).message =
          (EngineError.expansionTooDeep other_limit other).message ↔
        limit = other_limit ∧ position = other) ∧
    ∀ left right : Memo.TableError,
      (EngineError.table left).message = (EngineError.table right).message ↔ left = right :=
  ⟨fun _ _ => Position.text_inj,
    ⟨rfl, fun position => ⟨position.text_child, position.text_expansion⟩⟩,
    fun _ _ _ _ => message_expansionTooDeep_inj, fun _ _ => Memo.TableError.message_inj⟩

end Phrasing
