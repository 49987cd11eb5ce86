import Phrasing.Position

/-!
# Positions below positions

A position starts with another one exactly when it is that position or lies below it, and this orders
positions into branches: the ancestors of a position are the positions it starts with, one of each
depth.  The positions below two different children of a node, or below a child and below the
description, are disjoint.
-/

namespace Phrasing.Position

theorem startsWith_iff {position ancestor : Position} :
    position.startsWith ancestor = true ↔ ancestor.segments <+: position.segments :=
  List.isPrefixOf_iff_prefix

@[simp]
theorem startsWith_refl (position : Position) : position.startsWith position = true :=
  startsWith_iff.mpr (List.prefix_refl _)

theorem startsWith_trans {position middle ancestor : Position}
    (below : position.startsWith middle = true) (above : middle.startsWith ancestor = true) :
    position.startsWith ancestor = true :=
  startsWith_iff.mpr ((startsWith_iff.mp above).trans (startsWith_iff.mp below))

/-- A position is another one or lies below it. -/
def Below (root position : Position) : Prop :=
  position.startsWith root = true

theorem below_of_eq {root position : Position} (here : position = root) : root.Below position := by
  rw [here]
  exact startsWith_refl root

/-- Of two positions above a third one, the longer starts with the shorter. -/
theorem startsWith_of_depth_le {position upper lower : Position}
    (below_upper : position.startsWith upper = true) (below_lower : position.startsWith lower = true)
    (shorter : upper.depth ≤ lower.depth) : lower.startsWith upper = true :=
  startsWith_iff.mpr (List.prefix_of_prefix_length_le (startsWith_iff.mp below_upper)
    (startsWith_iff.mp below_lower) shorter)

theorem mem_ancestors {position ancestor : Position} :
    ancestor ∈ position.ancestors ↔ position.startsWith ancestor = true := by
  rw [startsWith_iff]
  simp only [ancestors, List.mem_map, List.mem_reverse, List.mem_range]
  constructor
  · rintro ⟨depth, -, rfl⟩
    exact List.take_prefix depth position.segments
  · intro above
    refine ⟨ancestor.depth, Nat.lt_succ_of_le above.length_le, ?_⟩
    rw [depth, ← List.prefix_iff_eq_take.mp above]

@[simp]
theorem depth_child (position : Position) (index : Nat) :
    (position.child index).depth = position.depth + 1 :=
  List.length_append

@[simp]
theorem depth_expansion (position : Position) :
    position.expansion.depth = position.depth + 1 :=
  List.length_append

theorem depth_le {position ancestor : Position} (below : position.startsWith ancestor = true) :
    ancestor.depth ≤ position.depth :=
  (startsWith_iff.mp below).length_le

theorem eq_of_startsWith {position ancestor : Position}
    (below : position.startsWith ancestor = true) (depth_eq : position.depth ≤ ancestor.depth) :
    position = ancestor := by
  have same : ancestor.segments = position.segments :=
    (startsWith_iff.mp below).eq_of_length_le depth_eq
  cases position
  cases ancestor
  simp_all

theorem child_startsWith_iff {position ancestor : Position} {index : Nat} :
    (position.child index).startsWith ancestor = true ↔
      ancestor = position.child index ∨ position.startsWith ancestor = true := by
  rw [startsWith_iff, startsWith_iff, child, List.prefix_concat_iff]
  cases ancestor
  simp

theorem expansion_startsWith_iff {position ancestor : Position} :
    position.expansion.startsWith ancestor = true ↔
      ancestor = position.expansion ∨ position.startsWith ancestor = true := by
  rw [startsWith_iff, startsWith_iff, expansion, List.prefix_concat_iff]
  cases ancestor
  simp

@[simp]
theorem child_startsWith (position : Position) (index : Nat) :
    (position.child index).startsWith position = true :=
  child_startsWith_iff.mpr (.inr (startsWith_refl position))

@[simp]
theorem expansion_startsWith (position : Position) :
    position.expansion.startsWith position = true :=
  expansion_startsWith_iff.mpr (.inr (startsWith_refl position))

theorem not_startsWith_child (position : Position) (index : Nat) :
    ¬ position.startsWith (position.child index) = true := by
  intro below
  have shallower := depth_le below
  rw [depth_child] at shallower
  omega

theorem not_startsWith_expansion (position : Position) :
    ¬ position.startsWith position.expansion = true := by
  intro below
  have shallower := depth_le below
  rw [depth_expansion] at shallower
  omega

theorem child_ne_expansion (position other : Position) (index : Nat) :
    position.child index ≠ other.expansion := by
  simp [child, expansion]

theorem expansion_inj {position other : Position} :
    position.expansion = other.expansion ↔ position = other := by
  cases position
  cases other
  simp [expansion]

/-- Positions below two children of one node differ, as long as indices fit into 32 bits. -/
theorem index_eq_of_startsWith {position below : Position} {index other : Nat}
    (index_fits : index < UInt32.size) (other_fits : other < UInt32.size)
    (first : below.startsWith (position.child index) = true)
    (second : below.startsWith (position.child other) = true) : index = other := by
  have above := startsWith_of_depth_le first second (by simp)
  have same := eq_of_startsWith above (by simp)
  have index_eq : UInt32.ofNat other = UInt32.ofNat index := by
    simpa [child] using same
  have := congrArg UInt32.toNat index_eq
  rw [UInt32.toNat_ofNat_of_lt' other_fits, UInt32.toNat_ofNat_of_lt' index_fits] at this
  exact this.symm

/-- A position is at or below one of the children from one index up to another. -/
def BelowChildren (root : Position) (start stop : Nat) (position : Position) : Prop :=
  ∃ index, start ≤ index ∧ index < stop ∧ (root.child index).Below position

theorem not_belowChildren_root (root : Position) (start stop : Nat) :
    ¬ root.BelowChildren start stop root := by
  rintro ⟨index, -, -, below⟩
  exact not_startsWith_child root index below

theorem not_belowChildren {root position : Position} {index start stop : Nat}
    (before : index < start) (stop_fits : stop ≤ UInt32.size)
    (below : (root.child index).Below position) : ¬ root.BelowChildren start stop position := by
  rintro ⟨other, start_le, other_lt, other_below⟩
  have same := index_eq_of_startsWith (by omega) (by omega) below other_below
  omega

theorem startsWith_antisymm {left right : Position} (above : left.startsWith right = true)
    (below : right.startsWith left = true) : left = right :=
  eq_of_startsWith above (depth_le below)

theorem depths_ancestors (position : Position) :
    position.ancestors.map depth = (List.range (position.depth + 1)).reverse := by
  have takes (length : Nat) (member : length ∈ (List.range (position.depth + 1)).reverse) :
      (Position.mk (position.segments.take length)).depth = length := by
    rw [List.mem_reverse, List.mem_range] at member
    exact List.length_take_of_le (Nat.le_of_lt_succ member)
  rw [ancestors, List.map_map]
  exact (List.map_congr_left takes).trans (List.map_id _)

theorem length_ancestors (position : Position) :
    position.ancestors.length = position.depth + 1 := by
  simp [ancestors]

theorem nodup_ancestors (position : Position) : position.ancestors.Nodup := by
  have depths : (position.ancestors.map depth).Nodup := by
    rw [depths_ancestors]
    exact List.pairwise_reverse.mpr (List.nodup_range.imp Ne.symm)
  exact List.Pairwise.of_map depth (fun _ _ distinct same => distinct (congrArg depth same)) depths

theorem startsWith_total {position upper lower : Position}
    (below_upper : position.startsWith upper = true)
    (below_lower : position.startsWith lower = true) :
    lower.startsWith upper = true ∨ upper.startsWith lower = true :=
  (Nat.le_total upper.depth lower.depth).imp (startsWith_of_depth_le below_upper below_lower)
    (startsWith_of_depth_le below_lower below_upper)

/-- The ancestors of a position are the positions that it starts with, one of each depth from its own
up to the root.  To start with a position is a partial order in which what lies above a position is a
chain, and a step leads strictly below. -/
theorem ancestors_agree_with_startsWith :
    (∀ position ancestor : Position,
      ancestor ∈ position.ancestors ↔ position.startsWith ancestor = true) ∧
    (∀ position : Position,
      position.ancestors.length = position.depth + 1 ∧ position.ancestors.Nodup ∧
        position.ancestors.map depth = (List.range (position.depth + 1)).reverse) ∧
    (∀ position : Position, position.startsWith position = true) ∧
    (∀ left right : Position,
      left.startsWith right = true → right.startsWith left = true → left = right) ∧
    (∀ position middle ancestor : Position,
      position.startsWith middle = true → middle.startsWith ancestor = true →
        position.startsWith ancestor = true) ∧
    (∀ (position : Position) (index : Nat),
      (position.child index).startsWith position = true ∧
        ¬ position.startsWith (position.child index) = true) ∧
    (∀ position : Position,
      position.expansion.startsWith position = true ∧
        ¬ position.startsWith position.expansion = true) ∧
    ∀ position upper lower : Position, upper ∈ position.ancestors → lower ∈ position.ancestors →
      lower.startsWith upper = true ∨ upper.startsWith lower = true := by
  refine ⟨fun _ _ => mem_ancestors, fun position => ?_, startsWith_refl,
    fun _ _ => startsWith_antisymm, fun _ _ _ => startsWith_trans,
    fun position index => ⟨child_startsWith position index, not_startsWith_child position index⟩,
    fun position => ⟨expansion_startsWith position, not_startsWith_expansion position⟩,
    fun position upper lower at_upper at_lower => ?_⟩
  · exact ⟨length_ancestors position, nodup_ancestors position, depths_ancestors position⟩
  · exact startsWith_total (mem_ancestors.mp at_upper) (mem_ancestors.mp at_lower)

end Phrasing.Position
