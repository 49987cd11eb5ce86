import Phrasing.Expansion.Basic
import Phrasing.Proofs.Positions

/-!
# Heights of expansions

The nodes of an expansion are at positions below that of its root, and its height is the depth of the
deepest of them.  Every depth in between is that of some node.
-/

namespace Phrasing.Expansion

mutual

/-- The number of steps from the root to the deepest node. -/
def height : Expansion → Nat
  | .structural _ _ children => heights children
  | .described _ _ body => height body + 1

/-- The number of steps from above several trees to their deepest node. -/
def heights : List Expansion → Nat
  | [] => 0
  | first :: rest => max (height first + 1) (heights rest)

end

theorem height_lt_heights {child : Expansion} {children : List Expansion}
    (member : child ∈ children) : child.height < heights children := by
  induction children with
  | nil => simp at member
  | cons first rest induction =>
      rw [heights]
      rcases List.mem_cons.mp member with rfl | member
      · omega
      · have := induction member
        omega

theorem height_child_lt {node child : Expansion} (member : child ∈ node.children) :
    child.height < node.height := by
  cases node with
  | structural element data children => exact height_lt_heights member
  | described => simp [children] at member

theorem height_description_lt {node body : Expansion} (description : node.description? = some body) :
    body.height < node.height := by
  cases node with
  | structural => simp [description?] at description
  | described element data inner =>
      obtain rfl : inner = body := by simpa [description?] using description
      simp [height]

mutual

/-- The positions of the nodes, each node before those below it and these from left to right. -/
def positions : Position → Expansion → List Position
  | position, .structural _ _ children => position :: positionsAmong position 0 children
  | position, .described _ _ body => position :: positions position.expansion body

/-- The positions of the nodes of several children, from an index up. -/
def positionsAmong : Position → Nat → List Expansion → List Position
  | _, _, [] => []
  | position, start, first :: rest =>
      positions (position.child start) first ++ positionsAmong position (start + 1) rest

end

/-- The root comes first. -/
theorem positions_eq_cons (position : Position) (expansion : Expansion) :
    ∃ below, expansion.positions position = position :: below := by
  cases expansion with
  | structural => exact ⟨_, positions.eq_1 ..⟩
  | described => exact ⟨_, positions.eq_2 ..⟩

mutual

/-- No node is deeper than the height. -/
theorem depth_le_height {below : Position} :
    ∀ {position : Position} {expansion : Expansion}, below ∈ expansion.positions position →
      below.depth ≤ position.depth + expansion.height
  | position, .structural _ _ children, member => by
      rw [positions, List.mem_cons] at member
      rcases member with rfl | member
      · exact Nat.le_add_right _ _
      · exact depth_le_heights member
  | position, .described _ _ body, member => by
      rw [positions, List.mem_cons] at member
      rcases member with rfl | member
      · exact Nat.le_add_right _ _
      · have deepest := depth_le_height member
        rw [Position.depth_expansion] at deepest
        rw [height]
        omega

theorem depth_le_heights {below : Position} :
    ∀ {position : Position} {start : Nat} {children : List Expansion},
      below ∈ positionsAmong position start children →
        below.depth ≤ position.depth + heights children
  | _, _, [], member => by simp [positionsAmong] at member
  | position, start, first :: rest, member => by
      rw [positionsAmong, List.mem_append] at member
      rw [heights]
      rcases member with first_member | rest_member
      · have deepest := depth_le_height first_member
        rw [Position.depth_child] at deepest
        omega
      · have deepest := depth_le_heights rest_member
        omega

end

mutual

/-- Down to the height there are nodes of every depth. -/
theorem exists_depth_eq :
    ∀ {steps : Nat} (position : Position) {expansion : Expansion}, steps ≤ expansion.height →
      ∃ below ∈ expansion.positions position, below.depth = position.depth + steps
  | 0, position, expansion, _ => by
      obtain ⟨below, positions_eq⟩ := expansion.positions_eq_cons position
      exact ⟨position, positions_eq ▸ List.mem_cons_self, rfl⟩
  | steps + 1, position, .structural _ _ children, high => by
      obtain ⟨below, member, depth_eq⟩ := exists_depth_among position 0 high
      rw [positions]
      exact ⟨below, List.mem_cons_of_mem _ member, depth_eq⟩
  | steps + 1, position, .described _ _ body, high => by
      obtain ⟨below, member, depth_eq⟩ :=
        exists_depth_eq position.expansion (Nat.le_of_succ_le_succ high)
      rw [Position.depth_expansion] at depth_eq
      rw [positions]
      exact ⟨below, List.mem_cons_of_mem _ member, by omega⟩

theorem exists_depth_among :
    ∀ {steps : Nat} (position : Position) (start : Nat) {children : List Expansion},
      steps + 1 ≤ heights children →
        ∃ below ∈ positionsAmong position start children, below.depth = position.depth + (steps + 1)
  | steps, position, start, [], high => by simp [heights] at high
  | steps, position, start, first :: rest, high => by
      rw [heights] at high
      rw [positionsAmong]
      obtain high | high : steps + 1 ≤ first.height + 1 ∨ steps + 1 ≤ heights rest := by omega
      · obtain ⟨below, member, depth_eq⟩ :=
          exists_depth_eq (position.child start) (Nat.le_of_succ_le_succ high)
        rw [Position.depth_child] at depth_eq
        exact ⟨below, List.mem_append_left _ member, by omega⟩
      · obtain ⟨below, member, depth_eq⟩ := exists_depth_among position (start + 1) high
        exact ⟨below, List.mem_append_right _ member, depth_eq⟩

end

end Phrasing.Expansion
