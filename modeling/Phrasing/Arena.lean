/-!
# Arenas

An arena stores items densely and addresses them by the order of their allocation.  Items are only
added; dropping some of them builds a new arena from the survivors, in their old order, and tells
which new address replaces which old one.
-/

namespace Phrasing

/-- A dense store of items. -/
structure Arena (α : Type) where
  /-- The items, in the order of their allocation. -/
  items : Array α

namespace Arena

variable {α : Type}

/-- The address of an item. -/
abbrev Id := UInt32

/-- The arena without items. -/
def empty : Arena α :=
  ⟨#[]⟩

/-- The number of items. -/
def size (arena : Arena α) : Nat :=
  arena.items.size

/-- The address that the next item gets. -/
def next (arena : Arena α) : Id :=
  UInt32.ofNat arena.size

/-- The arena with one more item, at the address `next`. -/
def push (arena : Arena α) (item : α) : Arena α :=
  ⟨arena.items.push item⟩

/-- The item at an address, if one was allocated there. -/
def get? (arena : Arena α) (id : Id) : Option α :=
  arena.items[id.toNat]?

/-- The arena with the item at an address replaced; unallocated addresses stay so. -/
def set (arena : Arena α) (id : Id) (item : α) : Arena α :=
  ⟨arena.items.setIfInBounds id.toNat item⟩

/-- The items with their addresses, in the order of allocation. -/
def entries (arena : Arena α) : List (Id × α) :=
  arena.items.toList.zipIdx.map fun entry => (UInt32.ofNat entry.2, entry.1)

/-- The arena of the items that `keep` accepts, and the new address of each of their old ones. -/
def compact (arena : Arena α) (keep : Id → α → Bool) : Arena α × List (Id × Id) :=
  let kept := arena.entries.filter fun entry => keep entry.1 entry.2
  (⟨(kept.map Prod.snd).toArray⟩,
    kept.zipIdx.map fun entry => (entry.1.1, UInt32.ofNat entry.2))

@[simp]
theorem size_empty : (empty : Arena α).size = 0 :=
  rfl

@[simp]
theorem size_push (arena : Arena α) (item : α) : (arena.push item).size = arena.size + 1 := by
  simp [size, push]

@[simp]
theorem size_set (arena : Arena α) (id : Id) (item : α) : (arena.set id item).size = arena.size := by
  simp [size, set]

end Arena

end Phrasing
