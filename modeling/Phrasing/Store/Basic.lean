import Phrasing.Expansion.Basic
import Phrasing.Memo.Table
import Phrasing.Store.Inputs

/-!
# The memo store

The store remembers observations and descriptions by position, and by content the expansions of
elements that are handed to traversal while an input is read.  The three parts share one count of
generations.  Expansions by content outlive one generation without use, because the parsers of the
previous compilation may still need them.
-/

namespace Phrasing

/-- The expansion of an element outside the compiled tree. -/
structure AdHocEntry where
  /-- The element. -/
  element : Element
  /-- Its expansion. -/
  expansion : Expansion
  /-- The generation in which it was last stored or used. -/
  generation : Nat

/-- What a processor remembers. -/
structure Store where
  /-- Derived data by position. -/
  observations : Memo.Table ObserveInputs Value
  /-- Expansions of described nodes by position. -/
  expansions : Memo.Table DescribeInputs Expansion
  /-- Expansions of elements by content hash. -/
  adHoc : List (ContentHash × AdHocEntry)
  /-- The counters of `adHoc`. -/
  adHocStats : Memo.Stats
  /-- The current generation. -/
  generation : Nat

/-- The counters and sizes of a store. -/
structure StoreStats where
  /-- The counters of observations. -/
  observe : Memo.Stats
  /-- The counters of descriptions. -/
  describe : Memo.Stats
  /-- The counters of expansions by content. -/
  adHoc : Memo.Stats
  /-- The number of stored observations. -/
  observeEntries : Nat
  /-- The number of stored descriptions. -/
  describeEntries : Nat
  /-- The number of stored expansions by content. -/
  adHocEntries : Nat

/-- The JSON form of the counters and sizes. -/
def StoreStats.toJson (stats : StoreStats) : Json :=
  .object [("observe", stats.observe.toJson), ("describe", stats.describe.toJson),
    ("ad_hoc", stats.adHoc.toJson), ("observe_entries", .nat stats.observeEntries),
    ("describe_entries", .nat stats.describeEntries), ("ad_hoc_entries", .nat stats.adHocEntries)]

namespace Store

/-- The store that remembers nothing. -/
def empty : Store :=
  { observations := .empty "observe"
    expansions := .empty "describe"
    adHoc := []
    adHocStats := {}
    generation := 0 }

instance : Inhabited Store :=
  ⟨empty⟩

/-- The store with its next generation begun. -/
def begin (store : Store) : Store :=
  let expansions := store.expansions.begin
  { store with
    observations := store.observations.begin
    expansions
    generation := expansions.generation }

/-- Marks everything at or below a position as used in this generation. -/
def keepSubtree (store : Store) (root : Position) : Store :=
  { store with
    observations := store.observations.keepSubtree root
    expansions := store.expansions.keepSubtree root }

/-- The entries with the one for a hash replaced or added. -/
def putAdHoc (hash : ContentHash) (entry : AdHocEntry) :
    List (ContentHash × AdHocEntry) → List (ContentHash × AdHocEntry)
  | [] => [(hash, entry)]
  | (other, present) :: rest =>
      if other = hash then (hash, entry) :: rest else (other, present) :: putAdHoc hash entry rest

/-- Looks up the expansion of an element by content; a hit counts as a use in this generation. -/
def lookupAdHoc (store : Store) (element : Element) : Option Expansion × Store :=
  let stats := store.adHocStats
  match store.adHoc.lookup element.contentHash with
  | none => (none, { store with adHocStats := { stats with vacant := stats.vacant + 1 } })
  | some entry =>
      if entry.element == element then
        (some entry.expansion,
          { store with
            adHoc := putAdHoc element.contentHash { entry with generation := store.generation }
              store.adHoc
            adHocStats := { stats with hits := stats.hits + 1 } })
      else
        (none, { store with adHocStats := { stats with collisions := stats.collisions + 1 } })

/-- Stores the expansion of an element by content. -/
def storeAdHoc (store : Store) (element : Element) (expansion : Expansion) : Store :=
  { store with
    adHoc := putAdHoc element.contentHash
      { element, expansion, generation := store.generation } store.adHoc
    adHocStats := { store.adHocStats with stores := store.adHocStats.stores + 1 } }

/-- Drops what is no longer in use, and tells how many entries that were. -/
def sweep (store : Store) : Nat × Store :=
  let kept := store.adHoc.filter fun entry => store.generation - 1 ≤ entry.2.generation
  let dropped := store.adHoc.length - kept.length
  let observations := store.observations.sweep
  let expansions := store.expansions.sweep
  (observations.1 + expansions.1 + dropped,
    { store with
      observations := observations.2
      expansions := expansions.2
      adHoc := kept
      adHocStats :=
        { store.adHocStats with evictions := store.adHocStats.evictions + dropped } })

/-- Drops everything. -/
def clear (store : Store) : Store :=
  { store with
    observations := store.observations.clear
    expansions := store.expansions.clear
    adHoc := []
    adHocStats :=
      { store.adHocStats with
        evictions := store.adHocStats.evictions + store.adHoc.length } }

/-- The counters and sizes. -/
def stats (store : Store) : StoreStats :=
  { observe := store.observations.stats
    describe := store.expansions.stats
    adHoc := store.adHocStats
    observeEntries := store.observations.size
    describeEntries := store.expansions.size
    adHocEntries := store.adHoc.length }

end Store

end Phrasing
