import Phrasing.Arena
import Phrasing.Content.Hash
import Phrasing.Memo.Stats
import Phrasing.Position

/-!
# Memo tables

A memo table keeps, for each position, the last output computed there together with the inputs it
was computed from.  A stored output is reused only when the fingerprint of the current inputs agrees
with the stored one and the inputs themselves compare equal, so the outcome of a lookup does not
depend on how well fingerprints separate inputs.  Time runs in generations: sweeping drops every
entry that the current generation neither stored nor reused, except below positions that were
reused as a whole.
-/

namespace Phrasing.Memo

/-- One stored computation. -/
structure Entry (Input Output : Type) where
  /-- Where the computation happened. -/
  position : Position
  /-- The fingerprint of the inputs. -/
  fingerprint : ContentHash
  /-- The inputs. -/
  inputs : Input
  /-- The output. -/
  output : Output
  /-- The generation in which the entry was last stored or reused. -/
  generation : Nat

/-- The outcome of a lookup. -/
inductive Lookup (Output : Type) where
  /-- The stored inputs equal the current ones. -/
  | hit (output : Output)
  /-- Something is stored, for other inputs. -/
  | stale
  /-- Nothing is stored. -/
  | vacant

/-- A broken correspondence between the index of a table and its entries. -/
inductive TableError where
  /-- The index points to an entry that does not exist. -/
  | dangling (table : String) (position : Position)
  /-- The index points to an entry of another position. -/
  | misfiled (table : String) (position found : Position)
  deriving DecidableEq

/-- The wording of a broken correspondence. -/
def TableError.message : TableError → String
  | .dangling table position => s!"memo table `{table}` lost the entry for {position.text}"
  | .misfiled table position found =>
      s!"memo table `{table}` has entry for {found.text} indexed under {position.text}"

/-- Stored computations by position. -/
structure Table (Input Output : Type) where
  /-- The name of the table in messages. -/
  name : String
  /-- The stored computations. -/
  entries : Arena (Entry Input Output)
  /-- The address of the entry for each occupied position. -/
  index : List (Position × Arena.Id)
  /-- The current generation. -/
  generation : Nat
  /-- The positions reused as a whole in the current generation. -/
  liveRoots : List Position
  /-- The counters. -/
  stats : Stats

namespace Table

variable {Input Output : Type}

/-- The table without entries. -/
def empty (name : String) : Table Input Output :=
  { name, entries := .empty, index := [], generation := 0, liveRoots := [], stats := {} }

/-- The number of entries. -/
def size (table : Table Input Output) : Nat :=
  table.entries.size

/-- The table with its next generation begun. -/
def begin (table : Table Input Output) : Table Input Output :=
  { table with generation := table.generation + 1, liveRoots := [] }

/-- The entry at a position. -/
def get? (table : Table Input Output) (position : Position) : Option (Entry Input Output) :=
  (table.index.lookup position).bind table.entries.get?

/-- Whether a position is occupied. -/
def contains (table : Table Input Output) (position : Position) : Bool :=
  (table.index.lookup position).isSome

/-- Looks up the output for the current inputs; a hit counts as a use in this generation. -/
def lookup [BEq Input] (table : Table Input Output) (position : Position)
    (fingerprint : ContentHash) (inputs : Input) :
    Except TableError (Lookup Output × Table Input Output) :=
  let stats := table.stats
  match table.index.lookup position with
  | none => .ok (.vacant, { table with stats := { stats with vacant := stats.vacant + 1 } })
  | some id =>
      match table.entries.get? id with
      | none => .error (.dangling table.name position)
      | some entry =>
          if entry.position ≠ position then
            .error (.misfiled table.name position entry.position)
          else if entry.fingerprint ≠ fingerprint then
            .ok (.stale, { table with stats := { stats with stale := stats.stale + 1 } })
          else if entry.inputs == inputs then
            .ok (.hit entry.output,
              { table with
                entries := table.entries.set id { entry with generation := table.generation }
                stats := { stats with hits := stats.hits + 1 } })
          else
            .ok (.stale,
              { table with stats := { stats with collisions := stats.collisions + 1 } })

/-- Stores an output, in place of the previous entry at the position if there is one. -/
def store (table : Table Input Output) (position : Position) (fingerprint : ContentHash)
    (inputs : Input) (output : Output) :
    Except TableError (Arena.Id × Table Input Output) :=
  let entry := { position, fingerprint, inputs, output, generation := table.generation }
  let stats := { table.stats with stores := table.stats.stores + 1 }
  match table.index.lookup position with
  | some id =>
      match table.entries.get? id with
      | some _ => .ok (id, { table with entries := table.entries.set id entry, stats })
      | none => .error (.dangling table.name position)
  | none =>
      let id := table.entries.next
      .ok (id,
        { table with
          entries := table.entries.push entry
          index := (position, id) :: table.index
          stats })

/-- Marks every entry at or below a position as used in this generation. -/
def keepSubtree (table : Table Input Output) (root : Position) : Table Input Output :=
  { table with liveRoots := root :: table.liveRoots }

/-- Whether a sweep keeps an entry. -/
def isLive (table : Table Input Output) (entry : Entry Input Output) : Bool :=
  entry.generation = table.generation ||
    entry.position.ancestors.any fun ancestor => table.liveRoots.contains ancestor

/-- Drops every entry that this generation did not use, and tells how many. -/
def sweep (table : Table Input Output) : Nat × Table Input Output :=
  let survivors := (table.entries.compact fun _ entry => table.isLive entry).1
  let evicted := table.size - survivors.size
  (evicted,
    { table with
      entries := survivors
      index := survivors.entries.map fun entry => (entry.2.position, entry.1)
      stats := { table.stats with evictions := table.stats.evictions + evicted } })

/-- Drops every entry. -/
def clear (table : Table Input Output) : Table Input Output :=
  { table with
    entries := .empty
    index := []
    liveRoots := []
    stats := { table.stats with evictions := table.stats.evictions + table.size } }

end Table

end Phrasing.Memo
