import Phrasing.Json.Basic

/-!
# Counters of a memo table

Every lookup counts once, as a hit or as one of three sorts of miss.  Every store counts once, and
every entry that leaves the table counts as evicted.
-/

namespace Phrasing.Memo

/-- The running counters of a table. -/
structure Stats where
  /-- Lookups that returned a stored output. -/
  hits : Nat := 0
  /-- Lookups where nothing was stored. -/
  vacant : Nat := 0
  /-- Lookups where the stored fingerprint differed. -/
  stale : Nat := 0
  /-- Lookups where the fingerprint agreed and the inputs differed. -/
  collisions : Nat := 0
  /-- Stored outputs, replacements included. -/
  stores : Nat := 0
  /-- Dropped entries. -/
  evictions : Nat := 0
  deriving DecidableEq

namespace Stats

/-- The lookups that did not return a stored output. -/
def misses (stats : Stats) : Nat :=
  stats.vacant + stats.stale + stats.collisions

/-- All lookups. -/
def lookups (stats : Stats) : Nat :=
  stats.hits + stats.misses

/-- The JSON form of the counters. -/
def toJson (stats : Stats) : Json :=
  .object [("hits", .nat stats.hits), ("vacant", .nat stats.vacant), ("stale", .nat stats.stale),
    ("collisions", .nat stats.collisions), ("stores", .nat stats.stores),
    ("evictions", .nat stats.evictions)]

end Stats

end Phrasing.Memo
