/-
# Counters for the management of a heap

Snapshots of the occupancy of a heap and totals of its collections.  A heap refreshes the
occupancy at its own pace, so it lags behind.
-/
import ManagedHeap.Fault

namespace ManagedHeap

/-- Counters of a heap under the names that its management knows. -/
structure Usage where
  pool : String
  manager : String
  used : Nat := 0
  committed : Nat := 0
  most : Nat := 0
  collections : Nat := 0
  /-- The time of all collections in nanoseconds, counted in a word. -/
  collectionTime : Nat := 0
  deriving DecidableEq, Repr

namespace Usage

/-- Nanoseconds in a second. -/
def second : Nat := 1000000000

/-- A time in nanoseconds, given in seconds and nanoseconds.  Its whole seconds must fit in a
word. -/
def time (seconds nanoseconds : Nat) : Except Fault Nat := do
  let whole ← sum seconds (nanoseconds / second)
  return whole * second + nanoseconds % second

/-- Refresh the occupancy. -/
def update (u : Usage) (used committed most : Nat) : Usage := { u with used, committed, most }

/-- Count a collection that took some nanoseconds. -/
def record (u : Usage) (time : Nat) : Usage :=
  { u with
    collections := u.collections + 1, collectionTime := (u.collectionTime + time) % wordLimit }

end Usage

end ManagedHeap
