/-
# Roots

A root is a word outside of the heap that holds a reference the embedding program keeps.
While a root is registered the collector sees it and updates it.  A root that was dropped
counts until the next scan, which forgets it.

Root cells are numbered in the order of their registration; the cell `n` is the `n`-th word
from `rootBase` on, which is above every reservation.
-/
import ManagedHeap.Memory

namespace ManagedHeap

/-- Where root cells are. -/
def rootBase : Nat := 1 <<< 52

/-- A registered root. -/
structure RootCell where
  slot : Nat
  /-- Whether the program still has it. -/
  live : Bool := true
  deriving DecidableEq, Repr

/-- The registered roots, the oldest first. -/
structure RootSet where
  cells : List RootCell := []
  /-- How many roots were ever registered. -/
  registered : Nat := 0
  deriving DecidableEq, Repr

namespace RootSet

/-- Registered roots, and those dropped since the last scan. -/
def size (r : RootSet) : Nat := r.cells.length

/-- The slot of the next root. -/
def nextSlot (r : RootSet) : Nat := rootBase + wordBytes * r.registered

/-- Register a root. -/
def register (r : RootSet) : RootSet :=
  { cells := r.cells ++ [{ slot := r.nextSlot }], registered := r.registered + 1 }

/-- Drop the root with a slot. -/
def drop (r : RootSet) (slot : Nat) : RootSet :=
  { r with cells := r.cells.map fun c => if c.slot = slot then { c with live := false } else c }

/-- Drop all roots. -/
def dropAll (r : RootSet) : RootSet :=
  { r with cells := r.cells.map fun c => { c with live := false } }

/-- Forget the roots that were dropped. -/
def prune (r : RootSet) : RootSet := { r with cells := r.cells.filter (·.live) }

/-- The slots of the roots that were not dropped. -/
def slots (r : RootSet) : List Nat := (r.cells.filter (·.live)).map (·.slot)

/-- Register a root that holds a reference.  Gives its slot. -/
def newRoot (value : Nat) : Action (RootSet × Memory) Nat := do
  let (r, m) ← get
  set (r.register, m.write r.nextSlot value)
  return r.nextSlot

/-- The slots to scan; roots that were dropped are forgotten. -/
def scan : Action RootSet (List Nat) := do
  let r ← get
  set r.prune
  return r.slots

end RootSet

end ManagedHeap
