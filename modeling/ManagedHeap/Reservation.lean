/-
# Reserved address ranges

    low                 high                                    boundary
     |---- committed ----|------------- reserved only --------------|

A range of addresses is reserved as a whole and committed from its low end, page by page.
The committed part only grows.  Fresh memory reads as zero.

The system grants every reservation whose pages, with room to align it, stay below
`reservationLimit`.  The range starts at the first aligned address from its place on.
-/
import ManagedHeap.Memory
import ManagedHeap.HeapError
import ManagedHeap.Options.Setting
import ManagedHeap.Place

namespace ManagedHeap

/-- A reserved range with a committed part. -/
structure Reservation where
  low : Nat
  high : Nat
  boundary : Nat
  deriving DecidableEq, Repr

namespace Reservation

/-- Committed bytes. -/
def committed (r : Reservation) : Nat := r.high - r.low

/-- Reserved bytes, committed or not. -/
def reserved (r : Reservation) : Nat := r.boundary - r.low

/-- Reserved bytes that are not committed. -/
def uncommitted (r : Reservation) : Nat := r.boundary - r.high

/-- Whether an address is in the range. -/
def contains (r : Reservation) (a : Nat) : Bool := r.low ≤ a && a < r.boundary

/-- Commit the next `bytes` bytes. -/
def expand (bytes : Nat) : Action Reservation (Except HeapError Unit) := do
  let r ← get
  require (isAligned bytes pageBytes = true)
  let left ← distance r.boundary r.high
  if left < bytes then
    return .error (.expansion r.high bytes)
  else
    set { r with high := r.high + bytes }
    return .ok ()

/-- Reserve a range aligned to `alignment` and commit its first bytes. -/
def make (place : Place) (reserved committed alignment : Nat) :
    Except Fault (Except HeapError Reservation) := do
  require (isPowerOfTwo alignment = true ∧ pageBytes ≤ alignment)
  require (isAligned reserved pageBytes = true)
  require (committed ≤ reserved)
  let mapping ← sum reserved alignment
  if reservationLimit ≤ mapping then
    return .error (.reservation reserved)
  else
    require (isAligned committed pageBytes = true)
    let low := alignUp place.address alignment
    return .ok ⟨low, low + committed, low + reserved⟩

/-- Give the committed pages from `start` on back to the system and commit them again, so
that they read as zero.  The system refuses an empty range and one that does not start at a
page. -/
def clear (r : Reservation) (start bytes : Nat) : Action Memory Bool := do
  require (r.low ≤ start)
  let last ← sum start bytes
  require (last ≤ r.high)
  if bytes = 0 ∨ start % pageBytes ≠ 0 then
    return false
  else
    modify (·.clear start (alignUp bytes pageBytes))
    return true

end Reservation

end ManagedHeap
