/-
# Bump allocation

A space hands out the addresses from `bottom` up to `limit` in order.  `top` is the bound
between what is allocated and what is free; it moves up with each allocation and goes back
only when the whole space is emptied.  `limit` moves up when memory is committed behind it.
-/
import ManagedHeap.Fault

namespace ManagedHeap

/-- A space that allocates by moving a bound. -/
structure BumpSpace where
  name : String
  bottom : Nat
  top : Nat
  limit : Nat
  deriving DecidableEq, Repr

namespace BumpSpace

/-- An empty space. -/
def make (name : String) (bottom limit : Nat) : Except Fault BumpSpace := do
  require (bottom ≤ limit)
  return ⟨name, bottom, bottom, limit⟩

/-- Allocated bytes. -/
def used (s : BumpSpace) : Nat := s.top - s.bottom

/-- All bytes of the space. -/
def capacity (s : BumpSpace) : Nat := s.limit - s.bottom

/-- Bytes that are free. -/
def free (s : BumpSpace) : Nat := s.limit - s.top

/-- Whether an address is in the allocated part. -/
def contains (s : BumpSpace) (a : Nat) : Bool := s.bottom ≤ a && a < s.top

/-- Allocate `size` bytes, if that many are free. -/
def allocate (size : Nat) : Action BumpSpace (Option Nat) := do
  let s ← get
  require (size % objectAlignment = 0)
  let room ← distance s.limit s.top
  if room < size then
    return none
  else
    set { s with top := s.top + size }
    return some s.top

/-- Move the limit up. -/
def setLimit (limit : Nat) : Action BumpSpace Unit := do
  let s ← get
  require (s.limit ≤ limit)
  set { s with limit }

/-- Empty the space. -/
def reset : Action BumpSpace Unit := modify fun s => { s with top := s.bottom }

end BumpSpace

end ManagedHeap
