/-
# Allocation buffers

A mutator allocates from a buffer of its own, a range it got from the heap, by moving the
cursor.  When the buffer is used up it is retired and the heap is asked for a new one.  The
buffer at address zero stands for none.
-/
import ManagedHeap.Fault

namespace ManagedHeap

/-- A mutator's allocation buffer. -/
structure Tlab where
  start : Nat := 0
  cursor : Nat := 0
  limit : Nat := 0
  deriving DecidableEq, Repr

namespace Tlab

/-- Whether there is no buffer. -/
def isEmpty (t : Tlab) : Bool := t.start == 0

/-- The size of the buffer. -/
def size (t : Tlab) : Except Fault Nat := distance t.limit t.start

/-- Bytes allocated from the buffer. -/
def used (t : Tlab) : Except Fault Nat := distance t.cursor t.start

/-- Bytes left in the buffer. -/
def free (t : Tlab) : Except Fault Nat := distance t.limit t.cursor

/-- Start to use a new buffer.  The buffer is in use before its end is known. -/
def reset (start size : Nat) : Action Tlab Unit := do
  modify fun t => { t with start, cursor := start }
  let limit ← sum start size
  modify fun t => { t with limit }

/-- Allocate `size` bytes, if the buffer has them. -/
def allocate (size : Nat) : Action Tlab (Option Nat) := do
  let t ← get
  require (size % objectAlignment = 0)
  let cursor ← sum t.cursor size
  if t.limit < cursor ∨ t.isEmpty then
    return none
  else
    set { t with cursor }
    return some t.cursor

/-- Give up the buffer, if there is one. -/
def retire : Action Tlab (Option Tlab) := do
  let t ← get
  if t.isEmpty then
    return none
  else
    set ({} : Tlab)
    return some t

end Tlab

end ManagedHeap
