/-
# Stopping the mutators

Mutators are *joined* while they work on the heap.  A collector that needs them stopped
requests it, waits until none is joined, does its work, and lets them back in.  A mutator
that sees the request leaves and joins again; it cannot join while a request is pending.

One thing happens at a time here, so waiting for something that no later action can do is a
fault: a collector that requests a stop while a mutator is joined is `stalled`, and so is a
mutator that joins while a request is pending.
-/
import ManagedHeap.Fault

namespace ManagedHeap

/-- The mutators that a collector may have to stop. -/
structure Safepoint where
  /-- How many mutators are joined. -/
  joined : Nat := 0
  /-- A collector waits for, or does, work that needs the mutators stopped. -/
  pending : Bool := false
  /-- How often a collector has done such work. -/
  completed : Nat := 0
  deriving DecidableEq, Repr

namespace Safepoint

/-- Enter the set of joined mutators. -/
def join : Action Safepoint Unit := do
  let s ← get
  if s.pending then
    throw .stalled
  else
    set { s with joined := s.joined + 1 }

/-- Leave the set of joined mutators. -/
def leave : Action Safepoint Unit := do
  let s ← get
  require (0 < s.joined)
  set { s with joined := s.joined - 1 }

/-- Begin work that needs the mutators stopped. -/
def request : Action Safepoint Unit := do
  let s ← get
  if s.joined ≠ 0 then
    throw .stalled
  else
    set { s with pending := true }

/-- End that work. -/
def release : Action Safepoint Unit :=
  modify fun s => { s with pending := false, completed := s.completed + 1 }

/-- A mutator's look for a request.  Gives whether it left and joined again. -/
def poll : Action Safepoint Bool := do
  let s ← get
  if s.pending then
    leave
    join
    return true
  else
    return false

/-- What a mutator and a collector see of each other when the one polls while the other
waits for it. -/
structure Meeting where
  /-- Whether the mutator yielded. -/
  yielded : Bool
  /-- How many mutators were joined while the collector worked. -/
  joinedInside : Nat
  deriving DecidableEq, Repr

/-- A collector requests a stop while exactly one mutator is joined, which polls: it leaves,
the collector works, and the mutator joins again. -/
def meet : Action Safepoint Meeting := do
  let s ← get
  if s.joined ≠ 1 then
    throw .stalled
  else
    modify fun s => { s with pending := true }
    leave
    let inside ← get
    release
    join
    return ⟨true, inside.joined⟩

end Safepoint

end ManagedHeap
