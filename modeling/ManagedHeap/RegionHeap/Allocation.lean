/-
# Allocation in a relocating heap

Mutators allocate single objects and buffers.  When that finds no room, the controller is
asked for a cycle, if there is one; nobody waits for it here.
-/
import ManagedHeap.RegionHeap.State

namespace ManagedHeap.RegionHeap

/-- Allocate in the regions. -/
def allocateIn (size : Nat) (kind : AllocKind) : Action RegionHeap (Option Nat) :=
  onSpace (RegionSpace.allocate size kind)

/-- Ask the controller for a cycle without waiting for it.  While one such request waits,
further ones are dropped. -/
def requestCycle (cause : Cause) : Action RegionHeap Unit := do
  let h ← get
  match h.controller with
  | none => pure ()
  | some c =>
    if c.pending.isNone then
      set { h with controller := some { c with pending := some cause } }
      if c.stopped then note (.controllerGone cause)

/-- Allocate outside of buffers. -/
def allocate (size : Nat) : Action RegionHeap (Option Nat) := do
  require (size % objectAlignment = 0)
  match ← allocateIn size .shared with
  | some a => return some a
  | none =>
    requestCycle .allocationFailure
    return none

/-- Allocate a buffer of some size, or else one of the least size that serves. -/
def allocateTlabOf (size smallest : Nat) : Action RegionHeap (Option (Nat × Nat)) := do
  match ← allocateIn size .tlab with
  | some start => return some (start, size)
  | none =>
    if smallest < size then
      let start ← allocateIn smallest .tlab
      return start.map (·, smallest)
    else
      return none

/-- Allocate a buffer. -/
def allocateTlab (sizing : TlabSizing) (minSize : Nat) :
    Action RegionHeap (TlabSizing × Option (Nat × Nat)) := do
  let h ← get
  let (sizing, size) ← sizing.next minSize h.maxTlab h.core.options h.core.clock
  match size with
  | none => return (sizing, none)
  | some size =>
    match ← allocateTlabOf size (max minSize h.core.options.minTlabSize) with
    | some (start, bytes) => return (sizing.record bytes h.core.clock, some (start, bytes))
    | none =>
      requestCycle .allocationFailure
      return (sizing, none)

/-- A buffer will not be allocated from any more. -/
def retireTlab (start : Nat) : Action RegionHeap Unit := onSpace (RegionSpace.retireTlab start)

end ManagedHeap.RegionHeap
