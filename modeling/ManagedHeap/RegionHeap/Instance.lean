/-
# The relocating heap as a heap

What makes a `RegionHeap` one of the heaps that mutators work on.
-/
import ManagedHeap.RegionHeap.Control
import ManagedHeap.RegionHeap.Verification

namespace ManagedHeap.RegionHeap

/-- Announce a new object.  While marking runs it is marked, unless it is above the snapshot. -/
def postAlloc (object : Nat) : Action RegionHeap Unit := do
  let i ← regionOfObject object
  onRegion i (Region.setStart object)
  let h ← get
  if h.gcState.marking then
    let m ← getMemory
    let _ ← onRegion i (Region.mark m object)

/-- Register a buffer for the references that a new mutator overwrites.  Gives its number. -/
def registerBuffer : Action RegionHeap Nat := do
  let h ← get
  modifySatb (·.register)
  return h.satb.registered

instance : Heap RegionHeap where
  core := RegionHeap.core
  setCore core h := { h with core }
  name := name
  constraints := Constraints.shenandoah
  barriers := barriers
  used := used
  start h := h.space.range.low
  capacity := capacity
  maxCapacity := maxCapacity
  maxTlab := RegionHeap.maxTlab
  contains h a := h.space.contains a
  info := info
  safepoint? h := some h.safepoint
  setSafepoint safepoint h := { h with safepoint }
  allocate := allocate
  allocateTlab := allocateTlab
  retireTlab := retireTlab
  postAlloc := postAlloc
  collect := collect
  idle := takeUp
  verify := verify
  registerBuffer := registerBuffer
  recorded? h buffer := some (h.satb.entries buffer).size
  dropBuffer buffer := modifySatb (·.drop buffer)
  close := close

end ManagedHeap.RegionHeap
