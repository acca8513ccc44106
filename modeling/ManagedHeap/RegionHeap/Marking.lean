/-
# Marking

Marking reaches every object that is reachable from the roots.  A marked object is *grey*
until its fields were traced.  Work comes from two places: grey objects, and the completed
buffers of references that mutators overwrote while marking ran.  Marking is over when
neither is left.

An object is marked once, so it is grey once; each completed buffer is taken once.  A heap has
no more objects than words, which bounds the number of steps.
-/
import ManagedHeap.RegionHeap.Barriers

namespace ManagedHeap.RegionHeap

/-! ## 1. Marking one object -/

/-- Change the mark queue. -/
def modifyQueue (f : MarkQueue → MarkQueue) : Action RegionHeap Unit :=
  modify fun h => { h with queue := f h.queue }

/-- Forget the grey objects and the count of marked ones. -/
def clearQueue : Action RegionHeap Unit := modifyQueue fun _ => {}

/-- Mark an object.  Gives whether it was not marked and has to be traced. -/
def markObject (object : Nat) : Action RegionHeap Bool := do
  let i ← regionOfObject object
  let m ← getMemory
  onRegion i (Region.mark m object)

/-- Mark an object, and make it grey if that marked it. -/
def markAndPush (object : Nat) : Action RegionHeap Unit := do
  if object ≠ null then
    if ← markObject object then
      modifyQueue fun q => { grey := q.grey.push object, marked := q.marked + 1 }

/-- Mark what a slot refers to. -/
def markSlot (slot : Nat) : Action RegionHeap Unit := do
  let value ← loadSlot slot
  markAndPush value

/-! ## 2. The work of marking -/

/-- Trace the fields of the oldest grey object, or else mark the entries of the oldest completed
buffer.  Gives whether there was either. -/
def markStep : Action RegionHeap Bool := do
  let h ← get
  match h.queue.grey.pop? with
  | some (object, rest) =>
    set { h with queue := { h.queue with grey := rest } }
    Object.eachSlot (HasMemory.memory (σ := RegionHeap)) object markSlot
    return true
  | none =>
    match h.satb.pop with
    | (some entries, satb) =>
      set { h with satb }
      Action.each entries markAndPush
      return true
    | (none, _) => return false

/-- Mark until no work is left, in fewer than the given number of steps. -/
def markSteps : Nat → Action RegionHeap Unit
  | 0 => throw .stalled
  | steps + 1 => do
    if ← markStep then markSteps steps

/-- More steps than marking can take: one for each grey object, each completed buffer, and each
word of the heap, at which an object may start that is not marked yet. -/
def markBound (h : RegionHeap) : Nat :=
  h.queue.grey.size + h.satb.completed.size + h.maxCapacity / wordBytes + 1

/-- Mark until no work is left; not at all, if the cycle was cancelled and marking may stop.
Gives whether marking is over. -/
def drain (cancellable : Bool) : Action RegionHeap Bool := do
  let h ← get
  if cancellable && h.cancelRequested then
    return false
  else
    markSteps h.markBound
    return true

end ManagedHeap.RegionHeap
