/-
# The barriers of a relocating heap

* The *load-reference barrier* gives the copy of an object that the program may use.  While
  evacuation runs it makes that copy itself if nobody did.
* The *pre-write barrier* records the reference that a slot is about to lose, while marking.
* The *card barrier* marks the region of a slot that was written.
* A compare-and-swap that finds another copy of the expected object tries once more with it.

The barriers of mutators and those of compiled code are the same functions; they differ in
the buffer they record in.
-/
import ManagedHeap.RegionHeap.Allocation

namespace ManagedHeap.RegionHeap

/-! ## 1. Evacuation of one object -/

/-- Let an object that finds no room elsewhere stay where it is. -/
def selfForward (object : Nat) : Action RegionHeap Nat := do
  let i ← regionOfObject object
  onRegion i Region.setEvacFailed
  match ← onMemory (Object.install object object) with
  | .error winner => return winner
  | .ok object =>
    modifyCycleStats fun s => { s with evacuationFailures := s.evacuationFailures + 1 }
    note (.noRoomFor object)
    return object

/-- Copy an object and make the copy its forwardee.  The copy is an object of its region before
anyone can reach it; when another copy was first, it stops being one. -/
def evacuateTo (object dst size : Nat) : Action RegionHeap Nat := do
  let copy ← onMemory (Object.copy object dst)
  let i ← regionOfObject copy
  onRegion i (Region.setStart copy)
  match ← onMemory (Object.install object copy) with
  | .error winner =>
    onRegion i (Region.clearStart copy)
    return winner
  | .ok copy =>
    modifyCycleStats fun s => { s with evacuatedBytes := s.evacuatedBytes + size }
    return copy

/-- The copy of an object, which is made if there is none. -/
def evacuateObject (object : Nat) : Action RegionHeap Nat := do
  let m ← getMemory
  match Object.forwardee? m object with
  | some copy => return copy
  | none =>
    let size := Object.size m object
    match ← allocateIn size .evacuation with
    | none => selfForward object
    | some dst => evacuateTo object dst size

/-! ## 2. Loads -/

/-- The copy of an object that the program may use, while copies exist. -/
def currentCopy (value : Nat) : Action RegionHeap Nat := do
  let m ← getMemory
  match Object.forwardee? m value with
  | some copy => return copy
  | none =>
    let i ← regionOfObject value
    let r ← getRegion i
    if r.state = .relocating then
      let h ← get
      if h.gcState.evacuation then evacuateObject value
      else throw (.violation (.notEvacuated value i))
    else
      return value

/-- Write a resolved reference back to the slot it was loaded from, if the slot still holds
what was loaded. -/
def heal (slot : Option Nat) (value resolved : Nat) : Action RegionHeap Unit := do
  let h ← get
  if resolved ≠ value ∧ h.core.options.selfHealing then
    match slot with
    | none => pure ()
    | some slot =>
      match ← exchangeSlot slot value resolved with
      | .error _ => pure ()
      | .ok () => modifyBarrierStats fun s => { s with selfHeals := s.selfHeals + 1 }

/-- The load-reference barrier. -/
def loadBarrier (slot : Option Nat) (value : Nat) : Action RegionHeap Nat := do
  let h ← get
  if value = null ∨ !h.gcState.hasForwarded then
    return value
  else
    modifyBarrierStats fun s => { s with lrbSlowPaths := s.lrbSlowPaths + 1 }
    let resolved ← currentCopy value
    heal slot value resolved
    return resolved

/-! ## 3. Stores -/

/-- The pre-write barrier. -/
def writePre (buffer slot : Nat) : Action RegionHeap Unit := do
  let h ← get
  if h.gcState.marking then
    let old ← loadSlot slot
    if old ≠ null then
      modifyBarrierStats fun s => { s with satbEnqueues := s.satbEnqueues + 1 }
      modifySatb (·.enqueue buffer old)

/-- The card barrier.  A slot outside of the heap has no region. -/
def cardMark (slot : Nat) : Action RegionHeap Unit := do
  let h ← get
  if h.core.options.cardBarrier then
    match h.space.indexOf? slot with
    | none => pure ()
    | some i =>
      modifyBarrierStats fun s => { s with cardMarks := s.cardMarks + 1 }
      onRegion i Region.markDirty

/-! ## 4. Compare-and-swap -/

/-- The second attempt, with the copy that the slot was found to hold. -/
def exchangeAgain (slot witness new : Nat) : Action RegionHeap CasOutcome := do
  modifyBarrierStats fun s => { s with casRetries := s.casRetries + 1 }
  match ← exchangeSlot slot witness new with
  | .ok () => return .successAfterRetry
  | .error witness => return .failure witness

/-- The compare-and-swap without its other barriers. -/
def exchangeCopies (slot expected new : Nat) : Action RegionHeap CasOutcome := do
  match ← exchangeSlot slot expected new with
  | .ok () => return .success
  | .error witness =>
    let h ← get
    let m ← getMemory
    if h.gcState.hasForwarded ∧ witness ≠ null ∧ expected ≠ null ∧
        Object.resolve m witness = Object.resolve m expected then
      exchangeAgain slot witness new
    else
      return .failure witness

/-- A compare-and-swap with its barriers. -/
def exchange (buffer slot expected new : Nat) : Action RegionHeap CasOutcome := do
  writePre buffer slot
  let outcome ← exchangeCopies slot expected new
  if outcome.isSuccess then cardMark slot
  return outcome

/-! ## 5. Copies and clones -/

/-- Before a run of slots is overwritten, record what they lose. -/
def copyPre (buffer : Nat) (range : SlotRange) : Action RegionHeap Unit := do
  let h ← get
  if h.gcState.marking then
    Action.upTo 0 range.length fun i => do
      let slot ← range.slot i
      writePre buffer slot

/-- After a run of slots was overwritten, mark the regions of its ends. -/
def copyPost (range : SlotRange) : Action RegionHeap Unit := do
  if range.length ≠ 0 then
    let first ← range.slot 0
    cardMark first
    let last ← range.slot (range.length - 1)
    cardMark last

/-- Before an object is copied word by word, resolve its fields in place, so that the copy
holds no stale reference. -/
def clonePre (object : Nat) : Action RegionHeap Unit := do
  let h ← get
  if h.gcState.hasForwarded then
    Object.eachSlot (HasMemory.memory (σ := RegionHeap)) object fun slot => do
      let value ← loadSlot slot
      let resolved ← loadBarrier none value
      if resolved ≠ value then
        let _ ← exchangeSlot slot value resolved

/-- The barriers of mutators. -/
def barriers : BarrierHooks RegionHeap where
  flush buffer := modifySatb (·.flush buffer)
  writePre := writePre
  writePost := cardMark
  load := loadBarrier
  exchange := exchange
  copyPre := copyPre
  copyPost := copyPost
  clonePre := clonePre

end ManagedHeap.RegionHeap
