/-
# The collection cycle

A cycle has six steps:

1. `initMark` takes a snapshot of the tops of the regions and marks the roots;
2. `concurrentMark` marks while mutators run;
3. `finalMark` finishes marking and chooses the regions to relocate;
4. `evacuate` copies the live objects out of these regions;
5. `updateRefs` makes roots and fields refer to the copies;
6. `recycle` empties the relocated regions.

A step that is called out of turn does nothing but report that.  A cycle can be cancelled while
it marks; once it relocates, it runs to its end.  A region of which some object found no room
elsewhere is kept, with the objects that stayed.
-/
import ManagedHeap.RegionHeap.Marking

namespace ManagedHeap.RegionHeap

/-! ## 1. The end of a cycle -/

/-- A cycle was completed. -/
def finishCycle : Action RegionHeap Unit := do
  let h ← get
  let elapsed := (h.cycleStart.map (h.core.clock - ·)).getD 0
  set { h with
    cycleStart := none
    cycleStats := { h.cycleStats with completed := h.cycleStats.completed + 1 }
    usedAtLastCycle := h.used
    core := { h.core with usage := h.core.usage.record elapsed } }
  updateUsage

/-- A cycle was cancelled: forget what it marked. -/
def abandonMarking : Action RegionHeap Unit := do
  setGcState .idle
  modifySatb (·.abandon)
  clearQueue
  setPhase .idle
  modifyCycleStats fun s => { s with cancelled := s.cancelled + 1 }
  modify fun h => { h with cycleStart := none }
  note .markingAbandoned

/-- Run a step of the cycle in its phase.  In another phase, report that it was skipped and give
`otherwise`. -/
def inPhase {α : Type} (phase : CyclePhase) (step : String) (otherwise : α)
    (act : Action RegionHeap α) : Action RegionHeap α := do
  let h ← get
  if h.phase = phase then
    act
  else
    note (.stepSkipped step h.phase.name)
    return otherwise

/-! ## 2. Marking -/

/-- Take a snapshot of the top of a region in use. -/
def prepareRegion (i : Nat) : Action RegionHeap Unit := do
  let r ← getRegion i
  if !r.isEmpty then onRegion i Region.prepareForMark

/-- Start a cycle.  Gives whether one was started. -/
def initMark : Action RegionHeap Bool :=
  synchronize do
    inPhase .idle "Init mark" false do
      modify fun h => { h with cycleStart := some h.core.clock, cancelRequested := false }
      clearQueue
      eachRegion prepareRegion
      let slots ← scanRoots
      Action.each slots markSlot
      setGcState .duringMark
      setPhase .concurrentMark
      let h ← get
      note (.initMark h.core.roots.size h.used)
      return true

/-- Mark while mutators run.  Gives whether marking is over, or else the cycle was cancelled. -/
def concurrentMark : Action RegionHeap Bool :=
  inPhase .concurrentMark "Concurrent mark" false do
    let completed ← drain true
    if !completed then synchronize abandonMarking
    return completed

/-- End the marking of a region that mutators allocate in.  Gives it as a candidate for
relocation, unless it is still allocated from. -/
def endMarking (i : Nat) : Action RegionHeap (Option Candidate) := do
  let r ← getRegion i
  if r.state = .allocating then
    onRegion i (Region.transition .allocating .marked)
    let h ← get
    if !h.space.isCurrent i && r.activeTlabs = 0 then
      let live ← r.liveBytes
      let garbage ← r.garbageBytes
      return some ⟨i, live, garbage⟩
    else
      return none
  else
    return none

/-- End the marking of the regions from `i` on, `count` of them.  Gives the candidates in
order. -/
def candidatesFrom (i : Nat) : Nat → Action RegionHeap (List Candidate)
  | 0 => return []
  | count + 1 => do
    let first ← endMarking i
    let rest ← candidatesFrom (i + 1) count
    return first.toList ++ rest

/-- Let a marked region be allocated in again. -/
def releaseRegion (i : Nat) : Action RegionHeap Unit := do
  let r ← getRegion i
  if r.state = .marked then onRegion i (Region.transition .marked .allocating)

/-- The garbage of some regions. -/
def garbageOf : List Nat → Action RegionHeap Nat
  | [] => return 0
  | i :: rest => do
    let r ← getRegion i
    let garbage ← r.garbageBytes
    let others ← garbageOf rest
    return garbage + others

/-- Choose the regions to relocate, and report on the marking. -/
def chooseRegions : Action RegionHeap (List Nat) := do
  let h ← get
  let candidates ← candidatesFrom 0 h.space.committed
  let h ← get
  let chosen := CyclePolicy.choose h.core.options h.status candidates
  Action.each chosen fun i => onRegion i (Region.transition .marked .relocating)
  eachRegion releaseRegion
  let garbage ← garbageOf chosen
  note (.finalMark h.queue.marked chosen.length candidates.length garbage)
  return chosen

/-- Finish marking and choose the regions to relocate.  Gives whether there are any; a cycle
without them is over. -/
def finalMark : Action RegionHeap Bool :=
  inPhase .concurrentMark "Final mark" false do
    synchronize do
      modifySatb (·.flushAll)
      let _ ← drain false
      let h ← get
      if h.cancelRequested then
        abandonMarking
        return false
      else
        setGcState .idle
        let chosen ← chooseRegions
        if chosen.isEmpty then
          setPhase .idle
          finishCycle
          return false
        else
          setGcState .duringEvacuation
          setPhase .concurrentRelocate
          return true

/-! ## 3. Relocation -/

/-- Copy the live objects out of a region that is relocated. -/
def evacuateRegion (i : Nat) : Action RegionHeap Unit := do
  let r ← getRegion i
  if r.state = .relocating then
    let objects ← r.liveObjects
    Action.each objects fun object => do
      let _ ← evacuateObject object

/-- Copy the live objects out of the regions that are relocated. -/
def evacuate : Action RegionHeap Unit :=
  inPhase .concurrentRelocate "Evacuation" () do
    eachRegion evacuateRegion
    synchronize (setGcState .duringUpdate)
    let h ← get
    note (.evacuationDone h.cycleStats.evacuatedBytes)

/-- Make a slot refer to the copy of its object. -/
def updateSlot (slot : Nat) : Action RegionHeap Unit := do
  let value ← loadSlot slot
  if value ≠ null then
    let m ← getMemory
    match Object.forwardee? m value with
    | none => pure ()
    | some copy =>
      if copy ≠ value then
        let _ ← exchangeSlot slot value copy

/-- Make the fields of an object refer to copies.  An object that was moved out of a region that
is kept is skipped. -/
def updateObject (kept : Bool) (object : Nat) : Action RegionHeap Unit := do
  let m ← getMemory
  if kept && !Object.isSelfForwarded m object && Object.isForwarded m object then
    return
  else
    Object.eachSlot (HasMemory.memory (σ := RegionHeap)) object updateSlot

/-- Make the fields of the live objects of a region refer to copies.  A region of which all
objects were moved is skipped. -/
def updateRegion (i : Nat) : Action RegionHeap Unit := do
  let r ← getRegion i
  if r.isEmpty || (r.state == .relocating && !r.evacFailed) then
    return
  else
    let objects ← r.liveObjects
    Action.each objects (updateObject (r.state == .relocating))

/-- Make the roots and the fields of the live objects refer to copies. -/
def updateRefs : Action RegionHeap Unit :=
  inPhase .concurrentRelocate "Update refs" () do
    let slots ← scanRoots
    Action.each slots updateSlot
    eachRegion updateRegion

/-! ## 4. Recycling -/

/-- Run an action on one region and the memory. -/
def onRegionAndMemory {α : Type} (i : Nat) (act : Action (Region × Memory) α) :
    Action RegionHeap α := do
  let r ← getRegion i
  act.onPart (fun h => (r, h.core.memory)) fun (r, memory) h =>
    { h with space := h.space.putRegion i r, core := { h.core with memory } }

/-- Empty the relocated ones among the regions from `i` on, `count` of them, or keep them if some
object could not be moved.  Gives how many were emptied and how many were kept. -/
def recycleFrom (i : Nat) : Nat → Action RegionHeap (Nat × Nat)
  | 0 => return (0, 0)
  | count + 1 => do
    let r ← getRegion i
    if r.state = .relocating then
      if r.evacFailed then
        onRegionAndMemory i Region.recover
        let (freed, kept) ← recycleFrom (i + 1) count
        return (freed, kept + 1)
      else
        onSpaceAndMemory (RegionSpace.recycle i)
        let (freed, kept) ← recycleFrom (i + 1) count
        return (freed + 1, kept)
    else
      recycleFrom (i + 1) count

/-- End the cycle: stop the barriers and empty the relocated regions. -/
def recycle : Action RegionHeap Unit :=
  inPhase .concurrentRelocate "Recycle" () do
    synchronize (setGcState .idle)
    let h ← get
    let (freed, kept) ← recycleFrom 0 h.space.committed
    modifyCycleStats fun s => { s with recycledRegions := s.recycledRegions + freed }
    setPhase .idle
    let h ← get
    note (.recycled freed kept h.used)
    finishCycle

/-! ## 5. Whole cycles -/

/-- Ask a cycle to stop.  Gives whether it will; it will not once it relocates. -/
def cancel : Action RegionHeap Bool := do
  let h ← get
  if h.phase = .concurrentMark then
    set { h with cancelRequested := true }
    note .cancelling
    return true
  else
    note (.cancelIgnored h.phase.name)
    return false

/-- The steps after marking. -/
def relocate : Action RegionHeap Unit := do
  evacuate
  updateRefs
  recycle

/-- A whole cycle.  Gives whether it was completed. -/
def cycle : Action RegionHeap Bool := do
  if !(← initMark) then
    return false
  else if !(← concurrentMark) then
    return false
  else if !(← finalMark) then
    let h ← get
    return !h.cancelRequested
  else
    relocate
    return true

end ManagedHeap.RegionHeap
