/-
# The state of a relocating heap

The heap of regions, the phase of the current cycle, and what the cycle and the barriers
share.  A cycle goes from `idle` through `concurrentMark` and `concurrentRelocate` back to
`idle`; the barriers do not look at the phase but at the flags of `GcState`.
-/
import ManagedHeap.CyclePolicy
import ManagedHeap.Heap
import ManagedHeap.Options.Agreement
import ManagedHeap.Region.Space
import ManagedHeap.SatbQueues

namespace ManagedHeap

/-! ## 1. Parts of the state -/

/-- What the barriers have to do. -/
structure GcState where
  /-- Marking runs: overwritten references are recorded. -/
  marking : Bool := false
  /-- Some objects may be forwarded: loaded references are resolved. -/
  hasForwarded : Bool := false
  /-- Evacuation runs: a barrier may copy an object. -/
  evacuation : Bool := false
  /-- References are being updated: every live object has been copied. -/
  updateRefs : Bool := false
  deriving DecidableEq, Repr

namespace GcState

/-- The flags as the bits of a number. -/
def bits (g : GcState) : Nat :=
  g.marking.toNat + 2 * g.hasForwarded.toNat + 4 * g.evacuation.toNat + 8 * g.updateRefs.toNat

/-- Outside of a cycle. -/
def idle : GcState := {}

/-- While marking. -/
def duringMark : GcState := { marking := true }

/-- While objects are copied. -/
def duringEvacuation : GcState := { hasForwarded := true, evacuation := true }

/-- While references are updated. -/
def duringUpdate : GcState := { hasForwarded := true, updateRefs := true }

end GcState

/-- The phase of a cycle, on which it depends whether the cycle can be cancelled. -/
inductive CyclePhase where
  | idle
  | concurrentMark
  | concurrentRelocate
  deriving DecidableEq, Repr

/-- The name of a phase. -/
def CyclePhase.name : CyclePhase → String
  | .idle => "Idle"
  | .concurrentMark => "ConcurrentMark"
  | .concurrentRelocate => "ConcurrentRelocate"

/-- How often each barrier had something to do. -/
structure BarrierStats where
  satbEnqueues : Nat := 0
  lrbSlowPaths : Nat := 0
  selfHeals : Nat := 0
  casRetries : Nat := 0
  cardMarks : Nat := 0
  deriving DecidableEq, Repr

/-- What the cycles did. -/
structure CycleStats where
  completed : Nat := 0
  cancelled : Nat := 0
  recycledRegions : Nat := 0
  evacuatedBytes : Nat := 0
  evacuationFailures : Nat := 0
  deriving DecidableEq, Repr

/-- Marked objects whose fields were not traced yet, and how many objects were marked. -/
structure MarkQueue where
  grey : Queue Nat := ∅
  marked : Nat := 0

/-- A controller runs cycles that mutators ask for.  It keeps at most one request that nobody
waits for, beside the one that it serves. -/
structure Controller where
  pending : Option Cause := none
  /-- Whether it has begun a cycle, and waits for the mutators to stop. -/
  busy : Bool := false
  /-- Whether a fault in a cycle has ended the controller. -/
  stopped : Bool := false
  deriving DecidableEq, Repr

/-- A heap that marks and relocates. -/
structure RegionHeap where
  core : HeapCore
  space : RegionSpace
  maxTlab : Nat
  satb : SatbQueues
  gcState : GcState := {}
  phase : CyclePhase := .idle
  cancelRequested : Bool := false
  /-- When the current cycle began. -/
  cycleStart : Option Nat := none
  usedAtLastCycle : Nat := 0
  safepoint : Safepoint := {}
  queue : MarkQueue := {}
  barrierStats : BarrierStats := {}
  cycleStats : CycleStats := {}
  controller : Option Controller := none

namespace RegionHeap

/-! ## 2. Queries -/

/-- The name of the collector. -/
def name : String := Collector.shenandoah.name

/-- Allocated bytes. -/
def used (h : RegionHeap) : Nat := h.space.used

/-- Committed bytes. -/
def capacity (h : RegionHeap) : Nat := h.space.capacity

/-- Reserved bytes. -/
def maxCapacity (h : RegionHeap) : Nat := h.space.maxCapacity

/-- A snapshot for the rules of the collector. -/
def status (h : RegionHeap) : HeapStatus where
  maxCapacity := h.maxCapacity
  used := h.used
  mutatorFree := h.space.mutatorFreeRegions * h.space.regionSize
  evacuationFree := h.space.freeRegions * h.space.regionSize
  allocated := h.used - h.usedAtLastCycle
  regionSize := h.space.regionSize

/-- How many committed regions are in a state. -/
def countIn (h : RegionHeap) (state : RegionState) : Nat :=
  h.space.committedRegions.countP fun r => decide (r.state = state)

/-- A summary of the heap. -/
def info (h : RegionHeap) : String :=
  "Shenandoah heap: " ++ toString h.space.committed ++ " regions of " ++
    ByteSize.roundedText h.space.regionSize ++ ", committed " ++
    ByteSize.roundedText h.capacity ++ ", used " ++ ByteSize.roundedText h.used ++ ", max " ++
    ByteSize.roundedText h.maxCapacity ++ ", phase " ++ h.phase.name ++ ", regions: " ++
    toString (h.countIn .empty) ++ " empty, " ++ toString (h.countIn .allocating) ++
    " allocating, " ++ toString (h.countIn .marked) ++ " marked, " ++
    toString (h.countIn .relocating) ++ " relocating"

/-- Whether an object was live at the last marking. -/
def isMarked (h : RegionHeap) (object : Nat) : Except Fault Bool := do
  match ← h.space.regionOf? object with
  | none => return false
  | some r => r.isLive object

/-! ## 3. Construction -/

/-- What is reported about a new heap, after its regions. -/
def openingEvents (o : Options) (space : RegionSpace) : Array Event :=
  let constraints := Constraints.shenandoah
  #[.stubs constraints.barrier (StubTable.forConstraints constraints).kinds,
    .regionHeap space.maxCapacity o.heuristics o.concGcThreads o.selfHealing o.cardBarrier]

/-- A heap for some options. -/
def make (place : Place) (o : Options) : Except Fault (Except HeapError RegionHeap) := do
  if o.collector ≠ .shenandoah then
    return .error (.options (.otherCollector o.collector))
  else
    match ← o.validate with
    | .error e => return .error e
    | .ok () =>
      match ← RegionSpace.make place o with
      | .error e => return .error e
      | .ok space =>
        let usage : Usage := { pool := "Shenandoah", manager := "Shenandoah Cycles" }
        return .ok {
          core := {
            options := o
            usage := usage.update 0 space.capacity space.maxCapacity
            stubs := StubTable.forConstraints Constraints.shenandoah
            journal := space.reports ++ openingEvents o space }
          space := { space with reports := #[] }
          maxTlab := alignDown (min o.maxTlabSize space.regionSize) objectAlignment
          satb := { capacity := o.satbBufferSize } }

/-! ## 4. Actions on the parts -/

instance : HasMemory RegionHeap where
  memory h := h.core.memory
  setMemory m h := { h with core := { h.core with memory := m } }

/-- Report events. -/
def noteAll (es : List Event) : Action RegionHeap Unit :=
  modify fun h =>
    { h with core := { h.core with journal := h.core.journal ++ es.toArray } }

/-- Report an event. -/
def note (e : Event) : Action RegionHeap Unit := noteAll [e]

/-- The heap with other regions.  It takes over what they reported. -/
def putSpace (space : RegionSpace) (h : RegionHeap) : RegionHeap :=
  { h with
    space := { space with reports := #[] }
    core := { h.core with journal := h.core.journal ++ space.reports } }

/-- Run an action on the regions. -/
def onSpace {α : Type} (act : Action RegionSpace α) : Action RegionHeap α :=
  act.onPart RegionHeap.space putSpace

/-- Run an action on one region. -/
def onRegion {α : Type} (i : Nat) (act : Action Region α) : Action RegionHeap α :=
  onSpace (RegionSpace.onRegion i act)

/-- Run an action on the regions and the memory. -/
def onSpaceAndMemory {α : Type} (act : Action (RegionSpace × Memory) α) :
    Action RegionHeap α :=
  act.onPart (fun h => (h.space, h.core.memory)) fun (space, memory) h =>
    putSpace space { h with core := { h.core with memory } }

/-- Change the queues of recorded references. -/
def modifySatb (f : SatbQueues → SatbQueues) : Action RegionHeap Unit :=
  modify fun h => { h with satb := f h.satb }

/-- Change the counts of what the barriers did. -/
def modifyBarrierStats (f : BarrierStats → BarrierStats) : Action RegionHeap Unit :=
  modify fun h => { h with barrierStats := f h.barrierStats }

/-- Change the counts of what the cycles did. -/
def modifyCycleStats (f : CycleStats → CycleStats) : Action RegionHeap Unit :=
  modify fun h => { h with cycleStats := f h.cycleStats }

/-- Set the flags that the barriers look at. -/
def setGcState (g : GcState) : Action RegionHeap Unit := modify fun h => { h with gcState := g }

/-- Set the phase of the cycle. -/
def setPhase (p : CyclePhase) : Action RegionHeap Unit := modify fun h => { h with phase := p }

/-- The slots of the roots; those that were dropped are forgotten. -/
def scanRoots : Action RegionHeap (List Nat) :=
  RootSet.scan.onPart (fun h => h.core.roots) fun roots h =>
    { h with core := { h.core with roots } }

/-- Refresh the counters of the management. -/
def updateUsage : Action RegionHeap Unit :=
  modify fun h =>
    { h with core := { h.core with usage := h.core.usage.update h.used h.capacity h.maxCapacity } }

/-- The region with an index. -/
def getRegion (i : Nat) : Action RegionHeap Region := do
  let h ← get
  h.space.region i

/-- Run an action for each committed region, by its index and in order.  Regions that are
committed meanwhile are left out. -/
def eachRegion (f : Nat → Action RegionHeap Unit) : Action RegionHeap Unit := do
  let h ← get
  Action.upTo 0 h.space.committed f

/-- The region that holds an object.  A reference outside of the committed regions, or into an
empty one, means that the heap is corrupt. -/
def regionOfObject (object : Nat) : Action RegionHeap Nat := do
  let h ← get
  match h.space.indexOf? object with
  | none => throw (.violation (.outsideHeap object))
  | some i =>
    let r ← getRegion i
    if r.isEmpty then throw (.violation (.inEmptyRegion object i)) else return i

/-- Do work that needs the mutators stopped. -/
def synchronize {α : Type} (act : Action RegionHeap α) : Action RegionHeap α := do
  let onSafepoint (act : Action Safepoint Unit) : Action RegionHeap Unit :=
    act.onPart RegionHeap.safepoint fun safepoint h => { h with safepoint }
  onSafepoint Safepoint.request
  let a ← act
  onSafepoint Safepoint.release
  return a

end RegionHeap

end ManagedHeap
