/-
# The heap that never collects

One space from which memory is handed out in address order, and which grows on demand up to
what is reserved.  There are no barriers, and a request for a collection only refreshes the
counters.

The heap grows by the larger of the request and the least step, or by all that is left when
that is less and still enough.
-/
import ManagedHeap.BumpSpace
import ManagedHeap.Heap
import ManagedHeap.Options.Agreement
import ManagedHeap.Reservation

namespace ManagedHeap

/-- A heap that never collects. -/
structure BumpHeap where
  core : HeapCore
  range : Reservation
  space : BumpSpace
  maxTlab : Nat
  /-- Refresh the counters after this many allocated bytes. -/
  counterStep : Nat
  /-- Report the occupancy after this many allocated bytes. -/
  printStep : Nat
  /-- What was allocated when the counters were last refreshed. -/
  countedAt : Nat := 0
  /-- What was allocated when the occupancy was last reported. -/
  printedAt : Nat := 0

namespace BumpHeap

/-! ## 1. Construction and queries -/

/-- The name of the collector. -/
def name : String := Collector.epsilon.name

/-- Allocated bytes. -/
def used (h : BumpHeap) : Nat := h.space.used

/-- Committed bytes. -/
def capacity (h : BumpHeap) : Nat := h.range.committed

/-- Reserved bytes. -/
def maxCapacity (h : BumpHeap) : Nat := h.range.reserved

/-- A summary of the heap. -/
def info (h : BumpHeap) : String :=
  "Epsilon heap [" ++ hexText h.range.low ++ ", " ++ hexText h.range.boundary ++
    "): reserved " ++ ByteSize.roundedText h.maxCapacity ++ ", committed " ++
    ByteSize.roundedText h.capacity ++ ", used " ++ ByteSize.roundedText h.used

/-- Bytes between two reports of the occupancy. -/
def printStepFor (o : Options) (reserved : Nat) : Nat :=
  if o.printHeapSteps = 0 then wordLimit - 1 else reserved / o.printHeapSteps

/-- What is reported about a new heap. -/
def openingEvents (o : Options) (range : Reservation) (maxTlab : Nat) : List Event :=
  let constraints := Constraints.epsilon
  [.reserved range.low range.boundary range.committed,
   .stubs constraints.barrier (StubTable.forConstraints constraints).kinds,
   if range.committed = range.reserved then .fixedHeap range.reserved
   else .growingHeap range.committed range.reserved o.minHeapExpand,
   .tlabs maxTlab o.elasticTlab]

/-- A heap for some options. -/
def make (place : Place) (o : Options) : Except Fault (Except HeapError BumpHeap) := do
  match ← o.validate with
  | .error e => return .error e
  | .ok () =>
    let reserved := alignUp o.maxHeapSize pageBytes
    let committed := alignUp o.initialHeapSize pageBytes
    match ← Reservation.make place reserved committed pageBytes with
    | .error e => return .error e
    | .ok range =>
      let space ← BumpSpace.make "epsilon" range.low range.high
      let maxTlab := alignDown o.maxTlabSize objectAlignment
      let usage : Usage := { pool := "Epsilon Heap", manager := "Epsilon Heap" }
      return .ok {
        core := {
          options := o
          usage := usage.update 0 range.committed range.reserved
          stubs := StubTable.forConstraints Constraints.epsilon
          journal := (openingEvents o range maxTlab).toArray }
        range, space, maxTlab
        counterStep := o.updateCountersStep
        printStep := printStepFor o reserved }

/-! ## 2. Allocation -/

/-- Report an event. -/
def note (e : Event) : Action BumpHeap Unit :=
  modify fun h => { h with core := { h.core with journal := h.core.journal.push e } }

/-- Run an action on the space. -/
def onSpace {α : Type} (act : Action BumpSpace α) : Action BumpHeap α :=
  act.onPart BumpHeap.space fun space h => { h with space }

/-- By how much to grow for a request of `size` bytes, if that helps. -/
def growth? (h : BumpHeap) (size : Nat) : Option Nat :=
  let left := h.range.uncommitted
  let wanted := alignUp (max size h.core.options.minHeapExpand) pageBytes
  let needed := alignUp (size - h.space.free) pageBytes
  if wanted ≤ left then some wanted
  else if needed ≤ left ∧ 0 < left then some left
  else none

/-- Grow the heap.  Gives whether memory was committed. -/
def grow (bytes : Nat) : Action BumpHeap Bool := do
  match ← (Reservation.expand bytes).onPart BumpHeap.range fun range h => { h with range } with
  | .error e =>
    note (.notCommitted e)
    return false
  | .ok () =>
    let h ← get
    onSpace (BumpSpace.setLimit h.range.high)
    note (.heapExpanded bytes h.capacity)
    return true

/-- Allocate, growing the heap between attempts.  Growth by nothing repeats the same attempt
without end; a growth that adds memory adds a page at least, so `rounds` that are more than
the pages left run out only then. -/
def allocateRounds (size : Nat) : Nat → Action BumpHeap (Option Nat)
  | 0 => throw .stalled
  | rounds + 1 => do
    match ← onSpace (BumpSpace.allocate size) with
    | some a => return some a
    | none =>
      let h ← get
      match h.growth? size with
      | none =>
        note (.heapFull size h.capacity h.maxCapacity)
        return none
      | some bytes =>
        if ← grow bytes then allocateRounds size rounds else return none

/-- Refresh the counters of the management. -/
def updateUsage : Action BumpHeap Unit :=
  modify fun h =>
    { h with core := { h.core with usage := h.core.usage.update h.used h.capacity h.maxCapacity } }

/-- Refresh the counters if enough was allocated since the last time. -/
def refreshCounters : Action BumpHeap Unit := do
  let h ← get
  if h.counterStep ≤ h.used - h.countedAt then
    set { h with countedAt := h.used }
    updateUsage

/-- Report the occupancy if enough was allocated since the last time. -/
def reportOccupancy : Action BumpHeap Unit := do
  let h ← get
  if h.printStep ≤ h.used - h.printedAt then
    set { h with printedAt := h.used }
    note (.occupancy h.maxCapacity h.capacity h.used)

/-- Allocate `size` bytes. -/
def allocateBytes (size : Nat) : Action BumpHeap (Option Nat) := do
  let h ← get
  if h.maxCapacity < size then
    note (.aboveHeapSize size)
    return none
  else
    match ← allocateRounds size (h.range.uncommitted / pageBytes + 2) with
    | none => return none
    | some a =>
      refreshCounters
      reportOccupancy
      return some a

/-- Allocate outside of buffers. -/
def allocate (size : Nat) : Action BumpHeap (Option Nat) := do
  require (size % objectAlignment = 0)
  allocateBytes size

/-- Allocate a buffer. -/
def allocateTlab (sizing : TlabSizing) (minSize : Nat) :
    Action BumpHeap (TlabSizing × Option (Nat × Nat)) := do
  let h ← get
  let (sizing, size) ← sizing.next minSize h.maxTlab h.core.options h.core.clock
  match size with
  | none => return (sizing, none)
  | some size =>
    match ← allocateBytes size with
    | none => return (sizing, none)
    | some start => return (sizing.record size h.core.clock, some (start, size))

/-! ## 3. Collection requests and verification -/

/-- A request for a collection. -/
def collect (cause : Cause) : Action BumpHeap Unit := do
  note (.requestIgnored cause)
  updateUsage

/-- The defect of the heap, if it has one. -/
def defect? (h : BumpHeap) : Option Defect :=
  if h.capacity < h.used ∨ h.maxCapacity < h.capacity then
    some (.sizes h.used h.capacity h.maxCapacity)
  else if h.space.limit ≠ h.range.high then some (.spaceEnd h.space.limit h.range.high)
  else none

/-- Check the sizes of the heap and the end of its space. -/
def verify (h : BumpHeap) : Except HeapError Unit :=
  match h.defect? with
  | some d => .error (.verification d)
  | none => .ok ()

instance : HasMemory BumpHeap where
  memory h := h.core.memory
  setMemory m h := { h with core := { h.core with memory := m } }

instance : Heap BumpHeap where
  core := BumpHeap.core
  setCore core h := { h with core }
  name := name
  constraints := Constraints.epsilon
  barriers := BarrierHooks.none
  used := used
  capacity := capacity
  start h := h.range.low
  maxCapacity := maxCapacity
  maxTlab := BumpHeap.maxTlab
  contains h a := .ok (h.space.contains a)
  info := info
  safepoint? _ := none
  setSafepoint _ h := h
  allocate := allocate
  allocateTlab := allocateTlab
  retireTlab _ := pure ()
  postAlloc _ := pure ()
  collect := collect
  idle := pure ()
  verify := do
    let h ← get
    return h.verify
  registerBuffer := pure 0
  recorded? _ _ := none
  dropBuffer _ := pure ()
  close := do
    let h ← get
    note (.closing h.info)

end BumpHeap

end ManagedHeap
