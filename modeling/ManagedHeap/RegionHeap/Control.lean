/-
# The controller

A heap may have a controller, which runs cycles on behalf of the mutators.  It serves one
request at a time, in the order in which they came.  A cycle that was asked for without waiting
is begun once there is time for it, and goes on when the mutators have stopped: when one of them
waits for a collection, which comes after it, or at the end of the heap.  Without a controller a
mutator runs its cycle itself.

A failed check in a cycle ends the controller, not the mutator that waits; later requests are
dropped.
-/
import ManagedHeap.RegionHeap.Cycle

namespace ManagedHeap.RegionHeap

/-- Whether a cycle is due by the rules of the options. -/
def isCycleDue : Action RegionHeap Bool := do
  let h ← get
  let (due, events) := CyclePolicy.shouldStart h.core.options h.status
  noteAll events
  return due

/-- Start the controller, if there is none. -/
def startController : Action RegionHeap Unit := do
  let h ← get
  if h.controller.isNone then
    set { h with controller := some {} }
    note (.controllerStarted h.core.options.controlInterval)

/-- Replace the controller. -/
def setController (c : Controller) : Action RegionHeap Unit :=
  modify fun h => { h with controller := some c }

/-- The controller begins a cycle. -/
def begin (cause : Cause) (c : Controller) : Action RegionHeap Unit := do
  setController { c with busy := true }
  note (.cycleRequested cause)

/-- The controller begins the cycle that it was asked for without waiting, unless it is busy. -/
def takeUp : Action RegionHeap Unit := do
  let h ← get
  if let some c := h.controller then
    if let some cause := c.pending then
      if !c.busy && !c.stopped then begin cause { c with pending := none }

/-- Run a cycle.  Gives whether all its checks held. -/
def survives : Action RegionHeap Bool := fun h =>
  match cycle h with
  | .ok _ h => .ok true h
  | .error .check h => .ok false h
  | .error f h => .error f h

/-- The controller goes on with the cycle that it has begun, if there is one.  The mutators have
stopped. -/
def proceed : Action RegionHeap Unit := do
  let h ← get
  if let some c := h.controller then
    if c.busy then
      setController { c with busy := false }
      if !(← survives) then
        setController { c with busy := false, stopped := true }

/-- The controller serves what it was asked for without waiting. -/
def settle : Action RegionHeap Unit := do
  proceed
  takeUp
  proceed

/-- Run a cycle after those that the controller serves first.  Gives whether it was completed. -/
def runCycle (cause : Cause) : Action RegionHeap Bool := do
  settle
  note (.cycleRequested cause)
  cycle

/-- Have the controller run a cycle, unless a failed check has ended it. -/
def serve (cause : Cause) : Action RegionHeap Unit := do
  let h ← get
  if let some c := h.controller then
    if !c.stopped then
      begin cause c
      proceed

/-- Collect, with the controller if there is one. -/
def collect (cause : Cause) : Action RegionHeap Unit := do
  let h ← get
  match h.controller with
  | none =>
    let _ ← runCycle cause
  | some c =>
    if c.stopped then
      note (.controllerGone cause)
    else
      settle
      serve cause

/-- The end of the heap, and of its controller before it, which serves what it was asked for. -/
def close : Action RegionHeap Unit := do
  settle
  let h ← get
  match h.controller with
  | none => pure ()
  | some c => note (if c.stopped then .controllerFailed else .controllerStopped)
  note (.closing h.info)

end ManagedHeap.RegionHeap
