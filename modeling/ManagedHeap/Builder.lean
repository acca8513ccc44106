/-
# Building a heap

The options say which heap to build.  A relocating heap that is built this way gets its
controller at once.  A process has at most one heap installed, which compiled code finds.
-/
import ManagedHeap.BumpHeap
import ManagedHeap.RegionHeap.Instance

namespace ManagedHeap

/-! ## 1. Heaps of either kind -/

/-- A heap of one of the collectors. -/
inductive AnyHeap where
  | bump (h : BumpHeap)
  | region (h : RegionHeap)

namespace AnyHeap

/-- The name of the collector. -/
def name : AnyHeap → String
  | bump _ => BumpHeap.name
  | region _ => RegionHeap.name

/-- Change the journal of a heap. -/
def mapJournal (f : Array Event → Array Event) : AnyHeap → AnyHeap
  | bump h => bump { h with core := { h.core with journal := f h.core.journal } }
  | region h => region { h with core := { h.core with journal := f h.core.journal } }

/-- The heap of a given collector, without a controller. -/
def make (place : Place) (c : Collector) (o : Options) :
    Except Fault (Except HeapError AnyHeap) := do
  match c with
  | .epsilon =>
    let h ← BumpHeap.make place o
    return h.map bump
  | .shenandoah =>
    let h ← RegionHeap.make place o
    return h.map region

/-- Start the controller of a heap that has one. -/
def startController : AnyHeap → Except Fault AnyHeap
  | bump h => .ok (bump h)
  | region h =>
    match RegionHeap.startController h with
    | .ok () h => .ok (region h)
    | .error f _ => .error f

/-- The heap that the options select, at work. -/
def build (place : Place) (o : Options) : Except Fault (Except HeapError AnyHeap) := do
  match ← make place o.collector o with
  | .error e => return .error e
  | .ok h =>
    let h ← h.startController
    return .ok h

/-- The first thing that a program does: build its heap.  The program has set up the reporting of
events before. -/
def init (place : Place) (o : Options) : Except Fault (Except HeapError AnyHeap) := do
  match ← build place o with
  | .error e => return .error e
  | .ok h =>
    return .ok (h.mapJournal fun events =>
      #[Event.loggerPresent] ++ events ++ #[Event.initialized h.name])

end AnyHeap

/-! ## 2. Installation -/

/-- The heap that is installed for the process, if there is one, by the name of its collector. -/
structure Installation where
  heap : Option String := none
  deriving DecidableEq, Repr

namespace Installation

/-- Install a heap.  It stays installed for good. -/
def install (i : Installation) (name : String) : Except HeapError Installation :=
  if i.heap.isSome then .error .alreadyInstalled else .ok ⟨some name⟩

/-- Whether the stubs of a relocating heap find it. -/
def servesStubs (i : Installation) : Bool := i.heap == some RegionHeap.name

end Installation

end ManagedHeap
