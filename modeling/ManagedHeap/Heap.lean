/-
# Heaps

What all heaps have in common: the `HeapCore` every heap contains, and the class `Heap` of
the operations that differ from heap to heap.  The mutators of a heap are a part of it, so
that one state holds all there is.
-/
import ManagedHeap.Barrier
import ManagedHeap.Event
import ManagedHeap.Object
import ManagedHeap.Reservation
import ManagedHeap.RootSet
import ManagedHeap.Safepoint
import ManagedHeap.Text.Relative
import ManagedHeap.Tlab
import ManagedHeap.Tlab.Sizing
import ManagedHeap.Usage

namespace ManagedHeap

/-! ## 1. The common part -/

/-- A thread of the program: its allocation buffer, the sizing of the next one, and the number
of the buffer that its barriers record in. -/
structure Mutator where
  tlab : Tlab := {}
  sizing : TlabSizing := {}
  buffer : Nat := 0
  deriving DecidableEq, Repr

/-- What every heap has. -/
structure HeapCore where
  options : Options
  memory : Memory := {}
  roots : RootSet := {}
  usage : Usage
  stubs : StubTable
  /-- The mutators by number; none where one was destroyed. -/
  mutators : Array (Option Mutator) := #[]
  /-- The time in nanoseconds. -/
  clock : Nat := 0
  /-- What was reported, in order. -/
  journal : Array Event := #[]

/-! ## 2. The class of heaps -/

/-- The operations of a heap. -/
class Heap (H : Type) extends HasMemory H where
  core : H → HeapCore
  setCore : HeapCore → H → H
  /-- The name of the collector. -/
  name : String
  constraints : Constraints
  barriers : BarrierHooks H
  /-- Allocated bytes, buffers that were handed out included. -/
  used : H → Nat
  /-- Where the heap starts. -/
  start : H → Nat
  /-- Committed bytes. -/
  capacity : H → Nat
  /-- Reserved bytes. -/
  maxCapacity : H → Nat
  /-- The largest buffer that is handed out. -/
  maxTlab : H → Nat
  /-- Whether an address is in the allocated part. -/
  contains : H → Nat → Except Fault Bool
  /-- A summary of the heap. -/
  info : H → String
  /-- Where mutators are stopped, if they ever are. -/
  safepoint? : H → Option Safepoint
  setSafepoint : Safepoint → H → H
  /-- Allocate outside of buffers. -/
  allocate : (size : Nat) → Action H (Option Nat)
  /-- Allocate a buffer of at least `minSize` bytes.  Gives the sizing after it, and the start
  and size of the buffer. -/
  allocateTlab : TlabSizing → (minSize : Nat) → Action H (TlabSizing × Option (Nat × Nat))
  /-- A buffer will not be allocated from any more. -/
  retireTlab : (start : Nat) → Action H Unit
  /-- Announce a new object. -/
  postAlloc : (object : Nat) → Action H Unit
  /-- Ask for a collection. -/
  collect : Cause → Action H Unit
  /-- What others begin while the mutators do nothing. -/
  idle : Action H Unit
  /-- Check the invariants of the heap. -/
  verify : Action H (Except HeapError Unit)
  /-- Register a buffer for a new mutator.  Gives its number. -/
  registerBuffer : Action H Nat
  /-- How many references a buffer holds; none on a heap that records none. -/
  recorded? : H → (buffer : Nat) → Option Nat
  /-- Forget the buffer of a mutator. -/
  dropBuffer : (buffer : Nat) → Action H Unit
  /-- The end of the heap. -/
  close : Action H Unit

namespace Heap

variable {H : Type} [Heap H]

/-- Change the common part. -/
def modifyCore (f : HeapCore → HeapCore) : Action H Unit := modify fun h => setCore (f (core h)) h

/-- Report an event. -/
def note (e : Event) : Action H Unit :=
  modifyCore fun c => { c with journal := c.journal.push e }

/-- A message with addresses relative to the start of the heap. -/
def relative (h : H) (message : String) : String :=
  Text.relative (start h) (maxCapacity h) message

/-- Take what was reported out of the journal.  Gives the lines of a log of some level, with
addresses relative to the start of the heap. -/
def takeLog (level : Level) : Action H (List String) := do
  let h ← get
  modifyCore fun c => { c with journal := #[] }
  let shown := (core h).journal.toList.filter (·.isShownAt level)
  return shown.map fun e => relative h e.line

/-- Run an action on the roots and the memory. -/
def onRoots {α : Type} (act : Action (RootSet × Memory) α) : Action H α :=
  act.onPart (fun h => ((core h).roots, (core h).memory)) fun (roots, memory) h =>
    setCore { core h with roots, memory } h

/-- The slots of the roots; those that were dropped are forgotten. -/
def scanRoots : Action H (List Nat) :=
  RootSet.scan.onPart (fun h => (core h).roots) fun roots h => setCore { core h with roots } h

/-- Refresh the counters of the management. -/
def updateUsage : Action H Unit := do
  let h ← get
  modifyCore fun c => { c with usage := c.usage.update (used h) (capacity h) (maxCapacity h) }

/-- Let time pass. -/
def sleep (time : Nat) : Action H Unit := do
  modifyCore fun c => { c with clock := c.clock + time }
  idle

/-- Run an action on the safepoint; on a heap without one, do nothing. -/
def onSafepoint (act : Action Safepoint Unit) : Action H Unit := do
  let h ← get
  match safepoint? h with
  | none => pure ()
  | some s => act.onPart (fun _ => s) setSafepoint

/-- Bytes that are committed and not allocated. -/
def freeBytes (h : H) : Nat := capacity h - used h

end Heap

end ManagedHeap
