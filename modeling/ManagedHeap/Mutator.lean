/-
# What a mutator does on a heap

The operations of the threads of the program, for every heap.  A mutator is named by its
number.  It allocates from its buffer first and asks the heap for a new one when that is used
up; each access to a reference goes through the barriers of the heap.

A mutator is joined to the safepoint of the heap from its creation to its end, except while
it waits for a collection.
-/
import ManagedHeap.Heap

namespace ManagedHeap.Mutator

open Heap

variable {H : Type} [Heap H]

/-! ## 1. The state of a mutator -/

/-- Whether the number is that of a mutator. -/
def isBound (h : H) (m : Nat) : Bool := ((core h).mutators[m]?.join).isSome

/-- The mutator with a number. -/
def getState (m : Nat) : Action H Mutator := do
  let h ← get
  match (core h).mutators[m]?.join with
  | some t => return t
  | none => throw .check

/-- Replace the mutator with a number. -/
def setState (m : Nat) (t : Option Mutator) : Action H Unit :=
  modifyCore fun c => { c with mutators := c.mutators.setIfInBounds m t }

/-- Run an action on the allocation buffer of a mutator. -/
def onTlab {α : Type} (m : Nat) (act : Action Tlab α) : Action H α := do
  let t ← getState m
  act.onPart (fun _ => t.tlab) fun tlab h =>
    setCore { core h with mutators := (core h).mutators.setIfInBounds m (some { t with tlab }) } h

/-! ## 2. Allocation -/

/-- Stop to allocate from the current buffer. -/
def retireTlab (m : Nat) : Action H Unit := do
  match ← onTlab m Tlab.retire with
  | some tlab => Heap.retireTlab tlab.start
  | none => pure ()

/-- Allocate without the current buffer: from a new one, or outside of buffers when the
request is too large for one or the heap has none. -/
def allocateSlow (m size : Nat) : Action H (Option Nat) := do
  let h ← get
  if Heap.maxTlab h < size then
    Heap.allocate size
  else
    retireTlab m
    let t ← getState m
    let (sizing, tlab) ← Heap.allocateTlab t.sizing size
    setState m (some { t with sizing })
    match tlab with
    | some (start, bytes) =>
      onTlab m (Tlab.reset start bytes)
      onTlab m (Tlab.allocate size)
    | none => Heap.allocate size

/-- The bytes that a request takes: at least a header, and whole words. -/
def roundedSize (size : Nat) : Nat := alignUp (max size Object.minSize) objectAlignment

/-- Allocate `size` bytes of zeros, if that is not above the limit for objects. -/
def allocate (m size : Nat) : Action H (Option Nat) := do
  if Object.maxSize < size then
    return none
  else
    match ← onTlab m (Tlab.allocate (roundedSize size)) with
    | some a => return some a
    | none => allocateSlow m (roundedSize size)

/-- Make an object of allocated memory, and announce it. -/
def publish (start size refs : Nat) : Action H Nat := do
  let object ← onMemory (Object.writeHeader start size refs)
  Heap.postAlloc object
  return object

/-- Allocate an object with null fields and a payload of zeros. -/
def allocateObject (m refs payload : Nat) : Action H (Option Nat) := do
  match Object.sizeFor refs payload with
  | none => return none
  | some size =>
    match ← allocate m size with
    | none => return none
    | some start =>
      let object ← publish start size refs
      return some object

/-- Allocate objects up to a number of them, or until one finds no room.  Gives how many were
allocated, and the last. -/
def fill (m refs payload : Nat) : Nat → Nat → Option Nat → Action H (Nat × Option Nat)
  | 0, done, last => return (done, last)
  | count + 1, done, last => do
    match ← allocateObject m refs payload with
    | none => return (done, last)
    | some object => fill m refs payload count (done + 1) (some object)

/-! ## 3. Accesses -/

/-- The copy of an object that the program may access. -/
def resolve (object : Nat) : Action H Nat := (barriers (H := H)).resolve object

/-- The slot of a field of an object. -/
def fieldSlot (object i : Nat) : Action H Nat := do
  let memory ← getMemory
  Object.fieldSlot memory object i

/-- Load a reference field. -/
def loadRef (src i : Nat) : Action H Nat := do
  let src ← resolve src
  let slot ← fieldSlot src i
  barriers.read slot

/-- Store a reference into a field. -/
def storeRef (m src i value : Nat) : Action H Unit := do
  let src ← resolve src
  let value ← resolve value
  let slot ← fieldSlot src i
  let t ← getState m
  barriers.write t.buffer slot value

/-- Replace a reference field if it holds the expected object. -/
def casRef (m src i expected new : Nat) : Action H CasOutcome := do
  let src ← resolve src
  let expected ← resolve expected
  let new ← resolve new
  let slot ← fieldSlot src i
  let t ← getState m
  barriers.exchange t.buffer slot expected new

/-- Copy one reference between two runs of slots. -/
def copyRef (src dst : SlotRange) (k : Nat) : Action H Unit := do
  let slot ← src.slot k
  let value ← barriers.read slot
  let target ← dst.slot k
  storeSlot target value

/-- Copy reference fields between objects, or within one: upwards when the target is not
above the source, and downwards otherwise, so that overlapping fields are read before they
are written. -/
def copyRefs (m src si dst di len : Nat) : Action H Unit := do
  if len = 0 then
    return
  else
    let src ← resolve src
    let dst ← resolve dst
    let memory ← getMemory
    let last ← sum si len
    require (last ≤ Object.refCount memory src)
    let last ← sum di len
    require (last ≤ Object.refCount memory dst)
    let first ← fieldSlot src si
    let source ← SlotRange.make first len
    let first ← fieldSlot dst di
    let target ← SlotRange.make first len
    let t ← getState m
    barriers.copyPre t.buffer target
    let order := if source.start < target.start then (List.range len).reverse else List.range len
    Action.each order (copyRef source target)
    barriers.copyPost target

/-- Allocate a copy of an object. -/
def cloneObject (m src : Nat) : Action H (Option Nat) := do
  let src ← resolve src
  barriers.clonePre src
  let memory ← getMemory
  match ← allocate m (Object.size memory src) with
  | none => return none
  | some start =>
    let object ← onMemory (Object.copy src start)
    Heap.postAlloc object
    return some object

/-- The address of a word of an object's payload. -/
def payloadWord (object offset : Nat) : Action H Nat := do
  let object ← resolve object
  let memory ← getMemory
  Object.payloadWord memory object offset

/-- Load a word of the payload. -/
def loadWord (object offset : Nat) : Action H Nat := do
  let a ← payloadWord object offset
  loadSlot a

/-- Store a word of the payload. -/
def storeWord (object offset value : Nat) : Action H Unit := do
  let a ← payloadWord object offset
  storeSlot a value

/-! ## 4. Roots -/

/-- Register a root that holds a reference.  Gives its slot. -/
def newRoot (value : Nat) : Action H Nat := do
  let value ← resolve value
  onRoots (RootSet.newRoot value)

/-- Load the reference of a root. -/
def loadRoot (slot : Nat) : Action H Nat := barriers.read slot

/-- Store a reference into a root. -/
def storeRoot (slot value : Nat) : Action H Unit := do
  let value ← resolve value
  storeSlot slot value

/-- Drop a root. -/
def dropRoot (slot : Nat) : Action H Unit :=
  modifyCore fun c => { c with roots := c.roots.drop slot }

/-! ## 5. Creation, safepoints and collections -/

/-- Create a mutator.  Gives its number. -/
def create : Action H Nat := do
  let buffer ← Heap.registerBuffer
  onSafepoint Safepoint.join
  let h ← get
  modifyCore fun c => { c with mutators := c.mutators.push (some { buffer }) }
  return (core h).mutators.size

/-- Hand what the barriers recorded to the collector. -/
def flush (m : Nat) : Action H Unit := do
  let t ← getState m
  barriers.flush t.buffer

/-- End a mutator. -/
def destroy (m : Nat) : Action H Unit := do
  let t ← getState m
  flush m
  retireTlab m
  onSafepoint Safepoint.leave
  Heap.dropBuffer t.buffer
  setState m none

/-- Let a pending request for a stop run.  Gives whether the mutator yielded. -/
def poll : Action H Bool := do
  let h ← get
  match Heap.safepoint? h with
  | none => return false
  | some s => Safepoint.poll.onPart (fun _ => s) Heap.setSafepoint

/-- Run an action while some mutators are outside of the safepoint. -/
def parked {α : Type} (count : Nat) (act : Action H α) : Action H α := do
  Action.upTo 0 count fun _ => onSafepoint Safepoint.leave
  let a ← act
  Action.upTo 0 count fun _ => onSafepoint Safepoint.join
  return a

/-- How many mutators there are. -/
def count (h : H) : Nat := (core h).mutators.toList.countP (·.isSome)

/-- Run an action while all mutators are outside of the safepoint. -/
def allParked {α : Type} (act : Action H α) : Action H α := do
  let h ← get
  parked (count h) act

/-- Run an action while all mutators but one are outside of the safepoint. -/
def othersParked {α : Type} (act : Action H α) : Action H α := do
  let h ← get
  parked (count h - 1) act

/-- Ask for a collection and wait for it. -/
def collect (cause : Cause) : Action H Unit := parked 1 (Heap.collect cause)

/-- The exit code of a process that ends because memory ran out. -/
def exhaustedExitCode : Nat := 3

/-- Allocate `size` bytes.  When there is no room, ask for a collection and try once more;
when there is still none, end the process if the options say so. -/
def allocateOrCollect (m size : Nat) : Action H (Option Nat) := do
  match ← allocate m size with
  | some a => return some a
  | none =>
    collect .allocationFailure
    match ← allocate m size with
    | some a => return some a
    | none =>
      let h ← get
      if (core h).options.exitOnOutOfMemory then
        note (.outOfMemoryExit size (Heap.info h))
        throw .exhausted
      else
        note (.outOfMemory size)
        return none

/-- The end of a heap: its mutators end in order, its roots are dropped, and then the heap itself
ends. -/
def shutdown : Action H Unit := do
  let h ← get
  Action.each ((List.range (core h).mutators.size).filter (isBound h)) destroy
  modifyCore fun c => { c with roots := c.roots.dropAll }
  Heap.close

end ManagedHeap.Mutator
