/-
# Regions

A region is a part of the heap that is allocated, marked and relocated as a whole.  It
allocates by moving a bound, and keeps two sets of addresses: where objects start, and which
objects the last marking reached.

Marking takes a snapshot of the region's top, the *mark limit*.  Objects at or above it were
allocated after marking began; they are live without a mark and are never traced.
-/
import ManagedHeap.AddressSet
import ManagedHeap.BumpSpace
import ManagedHeap.Object

namespace ManagedHeap

/-- A region. -/
structure Region where
  index : Nat
  space : BumpSpace
  state : RegionState
  /-- The top when marking began. -/
  markLimit : Nat
  /-- The bytes of the marked objects. -/
  markedBytes : Nat
  /-- Allocation buffers cut from the region and not retired, counted in a word. -/
  activeTlabs : Nat
  /-- A reference was written into the region. -/
  dirty : Bool
  /-- Some object of the region forwards to itself. -/
  evacFailed : Bool
  marks : AddressSet
  starts : AddressSet

namespace Region

/-! ## 1. The parts of a region -/

/-- An empty region of `size` bytes. -/
def fresh (index start size : Nat) : Region where
  index := index
  space := ⟨"region", start, start, start + size⟩
  state := .empty
  markLimit := start
  markedBytes := 0
  activeTlabs := 0
  dirty := false
  evacFailed := false
  marks := AddressSet.make start size
  starts := AddressSet.make start size

/-- An empty region, if its addresses are words. -/
def make (index start size : Nat) : Except Fault Region := do
  let _ ← sum start size
  return fresh index start size

/-- The first address. -/
def start (r : Region) : Nat := r.space.bottom

/-- The address after the last. -/
def limit (r : Region) : Nat := r.space.limit

/-- The address after the allocated part. -/
def top (r : Region) : Nat := r.space.top

/-- Allocated bytes. -/
def used (r : Region) : Nat := r.space.used

/-- Free bytes. -/
def free (r : Region) : Nat := r.space.free

/-- Whether the region is not in use. -/
def isEmpty (r : Region) : Bool := r.state == .empty

/-- Marked bytes, and everything allocated since marking began. -/
def liveBytes (r : Region) : Except Fault Nat := do
  let above ← distance r.top r.markLimit
  return r.markedBytes + above

/-- Allocated bytes that are not live. -/
def garbageBytes (r : Region) : Except Fault Nat := do
  let live ← r.liveBytes
  return r.used - live

/-- The number of objects. -/
def objectCount (r : Region) : Nat := r.starts.count

/-- A region as messages show it. -/
def describe (r : Region) : Except Fault String := do
  let live ← r.liveBytes
  return "Region#" ++ toString r.index ++ "[" ++ hexText r.start ++ ", " ++ hexText r.limit ++
    ") " ++ r.state.name ++ " top=" ++ hexText r.top ++ " tams=" ++ hexText r.markLimit ++
    " live=" ++ toString live ++ " tlabs=" ++ toString r.activeTlabs

/-- Run an action on the space of the region. -/
def onSpace {α : Type} (act : Action BumpSpace α) : Action Region α :=
  act.onPart Region.space fun space r => { r with space }

/-- Run an action on the marks of the region. -/
def onMarks {α : Type} (act : Action AddressSet α) : Action Region α :=
  act.onPart Region.marks fun marks r => { r with marks }

/-- Run an action on the object starts of the region. -/
def onStarts {α : Type} (act : Action AddressSet α) : Action Region α :=
  act.onPart Region.starts fun starts r => { r with starts }

/-! ## 2. State and allocation -/

/-- Move from one state to another.  The region has to be in the first, and the move has to
be one that regions make. -/
def transition (src dst : RegionState) : Action Region Unit := do
  let r ← get
  if src.canBecome dst then
    if r.state = src then
      set { r with state := dst }
    else
      throw (.violation (.lostTransition r.index src dst r.state))
  else
    throw (.violation (.illegalTransition r.index src dst))

/-- Start to allocate in an empty region. -/
def makeAllocating : Action Region Unit := do
  modify fun r => { r with markLimit := r.top }
  transition .empty .allocating

/-- Allocate `size` bytes, if they are free. -/
def allocate (size : Nat) : Action Region (Option Nat) := onSpace (BumpSpace.allocate size)

/-- An allocation buffer was cut from the region. -/
def tlabAllocated : Action Region Unit :=
  modify fun r => { r with activeTlabs := (r.activeTlabs + 1) % wordLimit }

/-- An allocation buffer of the region was retired.  The count is lowered before it is
checked. -/
def tlabRetired : Action Region Unit := do
  let r ← get
  set { r with activeTlabs := (r.activeTlabs + (wordLimit - 1)) % wordLimit }
  require (0 < r.activeTlabs)

/-- A reference was written into the region. -/
def markDirty : Action Region Unit := modify fun r => { r with dirty := true }

/-- Give whether the region is dirty, and make it clean. -/
def takeDirty : Action Region Bool := do
  let r ← get
  set { r with dirty := false }
  return r.dirty

/-- An object of the region forwards to itself. -/
def setEvacFailed : Action Region Unit := modify fun r => { r with evacFailed := true }

/-! ## 3. Objects and marks -/

/-- An object of the region starts at the address. -/
def setStart (object : Nat) : Action Region Unit := do
  let _ ← onStarts (AddressSet.insert object)

/-- No object of the region starts at the address. -/
def clearStart (object : Nat) : Action Region Unit := onStarts (AddressSet.erase object)

/-- Whether an object of the region starts at the address. -/
def isStart (r : Region) (a : Nat) : Except Fault Bool :=
  if r.start ≤ a ∧ a < r.top then r.starts.contains a else .ok false

/-- Begin a new marking: forget the marks and take the snapshot of the top. -/
def prepareForMark : Action Region Unit := do
  modify fun r => { r with markLimit := r.top }
  onMarks AddressSet.clear
  modify fun r => { r with markedBytes := 0 }

/-- Mark an object.  Gives whether it was not marked and has to be traced. -/
def mark (m : Memory) (object : Nat) : Action Region Bool := do
  let r ← get
  if r.markLimit ≤ object then
    return false
  else if ← onMarks (AddressSet.insert object) then
    modify fun r => { r with markedBytes := r.markedBytes + Object.size m object }
    return true
  else
    return false

/-- Whether an object was marked. -/
def isMarked (r : Region) (object : Nat) : Except Fault Bool := r.marks.contains object

/-- Whether an object is live since the last marking: marked, or allocated after it began. -/
def isLive (r : Region) (object : Nat) : Except Fault Bool :=
  if r.markLimit ≤ object then .ok true else r.isMarked object

/-- The objects of the region, in address order. -/
def objects (r : Region) : Except Fault (List Nat) := r.starts.between r.start r.top

/-- The live ones of the objects, in the same order. -/
def liveAmong (r : Region) : List Nat → Except Fault (List Nat)
  | [] => .ok []
  | o :: rest => do
    let live ← r.isLive o
    let others ← r.liveAmong rest
    return if live then o :: others else others

/-- The objects of the region that are live since the last marking, in address order. -/
def liveObjects (r : Region) : Except Fault (List Nat) := do
  let all ← r.objects
  r.liveAmong all

/-- Allocate an object with null fields and a payload of zeros, if there is room for it. -/
def newObject (refs payload : Nat) : Action (Region × Memory) (Option Nat) := do
  match Object.sizeFor refs payload with
  | none => return none
  | some size =>
    match ← (allocate size).onFirst with
    | none => return none
    | some start =>
      let object ← (Object.writeHeader start size refs).onSecond
      (setStart object).onFirst
      return some object

/-! ## 4. The end of a relocation -/

/-- One object of a region of which some object could not be moved.  An object that stayed
is no longer forwarded; one that was moved is no longer an object of the region. -/
def settle (object : Nat) : Action (Region × Memory) Unit := do
  let (_, m) ← get
  match Object.forwardee? m object with
  | none => pure ()
  | some dst =>
    if dst = object then
      (Object.clearForwarding object).onSecond
    else
      (clearStart object).onFirst

/-- Keep a region of which some object could not be moved, with the objects that stayed. -/
def recover : Action (Region × Memory) Unit := do
  let (r, _) ← get
  AddressSet.iterate (fun x => x.1.starts) r.start r.top settle
  Action.onFirst do
    modify fun r => { r with evacFailed := false }
    transition .relocating .allocating

/-- Empty a relocated region.  Its memory has to be cleared as well. -/
def recycle : Action Region Unit := do
  let r ← get
  require (r.activeTlabs = 0)
  onSpace BumpSpace.reset
  modify fun r => { r with markLimit := r.start }
  onMarks AddressSet.clear
  onStarts AddressSet.clear
  modify fun r => { r with markedBytes := 0, dirty := false }
  transition .relocating .empty

end Region

end ManagedHeap
