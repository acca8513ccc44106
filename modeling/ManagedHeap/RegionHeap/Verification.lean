/-
# Checking the heap

The regions and the sizes can be checked at any time.  Between cycles nothing is forwarded, so
then every root and every field of a live object has to be sound as well: null, or the start of
an object that is not forwarded, in a region in use.  The first slot that is not is reported,
after the regions were looked at.
-/
import ManagedHeap.RegionHeap.State

namespace ManagedHeap.RegionHeap

/-! ## 1. Slots -/

/-- Whether a reference is null or the start of an object that is not forwarded. -/
def isSound (h : RegionHeap) (value : Nat) : Except Fault Bool := do
  if value = null then
    return true
  else
    match ← h.space.regionOf? value with
    | none => return false
    | some r =>
      if r.isEmpty then
        return false
      else
        let start ← r.isStart value
        return start && !Object.isForwarded h.core.memory value

/-- The first of some slots that holds an unsound reference. -/
def firstUnsound (h : RegionHeap) : List Nat → Except Fault (Option Nat)
  | [] => .ok none
  | slot :: rest => do
    if ← h.isSound (h.core.memory.read slot) then
      h.firstUnsound rest
    else
      return some slot

/-- The slots of the fields of an object. -/
def fieldSlots (m : Memory) (object : Nat) : Except Fault (List Nat) :=
  (List.range (Object.refCount m object)).mapM (Object.fieldSlot m object)

/-- The slots of the fields of the live objects of a region. -/
def liveSlots (m : Memory) (r : Region) : Except Fault (List Nat) := do
  let objects ← r.liveObjects
  let slots ← objects.mapM (fieldSlots m)
  return slots.flatten

/-! ## 2. The heap between cycles -/

/-- The first unsound slot: the one that was found already, or else the first of the live objects
of some regions.  A region that takes part in a cycle is a defect of its own. -/
def unsoundIn (h : RegionHeap) (found : Option Nat) :
    List Region → Except Fault (Except Defect (Option Nat))
  | [] => .ok (.ok found)
  | r :: rest => do
    if r.state = .marked ∨ r.state = .relocating then
      let text ← r.describe
      return .error (.regionInCycle text)
    else
      let slots ← liveSlots h.core.memory r
      let here ← match found with
        | some slot => pure (some slot)
        | none => h.firstUnsound slots
      h.unsoundIn here rest

/-- The defect of a heap between cycles, if it has one, for the slots of its roots. -/
def idleDefect? (h : RegionHeap) (roots : List Nat) : Except Fault (Option Defect) := do
  let found ← h.firstUnsound roots
  match ← h.unsoundIn found h.space.committedRegions with
  | .error d => return some d
  | .ok none => return none
  | .ok (some slot) => return some (.badSlot slot (h.core.memory.read slot))

/-- Check a heap between cycles. -/
def verifyIdle : Action RegionHeap (Option Defect) := do
  let h ← get
  if h.gcState.bits ≠ 0 then
    return some (.gcState h.gcState.bits)
  else
    let roots ← scanRoots
    h.idleDefect? roots

/-! ## 3. The whole check -/

/-- Check the regions and the sizes, and between cycles the references as well. -/
def verify : Action RegionHeap (Except HeapError Unit) := do
  let h ← get
  match ← h.space.verify with
  | .error e => return .error e
  | .ok () =>
    if h.capacity < h.used ∨ h.maxCapacity < h.capacity then
      return .error (.verification (.sizes h.used h.capacity h.maxCapacity))
    else if h.phase = .idle then
      match ← verifyIdle with
      | some d => return .error (.verification d)
      | none => return .ok ()
    else
      return .ok ()

end ManagedHeap.RegionHeap
