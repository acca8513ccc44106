/-
# Barriers

What a heap does around the reference accesses of the program.  The hooks are given as a
record; `BarrierHooks.none` is the record of a heap that does nothing.  The raw access
itself is the same for all heaps.

Hooks that record overwritten references take the number of the buffer to record in.
-/
import ManagedHeap.Memory

namespace ManagedHeap

/-! ## 1. States with memory -/

/-- A state of which memory is a part. -/
class HasMemory (σ : Type) where
  memory : σ → Memory
  setMemory : Memory → σ → σ

/-- Run an action on the memory of a state. -/
def onMemory {σ α : Type} [HasMemory σ] (act : Action Memory α) : Action σ α :=
  act.onPart HasMemory.memory HasMemory.setMemory

/-- The memory of the current state. -/
def getMemory {σ : Type} [HasMemory σ] : Action σ Memory := do
  let s ← get
  return HasMemory.memory s

/-- The reference in a slot. -/
def loadSlot {σ : Type} [HasMemory σ] (slot : Nat) : Action σ Nat := do
  let m ← getMemory
  return m.read slot

/-- Write a reference to a slot. -/
def storeSlot {σ : Type} [HasMemory σ] (slot value : Nat) : Action σ Unit :=
  onMemory (Memory.store slot value)

/-- Replace the reference in a slot if it is `old`; otherwise give the one found. -/
def exchangeSlot {σ : Type} [HasMemory σ] (slot old new : Nat) : Action σ (Except Nat Unit) :=
  onMemory (Memory.exchange slot old new)

instance : HasMemory Memory := ⟨id, fun m _ => m⟩

/-! ## 2. Hooks -/

/-- What became of a compare-and-swap. -/
inductive CasOutcome where
  /-- The first attempt swapped. -/
  | success
  /-- The slot held another copy of the expected object, and the second attempt swapped. -/
  | successAfterRetry
  /-- The slot held another object. -/
  | failure (witness : Nat)
  deriving DecidableEq, Repr

namespace CasOutcome

/-- The name of an outcome. -/
def name : CasOutcome → String
  | success => "Success"
  | successAfterRetry => "SuccessAfterRetry"
  | failure _ => "Failure"

/-- The object found in place of the expected one. -/
def witness? : CasOutcome → Option Nat
  | failure witness => some witness
  | _ => none

/-- Whether the slot was swapped. -/
def isSuccess (c : CasOutcome) : Bool := c.witness?.isNone

end CasOutcome

/-- What a heap does around reference accesses. -/
structure BarrierHooks (σ : Type) where
  /-- Hand over what was recorded. -/
  flush : (buffer : Nat) → Action σ Unit
  /-- Before a slot is overwritten. -/
  writePre : (buffer slot : Nat) → Action σ Unit
  /-- After a slot was overwritten. -/
  writePost : (slot : Nat) → Action σ Unit
  /-- After a reference was loaded, from a slot if one is given.  Gives the reference to use. -/
  load : (slot : Option Nat) → (value : Nat) → Action σ Nat
  /-- The whole of a compare-and-swap. -/
  exchange : (buffer slot expected new : Nat) → Action σ CasOutcome
  /-- Before a run of slots is overwritten. -/
  copyPre : (buffer : Nat) → SlotRange → Action σ Unit
  /-- After a run of slots was overwritten. -/
  copyPost : SlotRange → Action σ Unit
  /-- Before an object is copied into a new one. -/
  clonePre : (object : Nat) → Action σ Unit

namespace BarrierHooks

/-- A compare-and-swap without a second attempt. -/
def plainExchange {σ : Type} [HasMemory σ] (slot expected new : Nat) : Action σ CasOutcome := do
  match ← exchangeSlot slot expected new with
  | .ok () => return .success
  | .error witness => return .failure witness

/-- No barriers. -/
def none {σ : Type} [HasMemory σ] : BarrierHooks σ where
  flush _ := pure ()
  writePre _ _ := pure ()
  writePost _ := pure ()
  load _ value := pure value
  exchange _ slot expected new := plainExchange slot expected new
  copyPre _ _ := pure ()
  copyPost _ := pure ()
  clonePre _ := pure ()

/-- A store with its barriers. -/
def write {σ : Type} [HasMemory σ] (b : BarrierHooks σ) (buffer slot target : Nat) :
    Action σ Unit := do
  b.writePre buffer slot
  storeSlot slot target
  b.writePost slot

/-- The reference to use in place of one that the program holds. -/
def resolve {σ : Type} (b : BarrierHooks σ) (object : Nat) : Action σ Nat := b.load .none object

/-- A load with its barrier. -/
def read {σ : Type} [HasMemory σ] (b : BarrierHooks σ) (slot : Nat) : Action σ Nat := do
  let value ← loadSlot slot
  b.load (some slot) value

end BarrierHooks

end ManagedHeap
