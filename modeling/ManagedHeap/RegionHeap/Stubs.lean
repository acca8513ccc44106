/-
# Barriers for compiled code

Compiled code has no mutator at hand.  It puts its registers into a `Frame`, and calls the stub
of the kind of access it makes; the result comes back in the first scratch register.  A stub
works on the heap that is installed for the process, and records overwritten references in the
shared buffer.  Called while no relocating heap is installed, it breaks the promise that its
caller relies on.

| kind             | takes                              | gives in the first scratch register |
|------------------|------------------------------------|-------------------------------------|
| `load`           | the slot, the loaded reference     | the reference to use                |
| `storePre`       | the slot, the reference to store   | the reference to store instead      |
| `storePost`      | the slot                           |                                     |
| `compareAndSwap` | the slot, the expected and the new | one if it swapped, else zero        |
| `arrayCopyPre`   | the first slot, how many           |                                     |
| `arrayCopyPost`  | the first slot, how many           |                                     |
| `clonePre`       | the object as the base             |                                     |
-/
import ManagedHeap.RegionHeap.Barriers

namespace ManagedHeap

/-- The registers that a stub sees. -/
structure Frame where
  /-- The object that the slot is in. -/
  base : Nat := 0
  /-- The slot, or the first of a run of slots. -/
  slot : Nat := 0
  scratch₀ : Nat := 0
  scratch₁ : Nat := 0
  scratch₂ : Nat := 0
  deriving DecidableEq, Repr

namespace RegionHeap

/-- What a stub of a kind leaves in the first scratch register, on the installed heap. -/
def stubResult (kind : AccessKind) (f : Frame) : Action RegionHeap Nat := do
  match kind with
  | .load =>
    if f.slot = 0 then
      loadBarrier none f.scratch₀
    else
      let slot ← Memory.slotAt f.slot
      loadBarrier (some slot) f.scratch₀
  | .storePre =>
    let slot ← Memory.slotAt f.slot
    writePre SatbQueues.shared slot
    loadBarrier none f.scratch₀
  | .storePost =>
    let slot ← Memory.slotAt f.slot
    cardMark slot
    return f.scratch₀
  | .compareAndSwap =>
    let expected ← loadBarrier none f.scratch₀
    let new ← loadBarrier none f.scratch₁
    let slot ← Memory.slotAt f.slot
    let outcome ← exchange SatbQueues.shared slot expected new
    return outcome.isSuccess.toNat
  | .arrayCopyPre =>
    let range ← SlotRange.make f.slot f.scratch₀
    copyPre SatbQueues.shared range
    return f.scratch₀
  | .arrayCopyPost =>
    let range ← SlotRange.make f.slot f.scratch₀
    copyPost range
    return f.scratch₀
  | .clonePre =>
    clonePre f.base
    return f.scratch₀

/-- Call the stub of a kind.  Gives the frame after it. -/
def callStub (installed : Bool) (kind : AccessKind) (f : Frame) : Action RegionHeap Frame := do
  if installed then
    let result ← stubResult kind f
    return { f with scratch₀ := result }
  else
    throw (.violation .noBarrierHeap)

end RegionHeap

end ManagedHeap
