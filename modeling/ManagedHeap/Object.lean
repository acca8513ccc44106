/-
# Objects in memory

    +-------------+--------------------+------------------+----------------+
    | status word | layout word        | reference fields | payload        |
    +-------------+--------------------+------------------+----------------+
      forwarding    ref count | size     one word each      rest of `size`

An object is named by the address of its status word.  The status word is zero, or holds
the address of a copy of the object with the two low bits set; an object that could not be
copied forwards to itself.  The layout word holds the size of the object in bytes in its
low half and the number of reference fields in its high half.

Reading never fails: what is read from memory that holds no object is whatever the words
say.  Writing a header checks that the size covers it.
-/
import ManagedHeap.Memory

namespace ManagedHeap.Object

/-! ## 1. Sizes -/

/-- The status word and the layout word. -/
def headerBytes : Nat := 2 * wordBytes

/-- The size of an object without fields and payload. -/
def minSize : Nat := headerBytes

/-- One more than the largest number that half a word can hold. -/
def halfWordLimit : Nat := 4294967296

/-- The layout word has half a word for the size, and objects end at words. -/
def maxSize : Nat := alignDown (halfWordLimit - 1) objectAlignment

/-- The size of an object with `refs` reference fields and `payload` bytes of other data,
unless it is above `maxSize`. -/
def sizeFor (refs payload : Nat) : Option Nat := do
  let padded ← (sum payload (objectAlignment - 1)).toOption
  let fields ← (product refs wordBytes).toOption
  let front ← (sum fields headerBytes).toOption
  let size ← (sum front (alignDown padded objectAlignment)).toOption
  if size ≤ maxSize then some size else none

/-! ## 2. The layout word -/

/-- The layout word of an object of `size` bytes with `refs` reference fields. -/
def layoutWord (size refs : Nat) : Nat := refs * halfWordLimit + size

/-- The size of an object in bytes, header included. -/
def size (m : Memory) (object : Nat) : Nat := m.read (object + wordBytes) % halfWordLimit

/-- The number of reference fields of an object. -/
def refCount (m : Memory) (object : Nat) : Nat := m.read (object + wordBytes) / halfWordLimit

/-- The address after the fields of an object. -/
def payloadStart (m : Memory) (object : Nat) : Nat :=
  object + headerBytes + refCount m object * wordBytes

/-- The address after an object. -/
def endOf (m : Memory) (object : Nat) : Nat := object + size m object

/-- The slot of the reference field `i`, which must exist. -/
def fieldSlot (m : Memory) (object i : Nat) : Except Fault Nat := do
  require (i < refCount m object)
  Memory.slotAt (object + headerBytes + i * wordBytes)

/-- The slots of `len` reference fields from field `i` on, unless they run past the last.
Also an empty run starts at a field. -/
def fieldRange? (m : Memory) (object i len : Nat) : Except Fault (Option SlotRange) := do
  let start ← fieldSlot m object i
  return if refCount m object < i + len then none else some ⟨start, len⟩

/-- Whether an object ends at or below `stop`, by its size and by its fields. -/
def endsBy (m : Memory) (object stop : Nat) : Bool :=
  payloadStart m object ≤ stop && endOf m object ≤ stop

/-- The word at byte `offset` of the payload, which must be in it. -/
def payloadWord (m : Memory) (object offset : Nat) : Except Fault Nat := do
  require (offset % wordBytes = 0)
  let a ← sum (payloadStart m object) offset
  let next ← sum a wordBytes
  require (next ≤ endOf m object)
  return a

/-- Write the header of a new object.  The words of its fields must be zero already, which
makes them null. -/
def writeHeader (start size refs : Nat) : Action Memory Nat := do
  require (headerBytes + refs * wordBytes ≤ size)
  require (size ≤ maxSize)
  require (isAligned start objectAlignment = true)
  Memory.store start 0
  Memory.store (start + wordBytes) (layoutWord size refs)
  return start

/-- Run an action for each reference slot of an object, in order. -/
def eachSlot {σ : Type} (memory : σ → Memory) (object : Nat) (f : Nat → Action σ Unit) :
    Action σ Unit := do
  let s ← get
  Action.upTo 0 (refCount (memory s) object) fun i => do
    let s ← get
    let slot ← fieldSlot (memory s) object i
    f slot

/-! ## 3. Copies -/

/-- Copy the reference fields of an object, in order. -/
def copyFields (object dst refs : Nat) : Action Memory Unit :=
  Action.upTo 0 refs fun i => do
    let m ← get
    let slot ← fieldSlot m object i
    Memory.store (dst + headerBytes + i * wordBytes) (m.read slot)

/-- Copy an object to a range of its size that does not overlap it.  The copy is not
forwarded, whatever the object is. -/
def copy (object dst : Nat) : Action Memory Nat := do
  let m ← get
  let bytes := size m object
  let refs := refCount m object
  copyFields object dst refs
  let front := headerBytes + refs * wordBytes
  let rest ← distance bytes front
  modify fun m => m.copyBytes (object + front) (dst + front) rest
  writeHeader dst bytes refs

/-! ## 4. Forwarding -/

/-- The two low bits of the status word of a forwarded object. -/
def forwardedTag : Nat := 3

/-- The values that the low bits of a status word can have. -/
def tagValues : Nat := 4

/-- The address in a status word with the tag. -/
def untagged (status : Nat) : Nat := status / tagValues * tagValues

/-- An address with the tag. -/
def tagged (address : Nat) : Nat := untagged address + forwardedTag

/-- Whether an object has a copy, or forwards to itself. -/
def isForwarded (m : Memory) (object : Nat) : Bool := m.read object % tagValues == forwardedTag

/-- The copy of an object, if it is forwarded. -/
def forwardee? (m : Memory) (object : Nat) : Option Nat :=
  if isForwarded m object then some (untagged (m.read object)) else none

/-- Whether an object forwards to itself. -/
def isSelfForwarded (m : Memory) (object : Nat) : Bool := forwardee? m object == some object

/-- The copy of an object if there is one, else the object. -/
def resolve (m : Memory) (object : Nat) : Nat :=
  if object = null then object else (forwardee? m object).getD object

/-- Make `dst` the copy of an object.  Only the first such call has an effect; the others get
the copy that it installed. -/
def install (object dst : Nat) : Action Memory (Except Nat Nat) := do
  let m ← get
  let status := m.read object
  if status = 0 then
    set (m.write object (tagged dst))
    return .ok dst
  else
    require (status % tagValues = forwardedTag)
    return .error (untagged status)

/-- Forget that an object was forwarded. -/
def clearForwarding (object : Nat) : Action Memory Unit := Memory.store object 0

end ManagedHeap.Object
