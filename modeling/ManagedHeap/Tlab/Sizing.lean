/-
# Sizes of allocation buffers

A mutator's next buffer is twice as large as its last, within the bounds of the options and
of the heap.  With decay, a mutator that has not asked for a buffer in a while starts again
from the least size.  Times are in nanoseconds.
-/
import ManagedHeap.Fault
import ManagedHeap.Options

namespace ManagedHeap

/-- How a mutator's next buffer is sized. -/
structure TlabSizing where
  /-- The size of the last buffer; zero before the first, and after a decay. -/
  size : Nat := 0
  /-- When the last buffer was handed out. -/
  lastRefill : Option Nat := none
  refills : Nat := 0
  deriving DecidableEq, Repr

namespace TlabSizing

/-- How much larger than the last the next buffer is. -/
def growth : Nat := 2

/-- Nanoseconds in a millisecond. -/
def millisecond : Nat := 1000000

/-- The sizing at time `now`, after a decay if one is due. -/
def decayed (t : TlabSizing) (o : Options) (now : Nat) : TlabSizing :=
  if o.elasticTlabDecay && t.lastRefill.any fun last => o.tlabDecayTime * millisecond < now - last
  then { t with size := 0 }
  else t

/-- The most that a buffer may hold. -/
def most (o : Options) (maxSize : Nat) : Nat := min maxSize o.maxTlabSize

/-- The least that a buffer for `minSize` bytes may hold. -/
def least (o : Options) (minSize maxSize : Nat) : Nat :=
  min (max minSize o.minTlabSize) (most o maxSize)

/-- The size of the next buffer for a mutator that needs `minSize` bytes at once, or none if
the heap's limit `maxSize` is lower; with the sizing after a decay. -/
def next (t : TlabSizing) (minSize maxSize : Nat) (o : Options) (now : Nat) :
    Except Fault (TlabSizing × Option Nat) :=
  if most o maxSize < minSize then .ok (t, none)
  else if !o.elasticTlab then
    .ok (t, some (alignUp (least o minSize maxSize) objectAlignment))
  else do
    let t := t.decayed o now
    let wanted ← product t.size growth
    let size := min (max wanted (least o minSize maxSize)) (most o maxSize)
    return (t, some (alignUp size objectAlignment))

/-- The sizing after a buffer was handed out. -/
def record (t : TlabSizing) (size now : Nat) : TlabSizing := ⟨size, some now, t.refills + 1⟩

end TlabSizing

end ManagedHeap
