/-
# What options must satisfy together

Each option has a condition of its own (`Options.Setting`).  `Options.validate` checks what
ties them to each other, in a fixed order, and reports the first conflict.  It computes the
size of two regions in a word, and stops when that overflows.
-/
import ManagedHeap.Fault
import ManagedHeap.HeapError

namespace ManagedHeap

/-- The conflict between the region size and the other sizes, for a heap of regions. -/
def Options.regionConflict? (o : Options) : Except Fault (Option OptionsConflict) := do
  let twoRegions ← product 2 o.regionSize
  if o.maxHeapSize < twoRegions then
    return some (.tooFewRegions o.maxHeapSize o.regionSize)
  else if o.regionSize < o.minTlabSize then
    return some (.tlabAboveRegion o.minTlabSize o.regionSize)
  else
    return none

/-- The first conflict between options, if there is one. -/
def Options.conflict? (o : Options) : Except Fault (Option OptionsConflict) :=
  if o.maxTlabSize < o.minTlabSize then
    .ok (some (.tlabBounds o.minTlabSize o.maxTlabSize))
  else if o.maxHeapSize < o.initialHeapSize then
    .ok (some (.heapBounds o.initialHeapSize o.maxHeapSize))
  else if !isAligned o.minTlabSize objectAlignment || !isAligned o.maxTlabSize objectAlignment then
    .ok (some .tlabAlignment)
  else match o.collector with
    | .epsilon => .ok none
    | .shenandoah => o.regionConflict?

/-- Check the options. -/
def Options.validate (o : Options) : Except Fault (Except HeapError Unit) :=
  o.conflict?.map fun
    | some c => .error (.options c)
    | none => .ok ()

end ManagedHeap
