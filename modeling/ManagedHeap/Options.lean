/-
# Options of a heap

All options of a heap, with their defaults.  Sizes are in bytes and times in milliseconds.
How an option is set by name is in `Options.Setting`, what the options must satisfy
together in `Options.Agreement`.
-/
import ManagedHeap.ByteSize

namespace ManagedHeap

/-! ## 1. Kinds of heap -/

/-- Which collector a heap has, and with it which barriers. -/
inductive Collector where
  /-- Allocation by moving a bound through a growing heap, and no reclamation. -/
  | epsilon
  /-- Marking and relocation next to the running program, over a heap of regions. -/
  | shenandoah
  deriving DecidableEq, Repr

/-- The name of a collector. -/
def Collector.name : Collector → String
  | .epsilon => "Epsilon"
  | .shenandoah => "Shenandoah"

/-- The collector with a name. -/
def Collector.ofName? (s : String) : Option Collector :=
  [epsilon, shenandoah].find? (·.name = s)

/-- The rules by which a relocating heap starts cycles and chooses regions. -/
inductive Heuristics where
  | adaptive
  | static
  | compact
  | aggressive
  deriving DecidableEq, Repr

/-- The name of a set of rules. -/
def Heuristics.name : Heuristics → String
  | .adaptive => "Adaptive"
  | .static => "Static"
  | .compact => "Compact"
  | .aggressive => "Aggressive"

/-- The set of rules with a name. -/
def Heuristics.ofName? (s : String) : Option Heuristics :=
  [adaptive, static, compact, aggressive].find? (·.name = s)

/-! ## 2. The options -/

/-- The options of a heap. -/
structure Options where
  collector : Collector := .epsilon
  /-- What is committed when the heap is built. -/
  initialHeapSize : Nat := 16 * ByteSize.Magnitude.mega.bytes
  /-- What is reserved.  A heap never grows beyond it. -/
  maxHeapSize : Nat := 64 * ByteSize.Magnitude.mega.bytes
  /-- The least step in which a heap grows. -/
  minHeapExpand : Nat := 128 * ByteSize.Magnitude.mega.bytes
  /-- The least size of an allocation buffer. -/
  minTlabSize : Nat := 2 * ByteSize.Magnitude.kilo.bytes
  /-- The largest size of an allocation buffer. -/
  maxTlabSize : Nat := 4 * ByteSize.Magnitude.mega.bytes
  /-- End the process when an allocation fails for good. -/
  exitOnOutOfMemory : Bool := false
  /-- Grow a mutator's allocation buffers with its demand. -/
  elasticTlab : Bool := true
  /-- Shrink the buffers of a mutator that has not asked for one in a while. -/
  elasticTlabDecay : Bool := true
  /-- How long that while is. -/
  tlabDecayTime : Nat := 1000
  /-- How often occupancy is printed while a heap fills up; never when zero. -/
  printHeapSteps : Nat := 20
  /-- Refresh the counters after this many allocated bytes. -/
  updateCountersStep : Nat := ByteSize.Magnitude.mega.bytes
  heuristics : Heuristics := .adaptive
  regionSize : Nat := 256 * ByteSize.Magnitude.kilo.bytes
  /-- The percentage of garbage from which a region is relocated. -/
  garbageThreshold : Nat := 25
  /-- The percentage of free memory below which a cycle starts. -/
  minFreeThreshold : Nat := 10
  /-- The percentage of the regions that mutators leave to evacuation. -/
  evacReserve : Nat := 5
  /-- Workers of the collector. -/
  concGcThreads : Nat := 1
  /-- Entries that a mutator records before it hands them to the collector. -/
  satbBufferSize : Nat := 1024
  /-- Write the resolved reference back to the slot it was loaded from. -/
  selfHealing : Bool := true
  /-- Mark the region of a slot that was written. -/
  cardBarrier : Bool := true
  /-- Time between two looks of the controller at the heap. -/
  controlInterval : Nat := 10
  deriving DecidableEq, Repr

end ManagedHeap
