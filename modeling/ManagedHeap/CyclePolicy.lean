/-
# When a cycle starts, and which regions it relocates

The rules see a snapshot of the heap and the live and garbage bytes of the regions that may
be relocated.

* `adaptive` and `static` start a cycle when free memory falls below a threshold, and
  relocate regions with enough garbage.  `static` takes them all, in the order given;
  `adaptive` takes those with the most garbage first, as long as their live bytes fit into
  what is left for evacuation.
* `compact` starts a cycle after a tenth of the heap was allocated, and relocates regions
  with a tenth of garbage.
* `aggressive` always starts a cycle, and relocates regions with any garbage.
-/
import ManagedHeap.Event

namespace ManagedHeap

/-- A snapshot of a heap. -/
structure HeapStatus where
  maxCapacity : Nat := 0
  used : Nat := 0
  /-- What mutators may still allocate. -/
  mutatorFree : Nat := 0
  /-- What evacuation may still allocate. -/
  evacuationFree : Nat := 0
  /-- What was allocated since the last cycle. -/
  allocated : Nat := 0
  regionSize : Nat := 0
  deriving DecidableEq, Repr

/-- A region that may be relocated. -/
structure Candidate where
  index : Nat
  live : Nat
  garbage : Nat
  deriving DecidableEq, Repr

namespace CyclePolicy

/-- A percentage of a size, rounded down, without a product that overflows. -/
def percent (size percentage : Nat) : Nat :=
  size / 100 * percentage + size % 100 * percentage / 100

/-- The percentage that `compact` uses for both of its thresholds. -/
def compactPercentage : Nat := 10

/-- Whether a cycle is due, and what is reported about it. -/
def shouldStart (o : Options) (s : HeapStatus) : Bool × List Event :=
  match o.heuristics with
  | .adaptive | .static =>
    let least := percent s.maxCapacity o.minFreeThreshold
    if s.mutatorFree < least then (true, [.belowThreshold s.mutatorFree least]) else (false, [])
  | .compact => (percent s.maxCapacity compactPercentage < s.allocated, [])
  | .aggressive => (true, [])

/-- The candidates with garbage, and at least `threshold` of it. -/
def worthwhile (threshold : Nat) (cs : List Candidate) : List Candidate :=
  cs.filter fun c => 0 < c.garbage && threshold ≤ c.garbage

/-- The candidates whose live bytes fit into what their predecessors leave of a budget. -/
def withinBudget (budget : Nat) : List Candidate → List Candidate
  | [] => []
  | c :: rest =>
    if c.live ≤ budget then c :: withinBudget (budget - c.live) rest
    else withinBudget budget rest

/-- Put a candidate before the first with less garbage. -/
def insertByGarbage (c : Candidate) : List Candidate → List Candidate
  | [] => [c]
  | d :: rest => if d.garbage ≤ c.garbage then c :: d :: rest else d :: insertByGarbage c rest

/-- The candidates in the order of their garbage, the most first; equal ones keep theirs. -/
def byGarbage : List Candidate → List Candidate
  | [] => []
  | c :: rest => insertByGarbage c (byGarbage rest)

/-- The regions to relocate. -/
def choose (o : Options) (s : HeapStatus) (cs : List Candidate) : List Nat :=
  match o.heuristics with
  | .adaptive =>
    (withinBudget s.evacuationFree
      (byGarbage (worthwhile (percent s.regionSize o.garbageThreshold) cs))).map (·.index)
  | .static => (worthwhile (percent s.regionSize o.garbageThreshold) cs).map (·.index)
  | .compact => (worthwhile (percent s.regionSize compactPercentage) cs).map (·.index)
  | .aggressive => (worthwhile 0 cs).map (·.index)

end CyclePolicy

end ManagedHeap
