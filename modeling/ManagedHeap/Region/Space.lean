/-
# A heap of regions

The heap of the relocating collector is a reserved range cut into regions of one size.
Regions are committed in address order as the heap grows.  Mutators and evacuation each
allocate in a current region of their own; when it is full they take the first empty region,
or else the next one that is not committed.  Mutators leave the last `reserve` regions to
evacuation.

What is to be reported stays with the heap of regions until its owner takes it over, also when
a fault stops the operation that reported it.

A region that was never changed is empty, and it is not kept; `region?` is the view of the
regions, by index, and `region?_putRegion` says what a change does to it.
-/
import Std.Data.TreeMap.Basic
import Std.Data.TreeMap.Lemmas
import ManagedHeap.Event
import ManagedHeap.Region.Search
import ManagedHeap.Reservation

namespace ManagedHeap

/-- What memory is allocated for. -/
inductive AllocKind where
  /-- A buffer, which its region counts as active until it is retired. -/
  | tlab
  /-- A single object. -/
  | shared
  /-- A copy that the collector or a barrier makes. -/
  | evacuation
  deriving DecidableEq, Repr

/-- The name of a kind of allocation. -/
def AllocKind.name : AllocKind → String
  | .tlab => "Tlab"
  | .shared => "Shared"
  | .evacuation => "Evacuation"

/-- The kind of allocation with a name. -/
def AllocKind.ofName? (s : String) : Option AllocKind :=
  [tlab, shared, evacuation].find? (·.name = s)

/-- A heap of regions. -/
structure RegionSpace where
  range : Reservation
  regionSize : Nat
  /-- The regions that were ever changed, by index. -/
  changed : Std.TreeMap Nat Region := ∅
  /-- How many regions are committed. -/
  committed : Nat
  /-- How many only evacuation may take. -/
  reserve : Nat
  mutatorRegion : Option Nat := none
  evacRegion : Option Nat := none
  used : Nat := 0
  /-- What was reported and not taken over yet, in order. -/
  reports : Array Event := #[]

namespace RegionSpace

/-! ## 1. Construction -/

/-- A heap of regions for some options. -/
def make (place : Place) (o : Options) : Except Fault (Except HeapError RegionSpace) := do
  let size := o.regionSize
  let reserved := alignUp o.maxHeapSize size
  let committed := alignUp o.initialHeapSize size
  match ← Reservation.make place reserved committed size with
  | .error e => return .error e
  | .ok range =>
    let count := reserved / size
    let share ← product count o.evacReserve
    let reserve := (share + 99) / 100
    return .ok {
      range, regionSize := size, committed := committed / size, reserve
      reports := #[.reserved range.low range.boundary committed,
        .regions count size (committed / size) reserve] }

/-! ## 2. Looking at the heap -/

/-- How many regions there can be. -/
def maxRegions (s : RegionSpace) : Nat := s.range.reserved / s.regionSize

/-- Committed bytes. -/
def capacity (s : RegionSpace) : Nat := s.range.committed

/-- Reserved bytes. -/
def maxCapacity (s : RegionSpace) : Nat := s.range.reserved

/-- The region with an index as it was at first. -/
def freshRegion (s : RegionSpace) (i : Nat) : Region :=
  Region.fresh i (s.range.low + i * s.regionSize) s.regionSize

/-- The region with an index, committed or not. -/
def region? (s : RegionSpace) (i : Nat) : Option Region :=
  if i < s.maxRegions then some (s.changed.getD i (s.freshRegion i)) else none

/-- Put a region in the place of the one with an index, if there is one. -/
def putRegion (s : RegionSpace) (i : Nat) (r : Region) : RegionSpace :=
  if i < s.maxRegions then { s with changed := s.changed.insert i r } else s

/-- Whether the region with an index is not in use. -/
def isEmptyAt (s : RegionSpace) (i : Nat) : Bool := s.changed[i]?.all (·.isEmpty)

/-- The first committed region that is not in use. -/
def firstEmpty? (s : RegionSpace) : Option Nat :=
  let i := firstUnused s.changed
  if i < s.committed then some i else none

/-- The committed regions. -/
def committedRegions (s : RegionSpace) : List Region :=
  (List.range s.committed).filterMap s.region?

theorem region?_eq_some {s : RegionSpace} {i : Nat} {r : Region} :
    s.region? i = some r ↔ i < s.maxRegions ∧ s.changed.getD i (s.freshRegion i) = r := by
  rw [region?, Option.ite_none_right_eq_some, Option.some.injEq]

@[simp] theorem maxRegions_putRegion (s : RegionSpace) (i : Nat) (r : Region) :
    (s.putRegion i r).maxRegions = s.maxRegions := by
  unfold putRegion
  split <;> rfl

theorem region?_putRegion (s : RegionSpace) (i j : Nat) (r : Region) :
    (s.putRegion i r).region? j = if i = j ∧ i < s.maxRegions then some r else s.region? j := by
  unfold putRegion
  by_cases hi : i < s.maxRegions
  · have hm : RegionSpace.maxRegions { s with changed := s.changed.insert i r } = s.maxRegions :=
      rfl
    have hf : RegionSpace.freshRegion { s with changed := s.changed.insert i r } j =
      s.freshRegion j := rfl
    by_cases hij : i = j
    · subst hij
      simp [region?, hi, hm]
    · simp [region?, hi, hm, hf, hij, Std.TreeMap.getD_insert, Std.LawfulEqCmp.compare_eq_iff_eq]
  · simp [hi]

theorem isEmptyAt_eq {s : RegionSpace} {i : Nat} {r : Region} (h : s.region? i = some r) :
    s.isEmptyAt i = r.isEmpty := by
  obtain ⟨-, rfl⟩ := region?_eq_some.1 h
  rw [isEmptyAt, Std.TreeMap.getD_eq_getD_getElem?]
  cases s.changed[i]? <;> rfl

theorem isEmptyAt_of_lt_firstUnused {s : RegionSpace} {i : Nat} (h : i < firstUnused s.changed) :
    s.isEmptyAt i = false := by
  obtain ⟨r, hr, he⟩ := used_of_lt_firstUnused h
  simp [isEmptyAt, hr, he]

theorem isEmptyAt_firstUnused (s : RegionSpace) : s.isEmptyAt (firstUnused s.changed) = true := by
  unfold isEmptyAt
  cases h : s.changed[firstUnused s.changed]? with
  | none => rfl
  | some r => simpa using isEmpty_of_firstUnused h

theorem firstEmpty?_eq_find? (s : RegionSpace) :
    s.firstEmpty? = (List.range s.committed).find? s.isEmptyAt := by
  unfold firstEmpty?
  by_cases h : firstUnused s.changed < s.committed
  · simp only [h, if_true]
    refine (List.find?_range_eq_some.2 ⟨s.isEmptyAt_firstUnused, by simpa using h, ?_⟩).symm
    exact fun j hj => by simp [isEmptyAt_of_lt_firstUnused hj]
  · simp only [h, if_false]
    refine (List.find?_range_eq_none.2 fun j hj => ?_).symm
    simp [isEmptyAt_of_lt_firstUnused (Nat.lt_of_lt_of_le hj (Nat.not_lt.1 h))]

/-- A region by its index. -/
def region (s : RegionSpace) (i : Nat) : Except Fault Region :=
  match s.region? i with
  | some r => .ok r
  | none => .error .check

theorem region_eq_ok {s : RegionSpace} {i : Nat} {r : Region} :
    s.region i = .ok r ↔ s.region? i = some r := by
  unfold region
  cases s.region? i <;> simp

/-- The index of the region that holds an address, if it is committed. -/
def indexOf? (s : RegionSpace) (a : Nat) : Option Nat :=
  if s.range.low ≤ a ∧ a < s.range.high then some ((a - s.range.low) / s.regionSize) else none

/-- The region that holds an address, if it is committed. -/
def regionOf? (s : RegionSpace) (a : Nat) : Except Fault (Option Region) :=
  match s.indexOf? a with
  | none => .ok none
  | some i => (s.region i).map some

/-- Whether an address is in the allocated part of a region. -/
def contains (s : RegionSpace) (a : Nat) : Except Fault Bool := do
  match ← s.regionOf? a with
  | none => return false
  | some r => return !r.isEmpty && a < r.top

/-- How many of the committed regions are in use. -/
def usedRegions (s : RegionSpace) : Nat :=
  s.changed.foldl (fun n i r => if i < s.committed && !r.isEmpty then n + 1 else n) 0

/-- Regions evacuation may still take: empty ones and those not committed. -/
def freeRegions (s : RegionSpace) : Nat := s.maxRegions - s.usedRegions

/-- Regions mutators may still take. -/
def mutatorFreeRegions (s : RegionSpace) : Nat := s.freeRegions - s.reserve

/-- The region that allocations of a kind come from. -/
def current (s : RegionSpace) : AllocKind → Option Nat
  | .evacuation => s.evacRegion
  | .tlab | .shared => s.mutatorRegion

/-- Whether a region is one that allocations come from. -/
def isCurrent (s : RegionSpace) (i : Nat) : Bool :=
  s.mutatorRegion == some i || s.evacRegion == some i

/-! ## 3. Allocation -/

/-- Report an event. -/
def report (e : Event) : Action RegionSpace Unit :=
  modify fun s => { s with reports := s.reports.push e }

/-- Run an action on a region. -/
def onRegion {α : Type} (i : Nat) (act : Action Region α) : Action RegionSpace α := fun s =>
  match s.region? i with
  | none => .error .check s
  | some r =>
    match act r with
    | .ok a r => .ok a (s.putRegion i r)
    | .error f r => .error f (s.putRegion i r)

/-- Make a region the one that allocations of a kind come from. -/
def setCurrent (kind : AllocKind) (i : Nat) : Action RegionSpace Unit :=
  modify fun s =>
    match kind with
    | .evacuation => { s with evacRegion := some i }
    | .tlab | .shared => { s with mutatorRegion := some i }

/-- Commit the next region.  Gives its index. -/
def commitNext : Action RegionSpace (Option Nat) := do
  let s ← get
  if s.committed = s.maxRegions then
    return none
  else
    match ← (Reservation.expand s.regionSize).onPart RegionSpace.range
        (fun range s => { s with range }) with
    | .error e =>
      report (.notCommitted e)
      return none
    | .ok () =>
      modify fun s => { s with committed := s.committed + 1 }
      let s' ← get
      report (.heapGrows s'.capacity)
      return some s.committed

/-- Take an empty region for allocations of a kind.  Gives its index. -/
def takeEmpty (kind : AllocKind) : Action RegionSpace (Option Nat) := do
  let s ← get
  if kind ≠ .evacuation ∧ s.freeRegions ≤ s.reserve then
    report .reserveReached
    return none
  else
    let found ←
      match s.firstEmpty? with
      | some i => pure (some i)
      | none => commitNext
    match found with
    | none => return none
    | some i =>
      onRegion i Region.makeAllocating
      return some i

/-- Allocate in the current region of a kind, if there is one and it has room. -/
def allocateInCurrent (size : Nat) (kind : AllocKind) : Action RegionSpace (Option Nat) := do
  let s ← get
  match s.current kind with
  | none => return none
  | some i =>
    match ← onRegion i (Region.allocate size) with
    | none => return none
    | some a =>
      if kind = .tlab then onRegion i Region.tlabAllocated
      modify fun s => { s with used := s.used + size }
      return some a

/-- Allocate in the current region, taking up to `rounds - 1` new ones for it. -/
def allocateRounds (size : Nat) (kind : AllocKind) : Nat → Action RegionSpace (Option Nat)
  | 0 => return none
  | rounds + 1 => do
    match ← allocateInCurrent size kind with
    | some a => return some a
    | none =>
      match ← takeEmpty kind with
      | none => return none
      | some i =>
        setCurrent kind i
        allocateRounds size kind rounds

/-- Allocate `size` bytes, if a region can hold them.  Each round but the last takes a free
region, and there are no more of them than regions, so there are rounds enough. -/
def allocate (size : Nat) (kind : AllocKind) : Action RegionSpace (Option Nat) := do
  let s ← get
  if s.regionSize < size then
    report (.aboveRegionSize size)
    return none
  else
    allocateRounds size kind (s.maxRegions + 1)

/-- An allocation buffer that starts at an address was retired. -/
def retireTlab (start : Nat) : Action RegionSpace Unit := do
  let s ← get
  match s.indexOf? start with
  | some i => onRegion i Region.tlabRetired
  | none => report (.strayTlab start)

/-! ## 4. Recycling and the marks of written regions -/

/-- Clear the memory of a relocated region and make it empty. -/
def recycle (i : Nat) : Action (RegionSpace × Memory) Unit := do
  let (s, _) ← get
  let r ← s.region i
  let cleared ← (s.range.clear r.start s.regionSize).onSecond
  if !cleared then
    modify fun x => (x.1, x.2.clear r.start r.used)
  Action.onFirst do
    onRegion i Region.recycle
    modify fun s => { s with used := s.used - r.used }

/-- Whether the region with an index is dirty. -/
def isDirtyAt (s : RegionSpace) (i : Nat) : Bool := s.changed[i]?.any (·.dirty)

/-- The indices of the regions that were written since the last call; the regions become
clean. -/
def takeDirty : Action RegionSpace (List Nat) := do
  let s ← get
  let dirty := (List.range s.committed).filter s.isDirtyAt
  Action.each dirty fun i => do
    let _ ← onRegion i Region.takeDirty
  return dirty

/-! ## 5. Verification -/

/-- The defect of one region, if it has one. -/
def regionDefect? (r : Region) : Except Fault (Option Defect) :=
  if r.limit < r.top ∨ r.top < r.start then
    r.describe.map fun text => some (.topOutOfBounds text)
  else if r.isEmpty && (r.used ≠ 0 || r.objectCount ≠ 0) then
    r.describe.map fun text => some (.emptyHoldsObjects text)
  else .ok none

/-- The allocated bytes of the regions, or the first defect. -/
def usedOf : List Region → Except Fault (Except Defect Nat)
  | [] => .ok (.ok 0)
  | r :: rest => do
    match ← regionDefect? r with
    | some d => return .error d
    | none =>
      match ← usedOf rest with
      | .error d => return .error d
      | .ok n => return .ok (r.used + n)

/-- Check the bounds of the regions and the sizes of the heap. -/
def verify (s : RegionSpace) : Except Fault (Except HeapError Unit) := do
  match ← usedOf s.committedRegions with
  | .error d => return .error (.verification d)
  | .ok used =>
    if s.capacity < used ∨ s.maxCapacity < s.capacity then
      return .error (.verification (.sizes used s.capacity s.maxCapacity))
    else
      return .ok ()

end RegionSpace

end ManagedHeap
