/-
# The accounts of a heap are exact

What a heap counts as allocated is what its regions hold, what it counts as committed are its
committed regions, and a region that is not in use has nothing left of its last use: no object, no
mark and no count.  A heap that never collects has one space, which is what it has committed.

Both hold after any program, so the check of the sizes passes at any time, also in the middle of a
cycle.
-/
import ManagedHeap.Proofs.Growth
import ManagedHeap.Proofs.Verification
import Mathlib.Algebra.GroupWithZero.Nat

namespace ManagedHeap

open HeapView

/-- Nothing is left of the last use of a region. -/
structure Region.Blank (r : Region) : Prop where
  top_eq : r.top = r.start
  markLimit_eq : r.markLimit = r.start
  objects : r.objectCount = 0
  marks : r.marks.count = 0
  markedBytes : r.markedBytes = 0

/-- The regions agree with what is counted of them. -/
structure RegionSpace.Exact (s : RegionSpace) : Prop where
  used_eq : s.used = (s.committedRegions.map Region.used).sum
  capacity_eq : s.capacity = s.committed * s.regionSize
  used_le : s.used ≤ s.capacity
  capacity_le : s.capacity ≤ s.maxCapacity
  blank : ∀ i r, s.region? i = some r → (s.committed ≤ i ∨ r.isEmpty = true) → r.Blank
  verify_eq : s.verify = .ok (.ok ())

/-- The space agrees with what is committed. -/
structure BumpHeap.Exact (h : BumpHeap) : Prop where
  used_le : h.used ≤ h.capacity
  capacity_le : h.capacity ≤ h.maxCapacity
  limit_eq : h.space.limit = h.range.high
  verify_eq : h.verify = .ok ()

theorem BumpHeap.Fit.exact {h : BumpHeap} (F : h.Fit) : h.Exact :=
  ⟨F.used_le, F.capacity_le, F.limit_eq, F.verify_eq⟩

namespace RegionHeap

variable {h : RegionHeap} {i : Nat}

/-- **A region that is not in use is blank.** -/
theorem blank_regionAt (L : h.view.Layout) (he : (h.view.region i).state = .empty) :
    (h.regionAt i).Blank := by
  have hr := L.regions i
  obtain ⟨htop, -, hstarts⟩ := hr.empty he
  obtain ⟨hbytes, hmarks⟩ := hr.unmarked he
  exact
    { top_eq := htop
      markLimit_eq := Nat.le_antisymm (Nat.le_trans hr.markLimit_le (Nat.le_of_eq htop)) hr.bottom_le
      objects := hr.starts.count_eq_zero hstarts
      marks := hr.marks.count_eq_zero hmarks
      markedBytes := hbytes }

theorem exact_space (L : h.view.Layout) (B : h.view.Balanced) : h.space.Exact where
  used_eq := by
    rw [committedRegions_eq L.geometry, List.map_map]
    exact used_eq L B
  capacity_eq := capacity_eq L
  used_le := used_le L B
  capacity_le := capacity_le L
  blank i r hi hr := by
    obtain ⟨-, rfl⟩ := RegionSpace.region?_eq_some.1 hi
    refine blank_regionAt L ?_
    rcases hr with hr | hr
    · exact (L.regions i).uncommitted hr
    · exact eq_of_beq hr
  verify_eq := space_verify_eq L

end RegionHeap

/-- **The accounts of every heap are exact** after any program that is permitted; on a heap that
never collects, after any calls that end. -/
theorem accounts_exact :
    (∀ {place o} {h : RegionHeap} {cs}, AnyHeap.build place o = .ok (.ok (.region h)) →
      Permitted Session.execute Session.Allows cs (Session.start h) →
      ∃ as s, Action.runAll Session.execute cs (Session.start h) = .ok as s ∧
        s.heap.space.Exact) ∧
    (∀ {place o} {h h' : BumpHeap} {cs as}, AnyHeap.build place o = .ok (.ok (.bump h)) →
      Action.runAll BumpCall.run cs h = .ok as h' → h'.Exact) := by
  constructor
  · intro place o h cs hb hp
    obtain ⟨as, s, hrun, W, S, -⟩ := Session.ends_program hb hp
    exact ⟨as, s, hrun, RegionHeap.exact_space S.inv.layout S.balanced⟩
  · intro place o h h' cs as hb hrun
    exact ((keeps_runAll BumpCall.keeps_run cs h as h' hrun).fit (BumpHeap.fit_of_build hb)).exact

/-- A heap of regions after a cycle, and one that has grown until it was full. -/
theorem accounts_exact_relocation_growing :
    (∃ h, AnyHeap.build Place.first smallHeap = .ok (.ok (.region h)) ∧
      Permitted Session.execute Session.Allows (relocation ++ [.step .recycle]) (Session.start h) ∧
      ∃ as s, Action.runAll Session.execute (relocation ++ [.step .recycle]) (Session.start h) =
        .ok as s ∧ s.heap.space.Exact) ∧
    (∃ h as h', AnyHeap.build Place.first growingHeap = .ok (.ok (.bump h)) ∧
      Action.runAll BumpCall.run growing h = .ok as h' ∧ h'.Exact) := by
  obtain ⟨h, hb, hp⟩ := Session.permits_iff.1 (show Session.permits Place.first smallHeap
    (relocation ++ [.step .recycle]) = true by decide +kernel)
  obtain ⟨g, as, g', hg, hr⟩ := BumpCall.runs_iff.1
    (show BumpCall.runs Place.first growingHeap growing = true by decide +kernel)
  exact ⟨⟨h, hb, hp, accounts_exact.1 hb hp⟩, g, as, g', hg, hr, accounts_exact.2 hg hr⟩

end ManagedHeap
