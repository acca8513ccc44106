/-
# Live bytes

What a region gives as its live bytes is exact after any program, in the middle of a cycle as well: the
sizes of the objects that the last marking found, and all that was allocated since.  So there is never
more live than used, and what the rules for the choice of regions call garbage is the difference.

The sizes are those in the memory as it is now.  What is marked need not be an object of the region any
more: a region keeps its marks when not all of its objects could be moved, and those that were are
objects of another region.

* Section 1: one region.
* Section 2: programs.
-/
import ManagedHeap.Proofs.CompiledCode

namespace ManagedHeap

/-! ## 1. A region -/

/-- The live bytes of a region are exact, when `m` is the memory that it is in. -/
structure Region.Accounted (r : Region) (m : Memory) : Prop where
  start_le : r.start ≤ r.markLimit
  markLimit_le : r.markLimit ≤ r.top
  top_le : r.top ≤ r.limit
  mem_marks : ∀ o, o ∈ r.marks.members ↔ r.isMarked o = .ok true
  markedBytes_eq : r.markedBytes = ∑ o ∈ r.marks.members, Object.size m o
  inside : ∀ o, r.isMarked o = .ok true → r.start ≤ o ∧ o + Object.size m o ≤ r.markLimit
  apart : ∀ o p, r.isMarked o = .ok true → r.isMarked p = .ok true → o < p →
    o + Object.size m o ≤ p
  /-- The garbage is the rest of what is used, and not cut off at zero. -/
  sizes : ∃ live garbage, r.liveBytes = .ok live ∧ r.garbageBytes = .ok garbage ∧
    live = ∑ o ∈ r.marks.members, Object.size m o + (r.top - r.markLimit) ∧
    live + garbage = r.used

namespace HeapView

variable {V : HeapView}

/-- **No more is live than is used.** -/
theorem Tallied.live_le (X : V.Tallied) (L : V.Layout) (i : Nat) :
    (V.region i).live ≤ (V.region i).top - (V.region i).bottom := by
  have hr := L.regions i
  have h := X.markedBytes_le L i
  have hb := hr.bottom_le
  have ht := hr.markLimit_le
  simp only [RegionView.live]
  omega

/-- Where no region is in use, nothing is marked. -/
theorem Layout.tallied_of_empty (L : V.Layout) (he : ∀ i, (V.region i).state = .empty) :
    V.Tallied := by
  have hmark {o : Nat} : ¬ V.HasMark o := ((L.regions _).unmarked (he _)).2 o
  have hpub {o : Nat} : ¬ V.Published o := fun h => (L.bounds h).state (he _)
  refine ⟨fun i => ?_, fun h => absurd h hmark, fun h => absurd h hmark, fun h => absurd h hmark,
    fun h => absurd h hmark, fun h => absurd h hpub, fun ht => ?_⟩
  · obtain ⟨hbytes, hmarks⟩ := (L.regions i).unmarked (he i)
    rw [hbytes, (L.regions i).marks.members_eq_empty hmarks, Finset.sum_empty]
  · obtain ⟨u, hu, rfl, hlt⟩ := buffer_eq_some.1 ht
    exact absurd (he _) (L.tlab_region hu (L.tlab_start hu hlt)).2.1

end HeapView

open HeapView

/-- The invariant, said of the functions of a region. -/
theorem RegionHeap.accounted {h : RegionHeap} (L : h.view.Layout) (X : h.view.Tallied) (i : Nat) :
    (h.regionAt i).Accounted h.core.memory := by
  have hr := L.regions i
  have hmark (o : Nat) : (h.regionAt i).isMarked o = .ok true ↔ (h.view.region i).marks.Has o :=
    hr.marks.contains_eq_true L.geometry.size_aligned
  have hhas {o : Nat} (ho : (h.regionAt i).isMarked o = .ok true) :
      h.view.HasMark o ∧ h.view.index o = i := by
    obtain ⟨hm, -, hi⟩ := L.mem_members.1 (hr.marks.mem_members.2 ((hmark o).1 ho))
    exact ⟨hm, hi⟩
  have hlive := X.live_le L i
  refine
    { start_le := hr.bottom_le
      markLimit_le := hr.markLimit_le
      top_le := hr.top_le
      mem_marks := fun o => hr.marks.mem_members.trans (hmark o).symm
      markedBytes_eq := X.bytes i
      inside := fun o ho => ⟨(hr.marks.has_bounds ((hmark o).1 ho)).1, ?_⟩
      apart := fun o p ho hp hlt => X.apart (hhas ho).1 (hhas hp).1 hlt
      sizes := ⟨_, _, liveBytes_eq L (withStates_states _).symm i,
        garbageBytes_eq L (withStates_states _).symm i, ?_, Nat.add_sub_of_le hlive⟩ }
  · obtain ⟨hm, rfl⟩ := hhas ho
    exact X.below hm
  · exact congrArg (· + _) (X.bytes i)

/-! ## 2. Programs -/

namespace Session

variable {s : Session} {W : World} {c : Command} {t : Task} {place : Place} {o : Options}
  {h : RegionHeap} {ts : List Task}

/-- **A command that is allowed** keeps the count of what is marked right. -/
theorem Sound.tallied_execute (S : s.Sound W) (ha : s.Allows c) (X : s.heap.view.Tallied) :
    Ends (execute c) s fun _ s' => s'.heap.view.Tallied := by
  cases c with
  | operation op =>
    refine (S.ends_perform ha).mono ?_
    rintro a _ ⟨h', W', b, I, rfl, -, P⟩
    exact P.persists.tallied X
  | step c =>
    simp only [execute, ends_bind, ends_pure]
    refine (S.ends_advance ha).mono ?_
    rintro b _ ⟨h', W', rfl, -, -, -, ht, -⟩
    exact ht X
  | cancel =>
    simp only [execute, ends_bind, ends_pure]
    refine S.ends_cancel.mono ?_
    rintro b _ ⟨-, -, h', d, rfl, hv⟩
    have X' : ({ s.heap.view with cancelRequested := d }).Tallied := { X with }
    exact hv ▸ X'

/-- **A task that is allowed** does as well. -/
theorem Sound.tallied_runTask (S : s.Sound W) (ha : s.AllowsTask t) (X : s.heap.view.Tallied) :
    Ends (runTask t) s fun _ s' => s'.heap.view.Tallied := by
  cases t with
  | command c => exact S.tallied_execute ha X
  | access a =>
    simp only [runTask, access, onHeap, ends_bind, ends_get, ends_onPart, ends_modify, ends_pure]
    refine (S.ends_runAccess ha).mono ?_
    rintro r h' ⟨W', b, I, P⟩
    exact P.persists.tallied X

/-- A heap that was built has no marks. -/
theorem tallied_start (hb : AnyHeap.build place o = .ok (.ok (.region h))) :
    (start h).heap.view.Tallied :=
  (sound_start hb).inv.layout.tallied_of_empty fun i => by
    show (h.view.region i).state = .empty
    rw [(RegionHeap.pristine_of_build hb).region]
    rfl

/-- **The live bytes of every region are exact** after any program, of which parts may be compiled. -/
theorem live_bytes_exact (hb : AnyHeap.build place o = .ok (.ok (.region h)))
    (hp : Permitted runTask AllowsTask ts (start h)) :
    ∃ as s, Action.runAll runTask ts (start h) = .ok as s ∧
      ∀ i r, s.heap.space.region? i = some r → r.Accounted s.heap.core.memory := by
  obtain ⟨as, s, hrun, ⟨W, S⟩, X⟩ := ends_runAll_inv
    (R := fun s => (∃ W, s.Sound W) ∧ s.heap.view.Tallied)
    (fun s t ⟨⟨W, S⟩, X⟩ ha => (S.ends_runTask ha).and (S.tallied_runTask ha X))
    ⟨⟨_, sound_start hb⟩, tallied_start hb⟩ hp
  refine ⟨as, s, hrun, fun i r hi => ?_⟩
  obtain ⟨-, rfl⟩ := RegionSpace.region?_eq_some.1 hi
  exact RegionHeap.accounted S.inv.layout X i

/-- In the middle of a cycle. -/
theorem live_bytes_exact_relocation :
    ∃ h, AnyHeap.build Place.first smallHeap = .ok (.ok (.region h)) ∧
      Permitted runTask AllowsTask compiledRelocation (start h) ∧
      ∃ as s, Action.runAll runTask compiledRelocation (start h) = .ok as s ∧
        ∀ i r, s.heap.space.region? i = some r → r.Accounted s.heap.core.memory := by
  obtain ⟨h, hb, hp⟩ := builds_iff.1 (show builds Place.first smallHeap (fun h =>
    decide (Permitted runTask AllowsTask compiledRelocation (start h))) = true by decide +kernel)
  have hp := of_decide_eq_true hp
  exact ⟨h, hb, hp, live_bytes_exact hb hp⟩

end Session

end ManagedHeap
