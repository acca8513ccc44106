/-
# What marking leaves alone

Marking writes down which objects it has reached: each region has its marks, the bytes of the marked
objects and the limit above which nothing is marked, and the heap has a queue and the recorded
references.  Two heaps are the *same but for marks* if they differ in no more than that, and in what
belongs to a cycle, to the safepoint and to the journal (`RegionHeap.SameButMarks`).  Their words,
roots, objects and regions are the same then, and so is all that allocation looks at.

A cycle that marks, in whatever order, and one that is cancelled leave the same heap but for marks,
also a heap that is not in order.  The pre-write barriers of the mutators do so as well, so they are
of no account to the rest of an operation: on heaps that are the same but for marks, while no copies
exist, whatever a mutator does gives the same and leads to heaps that are the same but for marks
(`accords_level`).

* Section 1: one region.
* Section 2: the regions of a heap.
* Section 3: roots.
* Section 4: the heap, and what is noted on it.
* Section 5: marking.
* Section 6: the end of a cycle that was cancelled.
* Section 7: two heaps.
-/
import ManagedHeap.Proofs.Agreement
import ManagedHeap.Proofs.Supply
import ManagedHeap.Proofs.Workers

namespace ManagedHeap

/-! ## 1. One region -/

namespace Region

/-- The regions differ in what marking wrote down at most. -/
structure SameButMarks (r r' : Region) : Prop where
  index : r'.index = r.index
  space : r'.space = r.space
  state : r'.state = r.state
  activeTlabs : r'.activeTlabs = r.activeTlabs
  dirty : r'.dirty = r.dirty
  evacFailed : r'.evacFailed = r.evacFailed
  starts : r'.starts = r.starts

instance : IsPreorder Region SameButMarks where
  refl _ := ⟨rfl, rfl, rfl, rfl, rfl, rfl, rfl⟩
  trans _ _ _ S S' := ⟨S'.index.trans S.index, S'.space.trans S.space, S'.state.trans S.state,
    S'.activeTlabs.trans S.activeTlabs, S'.dirty.trans S.dirty, S'.evacFailed.trans S.evacFailed,
    S'.starts.trans S.starts⟩

theorem SameButMarks.symm {r r' : Region} (S : r.SameButMarks r') : r'.SameButMarks r :=
  ⟨S.index.symm, S.space.symm, S.state.symm, S.activeTlabs.symm, S.dirty.symm, S.evacFailed.symm,
    S.starts.symm⟩

variable {α : Type} {m : Memory} {o n : Nat}

/-- A region with other marks. -/
theorem sameButMarks_marks {r : Region} {limit bytes : Nat} {marks : AddressSet} :
    r.SameButMarks { r with markLimit := limit, markedBytes := bytes, marks := marks } :=
  ⟨rfl, rfl, rfl, rfl, rfl, rfl, rfl⟩

theorem keepsMarks_onMarks {act : Action AddressSet α} : Keeps SameButMarks (onMarks act) :=
  keeps_onPart fun _ _ => sameButMarks_marks

theorem keepsMarks_prepareForMark : Keeps SameButMarks prepareForMark :=
  keeps_modify_bind (fun _ => sameButMarks_marks) fun _ => keepsMarks_onMarks.bind fun _ =>
    keeps_modify fun _ => sameButMarks_marks

theorem keepsMarks_mark : Keeps SameButMarks (mark m o) := by
  refine keeps_get.bind fun r => Keeps.ite keeps_pure (keepsMarks_onMarks.bind fun new => ?_)
  refine Keeps.ite ?_ keeps_pure
  exact keeps_modify_bind (fun _ => sameButMarks_marks) fun _ => keeps_pure

theorem agrees_onSpace {act : Action BumpSpace α} : Agrees SameButMarks (onSpace act) :=
  .onSame (fun _ _ S => S.space) fun _ _ _ S => { S with space := rfl }

theorem agrees_tlabAllocated : Agrees SameButMarks tlabAllocated :=
  .modify fun _ _ S => { S with activeTlabs := by rw [S.activeTlabs] }

theorem agrees_tlabRetired : Agrees SameButMarks tlabRetired := by
  refine .of_after (f := fun r => { r with
    activeTlabs := (r.activeTlabs + (wordLimit - 1)) % wordLimit }) (fun r => ?_) fun r r' S => ?_
  · rw [tlabRetired, after_bind, after_get, after_bind, after_set, after_lift]
    exact fun _ _ => rfl
  · rw [S.activeTlabs]
    exact ⟨S.index, S.space, S.state, rfl, S.dirty, S.evacFailed, S.starts⟩

theorem agrees_makeAllocating : Agrees SameButMarks makeAllocating := by
  refine .of_after (f := fun r => { r with markLimit := r.top, state := .allocating }) (fun r => ?_)
    fun r r' S => { S with state := rfl }
  simp only [makeAllocating, after_bind, after_modify]
  exact after_move.mono fun _ _ h => h.2

theorem agrees_markDirty : Agrees SameButMarks markDirty :=
  .modify fun _ _ S => { S with dirty := rfl }

theorem agrees_setStart : Agrees SameButMarks (setStart o) :=
  Agrees.bind (.onSame (fun _ _ S => S.starts) fun _ _ _ S => { S with starts := rfl }) fun _ =>
    .pure

end Region

/-! ## 2. The regions of a heap -/

namespace RegionSpace

/-- The regions differ in what marking wrote down at most. -/
structure SameButMarks (s s' : RegionSpace) : Prop where
  range : s'.range = s.range
  regionSize : s'.regionSize = s.regionSize
  committed : s'.committed = s.committed
  reserve : s'.reserve = s.reserve
  mutatorRegion : s'.mutatorRegion = s.mutatorRegion
  evacRegion : s'.evacRegion = s.evacRegion
  used : s'.used = s.used
  region : ∀ i, (s.regionAt i).SameButMarks (s'.regionAt i)

instance : IsPreorder RegionSpace SameButMarks where
  refl s := ⟨rfl, rfl, rfl, rfl, rfl, rfl, rfl, fun i => refl_of Region.SameButMarks (s.regionAt i)⟩
  trans _ _ _ S S' := ⟨S'.range.trans S.range, S'.regionSize.trans S.regionSize,
    S'.committed.trans S.committed, S'.reserve.trans S.reserve,
    S'.mutatorRegion.trans S.mutatorRegion, S'.evacRegion.trans S.evacRegion, S'.used.trans S.used,
    fun i => trans_of Region.SameButMarks (S.region i) (S'.region i)⟩

section
variable {α : Type} {s t : RegionSpace} {i n : Nat} {r r' : Region} {kind : AllocKind}

theorem SameButMarks.symm (S : s.SameButMarks t) : t.SameButMarks s :=
  ⟨S.range.symm, S.regionSize.symm, S.committed.symm, S.reserve.symm, S.mutatorRegion.symm,
    S.evacRegion.symm, S.used.symm, fun i => (S.region i).symm⟩

/-- Such regions offer the same room. -/
theorem SameButMarks.alike (S : s.SameButMarks t) : Alike s t :=
  ⟨S.range, S.regionSize, S.committed, S.reserve, S.mutatorRegion, S.evacRegion, S.used,
    fun i => (S.region i).space, fun i => (S.region i).state⟩

theorem SameButMarks.indexOf? (S : s.SameButMarks t) (a : Nat) : t.indexOf? a = s.indexOf? a := by
  rw [RegionSpace.indexOf?, RegionSpace.indexOf?, S.range, S.regionSize]

theorem SameButMarks.freeRegions (S : s.SameButMarks t) : t.freeRegions = s.freeRegions := by
  rw [RegionSpace.freeRegions, RegionSpace.freeRegions, usedRegions_eq, usedRegions_eq,
    S.alike.maxRegions, S.committed, S.alike.isEmptyAt]

/-- One region of each is replaced. -/
theorem SameButMarks.putRegion (S : s.SameButMarks t) (hi : i < s.maxRegions)
    (hr : r.SameButMarks r') : (s.putRegion i r).SameButMarks (t.putRegion i r') := by
  have hi' : i < t.maxRegions := S.alike.maxRegions.symm ▸ hi
  have hs (j : Nat) := regionAt_putRegion (j := j) (r := r) hi
  have ht (j : Nat) := regionAt_putRegion (j := j) (r := r') hi'
  have hput : s.putRegion i r = { s with changed := s.changed.insert i r } := if_pos hi
  have hput' : t.putRegion i r' = { t with changed := t.changed.insert i r' } := if_pos hi'
  rw [hput] at hs ⊢
  rw [hput'] at ht ⊢
  refine { S with region := fun j => ?_ }
  rw [hs, ht]
  split
  · exact hr
  · exact S.region j

/-- One region gets other marks. -/
theorem keepsMarks_onRegion {act : Action Region α} (h : Keeps Region.SameButMarks act) :
    Keeps SameButMarks (onRegion i act) := by
  intro s
  refine after_onRegion fun hi => (h _).mono fun _ r hr => ?_
  have hs (j : Nat) := regionAt_putRegion (j := j) (r := r) hi
  have hput : s.putRegion i r = { s with changed := s.changed.insert i r } := if_pos hi
  rw [hput] at hs ⊢
  refine { refl_of SameButMarks s with region := fun j => ?_ }
  rw [hs]
  split
  · rename_i hj
    subst hj
    exact hr
  · exact refl_of Region.SameButMarks (s.regionAt j)

theorem agrees_onRegion {act : Action Region α} (h : Agrees Region.SameButMarks act) :
    Agrees SameButMarks (onRegion i act) := by
  intro s t a b s' t' S hs ht
  obtain ⟨hi, r, hr, rfl⟩ := onRegion_eq_ok.1 hs
  obtain ⟨-, r', hr', rfl⟩ := onRegion_eq_ok.1 ht
  obtain ⟨rfl, hrr⟩ := h (S.region i) hr hr'
  exact ⟨rfl, S.putRegion hi hrr⟩

theorem agrees_report {e : Event} : Agrees SameButMarks (report e) :=
  .modify fun _ _ S => { S with }

theorem agrees_setCurrent : Agrees SameButMarks (setCurrent kind i) := by
  cases kind with
  | evacuation => exact .modify fun _ _ S => { S with evacRegion := rfl }
  | tlab | shared => exact .modify fun _ _ S => { S with mutatorRegion := rfl }

/-- The range grows at its end. -/
theorem keeps_low : Keeps (fun x y : Reservation => y.low = x.low) (Reservation.expand n) := by
  intro x
  unfold Reservation.expand
  rw [after_bind, after_get, after_bind, after_lift]
  intro _ _
  rw [after_bind, after_lift]
  intro _ _
  rw [after_ite, after_bind, after_set, after_pure, after_pure]
  exact ⟨fun _ => rfl, fun _ => rfl⟩

theorem agrees_commitNext : Agrees SameButMarks commitNext := by
  refine .get_bind fun s t S => ⟨?_, .ite .pure ?_⟩
  · simp only [S.committed, S.alike.maxRegions, S.regionSize]
  · refine Agrees.bind (.onKept keeps_low (fun _ _ S => S.range) ?_) fun r => ?_
    · intro s t x S hx
      have hs (i : Nat) : RegionSpace.regionAt { s with range := x } i = s.regionAt i := by
        rw [regionAt, regionAt, freshRegion, freshRegion, hx]
      have ht (i : Nat) : RegionSpace.regionAt { t with range := x } i = t.regionAt i := by
        rw [regionAt, regionAt, freshRegion, freshRegion, hx, S.range]
      exact { S with range := rfl, region := fun i => by rw [hs, ht]; exact S.region i }
    cases r with
    | error e => exact agrees_report.bind fun _ => .pure
    | ok u =>
      refine Agrees.bind (.modify fun _ _ S => { S with committed := by rw [S.committed] })
        fun _ => .get_bind fun s' t' S' => ⟨?_, agrees_report.bind fun _ => .pure⟩
      simp only [capacity, S'.range]

theorem agrees_takeEmpty : Agrees SameButMarks (takeEmpty kind) := by
  refine .get_bind fun s t S => ⟨?_, .ite (agrees_report.bind fun _ => .pure) ?_⟩
  · simp only [S.freeRegions, S.reserve, S.alike.firstEmpty?]
  · cases s.firstEmpty?
    on_goal 1 => refine agrees_commitNext.bind ?_
    on_goal 2 => refine Agrees.pure.bind ?_
    all_goals
      rintro (_ | i)
      · exact .pure
      · exact (agrees_onRegion Region.agrees_makeAllocating).bind fun _ => .pure

theorem agrees_allocateInCurrent : Agrees SameButMarks (allocateInCurrent n kind) := by
  refine .get_bind fun s t S => ⟨by simp only [S.alike.current], ?_⟩
  cases s.current kind with
  | none => exact .pure
  | some i =>
    refine (agrees_onRegion Region.agrees_onSpace).bind fun a => ?_
    have hused : Agrees SameButMarks (modify fun s => { s with used := s.used + n }) :=
      .modify fun _ _ S => { S with used := by rw [S.used] }
    cases a with
    | none => exact .pure
    | some a =>
      by_cases hk : kind = .tlab
      · simp only [hk, if_true]
        exact (agrees_onRegion Region.agrees_tlabAllocated).bind fun _ => hused.bind fun _ => .pure
      · simp only [hk, if_false]
        exact hused.bind fun _ => .pure

theorem agrees_allocateRounds {rounds : Nat} :
    Agrees SameButMarks (allocateRounds n kind rounds) := by
  induction rounds with
  | zero => exact .pure
  | succ rounds ih =>
    refine agrees_allocateInCurrent.bind fun r => ?_
    cases r with
    | some a => exact .pure
    | none =>
      refine agrees_takeEmpty.bind fun r => ?_
      cases r with
      | none => exact .pure
      | some i => exact agrees_setCurrent.bind fun _ => ih

/-- **Regions that are the same but for marks supply the same.** -/
theorem agrees_allocate : Agrees SameButMarks (allocate n kind) := by
  refine .get_bind fun s t S => ⟨by simp only [S.regionSize, S.alike.maxRegions], ?_⟩
  exact .ite (agrees_report.bind fun _ => .pure) agrees_allocateRounds

theorem agrees_retireTlab : Agrees SameButMarks (retireTlab n) := by
  refine .get_bind fun s t S => ⟨by simp only [S.indexOf?], ?_⟩
  cases s.indexOf? n with
  | some i => exact agrees_onRegion Region.agrees_tlabRetired
  | none => exact agrees_report

end

end RegionSpace

/-! ## 3. Roots -/

namespace RootSet

variable {r r' : RootSet} {slot : Nat}

@[simp] theorem prune_prune : r.prune.prune = r.prune := by
  simp [prune]

theorem prune_register : r.register.prune = r.prune.register := by
  simp [prune, register, nextSlot]

theorem prune_drop : (r.drop slot).prune = (r.prune.drop slot).prune := by
  have hlive (c : RootCell)
      (hc : (if c.slot = slot then { c with live := false } else c).live = true) :
      c.live = true := by
    split at hc
    · cases hc
    · exact hc
  simp only [prune, drop, List.filter_map, List.filter_filter, mk.injEq, and_true]
  refine congrArg _ (List.filter_congr fun c _ => ?_)
  exact Bool.eq_iff_iff.2 ⟨fun hc => Bool.and_eq_true_iff.2 ⟨hc, hlive c hc⟩, fun hc =>
    (Bool.and_eq_true_iff.1 hc).1⟩

/-- Cells that were dropped are nothing to a new one. -/
theorem agrees_newRoot {v : Nat} :
    Agrees (fun x y : RootSet × Memory => y.1.prune = x.1.prune ∧ y.2 = x.2) (newRoot v) := by
  rintro ⟨r, m⟩ ⟨t, m'⟩ a b x y ⟨hr, hm⟩ ha hb
  dsimp only at hr hm
  subst hm
  have hslot : t.nextSlot = r.nextSlot := (congrArg nextSlot hr :)
  cases ha
  cases hb
  refine ⟨hslot.symm, ?_, by rw [hslot]⟩
  rw [prune_register, prune_register, hr]

end RootSet

/-! ## 4. The heap -/

namespace RegionHeap

/-- The heaps differ in what marking wrote down at most, in how far the cycle has come, in the state of
the safepoint, and in requests to the controller, counts of barriers and the journal. -/
structure SameButMarks (h h' : RegionHeap) : Prop where
  space : h.space.SameButMarks h'.space
  memory : h'.core.memory = h.core.memory
  /-- Cells of roots that were dropped are forgotten when the roots are scanned. -/
  roots : h'.core.roots.prune = h.core.roots.prune
  mutators : h'.core.mutators = h.core.mutators
  options : h'.core.options = h.core.options
  usage : h'.core.usage = h.core.usage
  clock : h'.core.clock = h.core.clock
  maxTlab : h'.maxTlab = h.maxTlab
  registered : h'.satb.registered = h.satb.registered
  usedAtLastCycle : h'.usedAtLastCycle = h.usedAtLastCycle

/-- No cycle was completed or cancelled either. -/
structure Spares (h h' : RegionHeap) : Prop extends SameButMarks h h' where
  cycleStats : h'.cycleStats = h.cycleStats

/-- Nor was the cycle cancelled, or do the barriers begin or cease to resolve references, or the
mutators to wait. -/
structure Notes (h h' : RegionHeap) : Prop extends Spares h h' where
  cancelRequested : h'.cancelRequested = h.cancelRequested
  hasForwarded : h'.gcState.hasForwarded = h.gcState.hasForwarded
  pending : h'.safepoint.pending = h.safepoint.pending

instance : IsPreorder RegionHeap SameButMarks where
  refl h := ⟨refl_of RegionSpace.SameButMarks h.space, rfl, rfl, rfl, rfl, rfl, rfl, rfl, rfl, rfl⟩
  trans _ _ _ S S' := ⟨trans_of RegionSpace.SameButMarks S.space S'.space, S'.memory.trans S.memory,
    S'.roots.trans S.roots, S'.mutators.trans S.mutators, S'.options.trans S.options,
    S'.usage.trans S.usage, S'.clock.trans S.clock, S'.maxTlab.trans S.maxTlab,
    S'.registered.trans S.registered, S'.usedAtLastCycle.trans S.usedAtLastCycle⟩

instance : IsPreorder RegionHeap Spares where
  refl h := ⟨refl_of SameButMarks h, rfl⟩
  trans _ _ _ S S' := ⟨trans_of SameButMarks S.toSameButMarks S'.toSameButMarks,
    S'.cycleStats.trans S.cycleStats⟩

instance : IsPreorder RegionHeap Notes where
  refl h := ⟨refl_of Spares h, rfl, rfl, rfl⟩
  trans _ _ _ N N' := ⟨trans_of Spares N.toSpares N'.toSpares,
    N'.cancelRequested.trans N.cancelRequested, N'.hasForwarded.trans N.hasForwarded,
    N'.pending.trans N.pending⟩

section
variable {α : Type} {h h' h'' : RegionHeap} {i n o slot buffer : Nat}

theorem SameButMarks.symm (S : h.SameButMarks h') : h'.SameButMarks h :=
  ⟨S.space.symm, S.memory.symm, S.roots.symm, S.mutators.symm, S.options.symm, S.usage.symm,
    S.clock.symm, S.maxTlab.symm, S.registered.symm, S.usedAtLastCycle.symm⟩

/-- The regions are as full, and the mutators have the same buffers. -/
theorem SameButMarks.sameSpace (S : h.SameButMarks h') : HeapView.SameSpace h.view h'.view where
  low := congrArg Reservation.low S.space.range
  boundary := congrArg Reservation.boundary S.space.range
  regionSize := S.space.regionSize
  used := S.space.used
  mutators := S.mutators
  bottom i := congrArg BumpSpace.bottom (S.space.region i).space
  top i := congrArg BumpSpace.top (S.space.region i).space
  limit i := congrArg BumpSpace.limit (S.space.region i).space
  tlabs i := (S.space.region i).activeTlabs

/-- The same objects start at the same places. -/
theorem SameButMarks.published (S : h.SameButMarks h') :
    h'.view.Published o ↔ h.view.Published o := by
  have hindex : h'.view.index o = h.view.index o := by
    rw [HeapView.index, HeapView.index, S.sameSpace.low, S.sameSpace.regionSize]
  rw [HeapView.Published, HeapView.Published, HeapView.regionOf, HeapView.regionOf, hindex]
  exact iff_of_eq (congrArg (AddressSet.Has · o) (S.space.region (h.view.index o)).starts)

/-- The roots are the same. -/
theorem SameButMarks.mem_cells (S : h.SameButMarks h') {c : RootCell} (hl : c.live = true) :
    c ∈ h'.core.roots.cells ↔ c ∈ h.core.roots.cells := by
  have hmem (r : RootSet) : c ∈ r.prune.cells ↔ c ∈ r.cells := by
    simp [RootSet.prune, hl]
  rw [← hmem, S.roots, hmem]

theorem SameButMarks.rootValues (S : h.SameButMarks h') :
    h'.view.rootValues = h.view.rootValues := by
  have hmemory : h'.view.memory = h.view.memory := S.memory
  ext v
  refine exists_congr fun c => ?_
  rw [hmemory]
  exact and_congr_left fun hc => S.mem_cells hc.1

theorem notes_onMarks {act : Action Region α} (hact : Keeps Region.SameButMarks act) :
    Keeps Notes (onRegion i act) :=
  (RegionSpace.keepsMarks_onRegion hact).onPart fun h _ hs =>
    { refl_of Notes h with space := { hs with } }

theorem notes_note {e : Event} : Keeps Notes (note e) :=
  keeps_modify fun h => { refl_of Notes h with }

theorem notes_modifyBarrierStats {f : BarrierStats → BarrierStats} :
    Keeps Notes (modifyBarrierStats f) := keeps_modify fun h => { refl_of Notes h with }

theorem notes_modifySatb {f : SatbQueues → SatbQueues}
    (hf : ∀ q, (f q).registered = q.registered) : Keeps Notes (modifySatb f) :=
  keeps_modify fun h => { refl_of Notes h with registered := hf h.satb }

theorem notes_modifyQueue {f : MarkQueue → MarkQueue} : Keeps Notes (modifyQueue f) :=
  keeps_modify fun h => { refl_of Notes h with }

theorem notes_scanRoots : Keeps Notes scanRoots := by
  intro h
  simp only [scanRoots, after_onPart, RootSet.scan, after_bind, after_get, after_set, after_pure]
  exact { refl_of Notes h with roots := RootSet.prune_prune }

theorem notes_requestCycle {cause : Cause} : Keeps Notes (requestCycle cause) := by
  refine keeps_get_bind fun h => ?_
  cases hc : h.controller with
  | none => exact keeps_pure h
  | some c =>
    simp only [after_ite, after_bind, after_set, after_pure]
    refine ⟨fun _ => ?_, fun _ => refl_of Notes h⟩
    have hset : Notes h { h with controller := some { c with pending := some cause } } :=
      { refl_of Notes h with }
    exact ⟨fun _ => (notes_note _).mono fun _ _ hn => trans_of Notes hset hn, fun _ => hset⟩

theorem notes_join : Keeps Notes (Heap.onSafepoint Safepoint.join : Action RegionHeap Unit) := by
  intro h
  refine after_bind.2 (after_get.2 (after_onPart.2 ?_))
  simp only [Safepoint.join, after_bind, after_get, after_ite, after_set]
  exact ⟨fun _ => after_throw, fun _ => { refl_of Notes h with }⟩

theorem notes_leave : Keeps Notes (Heap.onSafepoint Safepoint.leave : Action RegionHeap Unit) := by
  intro h
  refine after_bind.2 (after_get.2 (after_onPart.2 ?_))
  simp only [Safepoint.leave, after_bind, after_get, after_lift, after_set]
  exact fun _ _ => { refl_of Notes h with }

/-- **The pre-write barrier is of no account** to what a mutator sees. -/
theorem notes_writePre : Keeps Notes (writePre buffer slot) := by
  refine keeps_get.bind fun h => Keeps.ite (keeps_loadSlot.bind fun old => ?_) keeps_pure
  refine Keeps.ite (notes_modifyBarrierStats.bind fun _ => ?_) keeps_pure
  exact notes_modifySatb fun q => SatbQueues.registered_enqueue

theorem notes_copyPre {range : SlotRange} : Keeps Notes (copyPre buffer range) :=
  keeps_get.bind fun _ => Keeps.ite
    (keeps_upTo fun _ => keeps_lift.bind fun _ => notes_writePre) keeps_pure

/-! ## 5. Marking -/

theorem notes_markObject : Keeps Notes (markObject o) :=
  keeps_regionOfObject.bind fun _ => keeps_getMemory.bind fun _ =>
    notes_onMarks Region.keepsMarks_mark

theorem notes_markSlot : Keeps Notes (markSlot slot) := by
  refine keeps_loadSlot.bind fun v => Keeps.ite (notes_markObject.bind fun new => ?_) keeps_pure
  exact Keeps.ite notes_modifyQueue keeps_pure

theorem notes_prepareRegion : Keeps Notes (prepareRegion i) :=
  keeps_getRegion.bind fun _ =>
    Keeps.ite (notes_onMarks Region.keepsMarks_prepareForMark) keeps_pure

/-- **A step of a worker** leaves the same heap but for marks. -/
theorem WorkerStep.notes {ts ts' : List MarkTask} (K : WorkerStep (h, ts) (h', ts')) : h.Notes h' := by
  cases K with
  | takeGrey | takeCompleted | push => exact { refl_of Notes h with }
  | load | drop => exact refl_of Notes h
  | mark _ hrun => exact notes_markObject h _ h' hrun

/-- A request to cancel is all that is set. -/
theorem spares_cancel : Keeps Spares cancel := by
  have hnote {e : Event} : Keeps Spares (note e) := fun h =>
    (notes_note h).mono fun _ _ N => N.toSpares
  refine keeps_get_bind fun h => ?_
  simp only [after_ite, after_bind, after_set]
  constructor
  · intro _
    have hset : Spares h { h with cancelRequested := true } := { refl_of Spares h with }
    exact (hnote _).mono fun _ _ hn => after_pure.2 (trans_of Spares hset hn)
  · intro _
    exact (hnote _).mono fun _ _ hn => after_pure.2 hn

/-- What needs the mutators stopped changes the safepoint beside what it does. -/
theorem spares_synchronize {act : Action RegionHeap α} (hact : Keeps Spares act) :
    Keeps Spares (synchronize act) := by
  have hsafe {act : Action Safepoint Unit} :
      Keeps Spares (act.onPart RegionHeap.safepoint fun safepoint h => { h with safepoint }) :=
    keeps_onPart fun h _ => { refl_of Spares h with }
  exact hsafe.bind fun _ => hact.bind fun _ => hsafe.bind fun _ => keeps_pure

/-- **The first step of a cycle** leaves the same heap but for marks. -/
theorem spares_initMark : Keeps Spares initMark := by
  have hnotes {β : Type} {act : Action RegionHeap β} (hact : Keeps Notes act) : Keeps Spares act :=
    fun h => (hact h).mono fun _ _ N => N.toSpares
  have hflags {g : GcState} : Keeps Spares (setGcState g) :=
    keeps_modify fun h => { refl_of Spares h with }
  have hphase {p : CyclePhase} : Keeps Spares (setPhase p) :=
    keeps_modify fun h => { refl_of Spares h with }
  refine spares_synchronize (keeps_get.bind fun h => Keeps.ite ?_ ?_)
  · refine keeps_modify_bind (fun h => ?_) fun _ => ?_
    · exact { refl_of Spares h with }
    · refine (hnotes notes_modifyQueue).bind fun _ => ?_
      refine (hnotes (keeps_eachRegion fun i => notes_prepareRegion)).bind fun _ => ?_
      refine (hnotes notes_scanRoots).bind fun slots => ?_
      refine (hnotes (keeps_each fun slot => notes_markSlot)).bind fun _ => ?_
      refine hflags.bind fun _ => hphase.bind fun _ => keeps_get.bind fun h => ?_
      exact (hnotes notes_note).bind fun _ => keeps_pure
  · exact (hnotes notes_note).bind fun _ => keeps_pure

/-! ## 6. A cycle that was cancelled -/

/-- The cycle is over and counted as cancelled, nothing waits to be marked, and otherwise the heap is
the same but for marks. -/
structure Abandoned (h h' : RegionHeap) : Prop extends SameButMarks h h' where
  phase : h'.phase = .idle
  gcState : h'.gcState = .idle
  queue : h'.queue = {}
  silent : h'.satb.Silent
  completed : h'.cycleStats.completed = h.cycleStats.completed
  cancelled : h'.cycleStats.cancelled = h.cycleStats.cancelled + 1

theorem Spares.abandoned (S : h.Spares h') (A : h'.Abandoned h'') : h.Abandoned h'' :=
  { A with
    toSameButMarks := trans_of SameButMarks S.toSameButMarks A.toSameButMarks
    completed := by rw [A.completed, S.cycleStats]
    cancelled := by rw [A.cancelled, S.cycleStats] }

theorem Abandoned.resumed (A : h.Abandoned h') : h.Abandoned h'.resumed := { A with }

theorem ends_abandonMarking_abandoned : Ends abandonMarking h fun _ h' => h.Abandoned h' ∧
    h'.view = { h.view with
      gcState := .idle, phase := .idle, satb := h.view.satb.abandon, grey := ∅ } := by
  simp only [abandonMarking, setGcState, modifySatb, clearQueue, modifyQueue, setPhase,
    modifyCycleStats, note, noteAll, ends_bind, ends_modify]
  refine ⟨?_, rfl⟩
  exact
    { toSameButMarks := { refl_of SameButMarks h with }
      phase := rfl
      gcState := rfl
      queue := rfl
      silent := SatbQueues.silent_abandon
      completed := rfl
      cancelled := rfl }

/-- The cycle was abandoned while no mutator was joined, and the objects of the program are in order. -/
structure Halted (W : World) (h h' : RegionHeap) : Prop extends Abandoned h h' where
  inv : h'.view.Inv W .idle []
  joined : h'.view.joined = 0
  pending : h'.view.pending = false

variable {W : World} {mark : Action RegionHeap Bool}

/-- **Marking is abandoned**, on a heap that has come from `h` by marking. -/
theorem ends_abandonMarking_halted (S : h.Spares h') (I : h'.view.Inv W .marking [])
    (hj : h'.view.joined = 0) :
    Ends abandonMarking h' fun _ h'' => h.Halted W h''.resumed := by
  refine ends_abandonMarking_abandoned.mono ?_
  rintro _ h'' ⟨A, hv⟩
  have hfinal : h''.resumed.view = { h'.view with
      gcState := .idle, phase := .idle, satb := h'.view.satb.abandon, grey := ∅,
      pending := false } := by
    show ({ h''.view with pending := false } : HeapView) = _
    rw [hv]
  refine ⟨(S.abandoned A).resumed, ?_, ?_, rfl⟩
  · rw [hfinal]
    exact I.abandon.setControl
  · rw [hfinal]
    exact hj

/-- A cycle that was abandoned was a step like others, whatever it marked. -/
theorem Halted.steady (H : h.Halted W h') (hj : h.view.joined = 0) :
    HeapView.Steady h.view h'.view :=
  have S := H.toSameButMarks
  .of_space S.sameSpace S.options (H.joined.trans hj.symm) (fun _ => H.pending)
    fun hc hl => (S.mem_cells hl).2 hc

theorem Halted.grants (H : h.Halted W h') : h.view.Grants h'.view :=
  have S := H.toSameButMarks
  .of_space S.sameSpace (fun _ => S.published) S.memory

/-- **The second step of a cycle that was cancelled** does no work. -/
theorem ends_concurrentMark_halted (I : h.view.Inv W .marking []) (hp : h.phase = .concurrentMark)
    (hc : h.cancelRequested = true) (hj : h.view.joined = 0) :
    Ends concurrentMark h fun b h' => b = false ∧ h.Halted W h' := by
  simp only [concurrentMark, inPhase, drain, ends_bind, ends_get, hp, hc, Bool.and_self, if_true,
    ends_pure, Bool.not_false]
  rw [ends_synchronize hj]
  have S : h.Spares h.stopped := { refl_of Spares h with }
  exact (ends_abandonMarking_halted S I.setControl hj).mono fun _ h' H => ⟨trivial, H⟩

/-- **The third step of a cycle that was cancelled** comes to nothing, after whatever marking. -/
theorem ends_finalMarkBy_halted (hp : h.phase = .concurrentMark) (hj : h.view.joined = 0)
    (hmark : Ends mark h.flushed fun _ h' => h.flushed.Spares h' ∧ h'.view.Inv W .marking [] ∧
      h'.view.joined = h.flushed.view.joined ∧ h'.cancelRequested = true) :
    Ends (finalMarkBy mark) h fun b h' => b = false ∧ h.Halted W h' := by
  simp only [finalMarkBy, inPhase, ends_bind, ends_get, hp, if_true]
  rw [ends_synchronize hj]
  simp only [modifySatb, ends_bind, ends_modify]
  refine hmark.mono ?_
  rintro _ h₁ ⟨S₁, I₁, hj₁, hc₁⟩
  simp only [ends_get, hc₁, if_true, ends_bind, ends_pure]
  have S : h.Spares h.flushed :=
    { refl_of Spares h with registered := SatbQueues.registered_flushAll }
  exact (ends_abandonMarking_halted (trans_of Spares S S₁) I₁ (hj₁.trans hj)).mono
    fun _ h' H => ⟨trivial, H⟩

end

/-! ## 7. Two heaps -/

/-- The heaps are the same but for marks, and on neither references are resolved, or mutators asked
to wait. -/
structure Level (h k : RegionHeap) : Prop extends SameButMarks h k where
  hasForwarded : h.gcState.hasForwarded = false
  hasForwarded' : k.gcState.hasForwarded = false
  pending : h.safepoint.pending = false
  pending' : k.safepoint.pending = false

section
variable {α : Type} {h k h' k' : RegionHeap} {i n o slot v buffer expected new : Nat}

/-- What is noted on either of the heaps is of no account. -/
theorem Level.notes (L : h.Level k) (N : h.Notes h') (N' : k.Notes k') : h'.Level k' :=
  { toSameButMarks := trans_of SameButMarks (trans_of SameButMarks N.toSameButMarks.symm
      L.toSameButMarks) N'.toSameButMarks
    hasForwarded := N.hasForwarded.trans L.hasForwarded
    hasForwarded' := N'.hasForwarded.trans L.hasForwarded'
    pending := N.pending.trans L.pending
    pending' := N'.pending.trans L.pending' }

theorem agrees_of_notes {act : Action RegionHeap Unit} (hact : Keeps Notes act) : Agrees Level act :=
  .of_keeps hact fun _ _ _ _ L N N' => L.notes N N'

theorem agrees_onMemory {act : Action Memory α} :
    Agrees Level (onMemory act : Action RegionHeap α) :=
  .onSame (fun _ _ L => L.memory) fun _ _ _ L => { L with memory := rfl }

theorem agrees_onSpace {act : Action RegionSpace α} (hact : Agrees RegionSpace.SameButMarks act) :
    Agrees Level (onSpace act) :=
  hact.onPart (fun _ _ L => L.space) fun _ _ _ _ L hs => { L with space := { hs with } }

theorem agrees_onRegion {act : Action Region α} (hact : Agrees Region.SameButMarks act) :
    Agrees Level (onRegion i act) := agrees_onSpace (RegionSpace.agrees_onRegion hact)

theorem agrees_allocateIn {kind : AllocKind} : Agrees Level (allocateIn n kind) :=
  agrees_onSpace RegionSpace.agrees_allocate

theorem agrees_requestCycle {cause : Cause} : Agrees Level (requestCycle cause) :=
  agrees_of_notes notes_requestCycle

theorem agrees_allocate : Agrees Level (allocate n) := by
  refine Agrees.lift.bind fun _ => agrees_allocateIn.bind fun r => ?_
  cases r with
  | some a => exact .pure
  | none => exact agrees_requestCycle.bind fun _ => .pure

theorem agrees_allocateTlabOf {smallest : Nat} : Agrees Level (allocateTlabOf n smallest) := by
  refine agrees_allocateIn.bind fun r => ?_
  cases r with
  | some a => exact .pure
  | none => exact .ite (agrees_allocateIn.bind fun _ => .pure) .pure

theorem agrees_allocateTlab {z : TlabSizing} : Agrees Level (allocateTlab z n) := by
  refine .get_bind fun h k L => ⟨by simp only [L.maxTlab, L.options, L.clock], ?_⟩
  refine Agrees.lift.bind fun x => ?_
  obtain ⟨sizing, size⟩ := x
  cases size with
  | none => exact .pure
  | some size =>
    refine agrees_allocateTlabOf.bind fun r => ?_
    cases r with
    | some x => exact .pure
    | none => exact agrees_requestCycle.bind fun _ => .pure

/-- The region that an object is in. -/
theorem after_regionOfObject : After (regionOfObject o) h fun i h' =>
    h' = h ∧ h.space.indexOf? o = some i := by
  unfold regionOfObject
  rw [after_bind, after_get]
  cases hi : h.space.indexOf? o with
  | none => exact after_throw
  | some i =>
    simp only [getRegion, after_bind, after_get, after_lift, after_ite, after_pure]
    exact fun _ _ => ⟨fun _ => after_throw, fun _ => ⟨trivial, trivial⟩⟩

theorem agrees_regionOfObject : Agrees Level (regionOfObject o) := by
  intro h k i j h' k' L hi hj
  obtain ⟨rfl, hi⟩ := after_regionOfObject i h' hi
  obtain ⟨rfl, hj⟩ := after_regionOfObject j k' hj
  rw [L.space.indexOf?, hi] at hj
  cases hj
  exact ⟨rfl, L⟩

/-- **A new object is announced**, and marked or not. -/
theorem agrees_postAlloc : Agrees Level (postAlloc o) := by
  refine agrees_regionOfObject.bind fun i => (agrees_onRegion Region.agrees_setStart).bind fun _ => ?_
  refine agrees_of_notes (keeps_get.bind fun h => Keeps.ite (keeps_getMemory.bind fun m => ?_) keeps_pure)
  exact (notes_onMarks Region.keepsMarks_mark).bind fun _ => keeps_pure

theorem agrees_registerBuffer : Agrees Level registerBuffer := by
  refine .get_bind fun h k L => ⟨by rw [L.registered], ?_⟩
  refine Agrees.bind (.modify fun h k L => ?_) fun _ => .pure
  exact { L with registered := congrArg (· + 1) L.registered }

/-- **No reference is resolved.** -/
theorem agrees_loadBarrier {slot? : Option Nat} : Agrees Level (loadBarrier slot? v) := by
  refine .get_bind fun h k L => ⟨by rw [L.hasForwarded, L.hasForwarded'], ?_⟩
  rw [L.hasForwarded, if_pos (.inr rfl)]
  exact .pure

theorem agrees_cardMark : Agrees Level (cardMark slot) := by
  refine .get_bind fun h k L => ⟨by rw [L.options, L.space.indexOf?], .ite ?_ .pure⟩
  cases h.space.indexOf? slot with
  | none => exact .pure
  | some i =>
    exact (agrees_of_notes notes_modifyBarrierStats).bind fun _ =>
      agrees_onRegion Region.agrees_markDirty

theorem agrees_exchange : Agrees Level (exchange buffer slot expected new) := by
  refine (agrees_of_notes notes_writePre).bind fun _ => Agrees.bind (agrees_onMemory.bind fun r => ?_)
    fun outcome => ?_
  · cases r with
    | ok u => exact .pure
    | error witness =>
      refine .get_bind fun h k L => ⟨by rw [L.hasForwarded, L.hasForwarded'], ?_⟩
      simp only [L.hasForwarded, Bool.false_eq_true, false_and, if_false]
      exact Agrees.bind (.get_bind fun h k L => ⟨by rw [show HasMemory.memory k = HasMemory.memory h
        from L.memory], .pure⟩) fun _ => .pure
  · exact .ite (agrees_cardMark.bind fun _ => .pure) .pure

theorem agrees_copyPost {range : SlotRange} : Agrees Level (copyPost range) :=
  .ite (Agrees.lift.bind fun _ => agrees_cardMark.bind fun _ => Agrees.lift.bind fun _ =>
    agrees_cardMark) .pure

theorem agrees_clonePre : Agrees Level (clonePre o) := by
  refine .get_bind fun h k L => ⟨by rw [L.hasForwarded, L.hasForwarded'], ?_⟩
  rw [L.hasForwarded]
  exact .pure

theorem agrees_newRoot : Agrees Level (Heap.onRoots (RootSet.newRoot v) : Action RegionHeap Nat) :=
  RootSet.agrees_newRoot.onPart (fun _ _ L => ⟨L.roots, L.memory⟩) fun _ _ _ _ L hr =>
    { L with roots := hr.1, memory := hr.2 }

theorem agrees_dropRoot : Agrees Level (Mutator.dropRoot slot : Action RegionHeap Unit) := by
  refine .modify fun h k L => { L with roots := ?_ }
  have hdrop : (k.core.roots.drop slot).prune = (h.core.roots.drop slot).prune := by
    rw [RootSet.prune_drop, L.roots, ← RootSet.prune_drop]
  exact hdrop

/-- **Nobody waits for a mutator.** -/
theorem agrees_poll : Agrees Level (Mutator.poll : Action RegionHeap Bool) := by
  have hpoll (h : RegionHeap) (hp : h.safepoint.pending = false) :
      (Mutator.poll : Action RegionHeap Bool) h = .ok false h := by
    refine Ends.eq_ok (ends_bind.2 (ends_get.2 (ends_onPart.2 ?_)))
    simp only [Safepoint.poll, ends_bind, ends_get, hp, Bool.false_eq_true, if_false, ends_pure]
    exact ⟨trivial, rfl⟩
  intro h k a b h' k' L ha hb
  rw [hpoll h L.pending] at ha
  rw [hpoll k L.pending'] at hb
  cases ha
  cases hb
  exact ⟨rfl, L⟩

/-- **What a heap does for mutators agrees on heaps that are the same but for marks.** -/
theorem accords_level : Heap.Accords RegionHeap Level where
  memory _ _ L := L.memory
  setMemory _ _ _ L := { L with memory := rfl }
  mutators _ _ L := L.mutators
  setMutators _ _ _ L := { L with mutators := rfl }
  maxTlab _ _ L := L.maxTlab
  newRoot _ := agrees_newRoot
  dropRoot _ := agrees_dropRoot
  join := agrees_of_notes notes_join
  leave := agrees_of_notes notes_leave
  poll := agrees_poll
  allocate _ := agrees_allocate
  allocateTlab _ _ := agrees_allocateTlab
  retireTlab _ := agrees_onSpace RegionSpace.agrees_retireTlab
  postAlloc _ := agrees_postAlloc
  registerBuffer := agrees_registerBuffer
  dropBuffer _ := agrees_of_notes (notes_modifySatb fun _ => rfl)
  flush _ := agrees_of_notes (notes_modifySatb fun _ => SatbQueues.registered_flush)
  writePre _ _ := agrees_of_notes notes_writePre
  writePost _ := agrees_cardMark
  load _ _ := agrees_loadBarrier
  exchange _ _ _ _ := agrees_exchange
  copyPre _ _ := agrees_of_notes notes_copyPre
  copyPost _ := agrees_copyPost
  clonePre _ := agrees_clonePre

end

end RegionHeap

end ManagedHeap
