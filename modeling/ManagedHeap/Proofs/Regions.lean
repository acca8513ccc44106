/-
# What the regions of a heap keep

A relocating heap reaches its regions through a few operations: it allocates in them, it counts
their buffers, and it writes down what it knows about a region in use.  So a preorder on the regions
that these operations keep is kept by whatever mutators do and by every step of a cycle, with
whatever references and in whatever order (`RegionSpace.Upholds`).  The two steps that give a region
another use, the choice of the regions to relocate and their recycling, are left to the preorder.

* Section 1: what is done to a region in use.
* Section 2: regions, and the heap that has them.
* Section 3: allocation and barriers.
* Section 4: the steps of a cycle.
-/
import ManagedHeap.Proofs.Coherence

namespace ManagedHeap

/-! ## 1. Regions in use -/

namespace Region

/-- The region holds the same memory, stays in the same use, and stays marked as written. -/
structure Settled (r r' : Region) : Prop where
  space : r'.space = r.space
  empty : r'.state = .empty ↔ r.state = .empty
  relocating : r'.state = .relocating → r.state = .relocating
  dirty : r.dirty = true → r'.dirty = true

instance : IsPreorder Region Settled where
  refl _ := ⟨rfl, Iff.rfl, id, id⟩
  trans _ _ _ S S' := ⟨S'.space.trans S.space, S'.empty.trans S.empty,
    S.relocating ∘ S'.relocating, S'.dirty ∘ S.dirty⟩

variable {α : Type} {m : Memory} {o : Nat}

theorem settled_onMarks {act : Action AddressSet α} : Keeps Settled (onMarks act) :=
  keeps_onPart fun _ _ => ⟨rfl, Iff.rfl, id, id⟩

theorem settled_onStarts {act : Action AddressSet α} : Keeps Settled (onStarts act) :=
  keeps_onPart fun _ _ => ⟨rfl, Iff.rfl, id, id⟩

theorem settled_markDirty : Keeps Settled markDirty :=
  keeps_modify fun _ => ⟨rfl, Iff.rfl, id, fun _ => rfl⟩

theorem settled_setEvacFailed : Keeps Settled setEvacFailed :=
  keeps_modify fun _ => ⟨rfl, Iff.rfl, id, id⟩

theorem settled_setStart : Keeps Settled (setStart o) := settled_onStarts.bind fun _ => keeps_pure

theorem settled_clearStart : Keeps Settled (clearStart o) := settled_onStarts

theorem settled_tlabRetired : Keeps Settled tlabRetired := by
  refine keeps_get_bind fun r => ?_
  simp only [after_bind, after_set, after_lift]
  exact fun _ _ => ⟨rfl, Iff.rfl, id, id⟩

theorem settled_prepareForMark : Keeps Settled prepareForMark :=
  keeps_modify_bind (fun _ => ⟨rfl, Iff.rfl, id, id⟩) fun _ => settled_onMarks.bind fun _ =>
    keeps_modify fun _ => ⟨rfl, Iff.rfl, id, id⟩

theorem settled_mark : Keeps Settled (mark m o) := by
  refine keeps_get.bind fun r => Keeps.ite keeps_pure (settled_onMarks.bind fun new => ?_)
  refine Keeps.ite ?_ keeps_pure
  exact keeps_modify_bind (fun _ => ⟨rfl, Iff.rfl, id, id⟩) fun _ => keeps_pure

/-- What a move from one state to another does. -/
theorem after_move {src dst : RegionState} {r : Region} :
    After (transition src dst) r fun _ r' => r.state = src ∧ r' = { r with state := dst } := by
  unfold transition
  simp only [after_bind, after_get, after_ite, after_set]
  exact ⟨fun _ => ⟨fun h => ⟨h, trivial⟩, fun _ => after_throw⟩, fun _ => after_throw⟩

/-- A move between two uses, of which the second is not relocation. -/
theorem settled_transition {src dst : RegionState} (hsrc : src ≠ .empty) (hdst : dst ≠ .empty)
    (hrelocating : dst ≠ .relocating) : Keeps Settled (transition src dst) := by
  intro r
  refine after_move.mono ?_
  rintro _ _ ⟨hr, rfl⟩
  exact ⟨rfl, ⟨fun h => absurd h hdst, fun h => absurd (hr.symm.trans h) hsrc⟩,
    fun h => absurd h hrelocating, id⟩

/-- A region that is kept is in use again. -/
theorem settled_recover {x : Region × Memory} :
    After recover x fun _ y => x.1.Settled y.1 := by
  have hfirst {α : Type} {act : Action Region α} (h : Keeps Settled act) :
      Keeps (fun x y : Region × Memory => x.1.Settled y.1) act.onFirst :=
    h.onPart fun _ _ h => h
  have hpreorder : IsPreorder (Region × Memory) fun x y => x.1.Settled y.1 :=
    { refl := fun x => refl_of Settled x.1
      trans := fun _ _ _ h h' => trans_of Settled h h' }
  have hsettle (object : Nat) :
      Keeps (fun x y : Region × Memory => x.1.Settled y.1) (settle object) := by
    refine keeps_get.bind fun y => ?_
    dsimp only
    cases Object.forwardee? y.2 object with
    | none => exact keeps_pure
    | some dst =>
      refine Keeps.ite (keeps_onPart fun x _ => refl_of Settled x.1) ?_
      exact hfirst settled_clearStart
  have hlast : Keeps Settled (do
      modify fun r => { r with evacFailed := false }
      transition .relocating .allocating) :=
    keeps_modify_bind (fun _ => ⟨rfl, Iff.rfl, id, id⟩) fun _ =>
      settled_transition (by decide) (by decide) (by decide)
  have hall : Keeps (fun x y : Region × Memory => x.1.Settled y.1) recover :=
    recover_eq ▸ keeps_get.bind fun _ => keeps_lift.bind fun _ => (keeps_each hsettle).bind fun _ =>
      hfirst hlast
  exact hall x

/-- The region was relocated, and is emptied. -/
structure Recycled (r r' : Region) : Prop where
  relocating : r.state = .relocating
  empty : r'.state = .empty
  space : r'.space = { r.space with top := r.space.bottom }

theorem after_recycled {r : Region} : After recycle r fun _ r' => r.Recycled r' := by
  -- All but the first two parts and the last leave the bounds and the use of the region alone.
  have hframe : IsPreorder Region fun r r' => r'.space = r.space ∧ r'.state = r.state :=
    { refl := fun _ => ⟨rfl, rfl⟩
      trans := fun _ _ _ h h' => ⟨h'.1.trans h.1, h'.2.trans h.2⟩ }
  have hmarks {act : Action AddressSet Unit} :
      Keeps (fun r r' : Region => r'.space = r.space ∧ r'.state = r.state) (onMarks act) :=
    keeps_onPart fun _ _ => ⟨rfl, rfl⟩
  have hstarts {act : Action AddressSet Unit} :
      Keeps (fun r r' : Region => r'.space = r.space ∧ r'.state = r.state) (onStarts act) :=
    keeps_onPart fun _ _ => ⟨rfl, rfl⟩
  simp only [recycle, onSpace, BumpSpace.reset, after_bind, after_get, after_lift, after_onPart,
    after_modify]
  intro _ _
  refine (hmarks _).mono fun _ r₁ h₁ => ((hstarts _).mono fun _ r₂ h₂ => ?_)
  refine after_move.mono ?_
  rintro _ _ ⟨hr, rfl⟩
  exact ⟨(h₂.2.trans h₁.2).symm.trans hr, rfl, h₂.1.trans h₁.1⟩

end Region

/-! ## 2. The regions of a heap -/

namespace RegionSpace

/-- One region is recycled, and the others stay. -/
theorem after_recycled {i : Nat} {x : RegionSpace × Memory} :
    After (recycle i) x fun _ y => i < x.1.maxRegions ∧ ∃ r n,
      (x.1.changed.getD i (x.1.freshRegion i)).Recycled r ∧
      y.1 = { x.1.putRegion i r with used := n } := by
  obtain ⟨s, m⟩ := x
  have hlast {m' : Memory} {bytes : Nat} : After (Action.onFirst do
      onRegion i Region.recycle
      modify fun s : RegionSpace => { s with used := s.used - bytes }) (s, m')
      fun _ y => i < s.maxRegions ∧ ∃ r n, (s.changed.getD i (s.freshRegion i)).Recycled r ∧
        y.1 = { s.putRegion i r with used := n } := by
    unfold Action.onFirst
    rw [after_onPart, after_bind]
    refine after_onRegion fun hi => Region.after_recycled.mono fun _ r hr => ?_
    rw [after_modify]
    exact ⟨hi, r, _, hr, rfl⟩
  unfold recycle
  rw [after_bind, after_get]
  dsimp only
  rw [after_bind, after_lift]
  intro r _
  -- Only the last of the actions changes the regions.
  have hclear {act : Action Memory Bool} :
      Keeps (fun x y : RegionSpace × Memory => y.1 = x.1) act.onSecond := keeps_onPart fun _ _ => rfl
  refine hclear.after ?_
  rintro cleared ⟨_, m₁⟩ rfl
  rw [after_ite]
  refine ⟨fun _ => ?_, fun _ => hlast⟩
  rw [after_bind, after_modify]
  exact hlast

/-- What is done to regions in use leads to regions that `P` relates to those before. -/
structure Settles (P : RegionSpace → RegionSpace → Prop) : Prop where
  reports : ∀ s es, P s { s with reports := es }
  region : ∀ i {α : Type} {act : Action Region α}, Keeps Region.Settled act → Keeps P (onRegion i act)

/-- So does allocation. -/
structure Upholds (P : RegionSpace → RegionSpace → Prop) : Prop extends Settles P where
  allocate : ∀ n kind, Keeps P (allocate n kind)

variable {P : RegionSpace → RegionSpace → Prop}

theorem Settles.keeps_retireTlab (S : Settles P) {n : Nat} [IsPreorder RegionSpace P] :
    Keeps P (retireTlab n) := by
  refine keeps_get.bind fun s => ?_
  cases s.indexOf? n with
  | none => exact keeps_modify fun s => S.reports s _
  | some i => exact S.region i Region.settled_tlabRetired

end RegionSpace

namespace RegionHeap

/-- Whether a failed check in a cycle has ended the controller. -/
def isStopped (h : RegionHeap) : Bool := h.controller.any (·.stopped)

/-- The regions, and what hardly ever changes. -/
def base (h : RegionHeap) : RegionSpace × Options × Nat × Bool :=
  (h.space, h.core.options, h.maxTlab, h.isStopped)

/-- The regions of two heaps are related, and the heaps have the same options. -/
structure Regional (P : RegionSpace → RegionSpace → Prop) (h h' : RegionHeap) : Prop where
  regions : P h.space h'.space
  options : h'.core.options = h.core.options
  maxTlab : h'.maxTlab = h.maxTlab
  isStopped : h'.isStopped = h.isStopped

instance {P : RegionSpace → RegionSpace → Prop} [IsPreorder RegionSpace P] :
    IsPreorder RegionHeap (Regional P) where
  refl h := ⟨refl_of P h.space, rfl, rfl, rfl⟩
  trans _ _ _ h h' := ⟨trans_of P h.regions h'.regions, h'.options.trans h.options,
    h'.maxTlab.trans h.maxTlab, h'.isStopped.trans h.isStopped⟩

section
variable {P : RegionSpace → RegionSpace → Prop} [IsPreorder RegionSpace P] {α : Type}

/-- A change of the heap that is none of its regions. -/
theorem regional_of_eq {h h' : RegionHeap} (hs : h'.base = h.base) : Regional P h h' := by
  have hspace : h'.space = h.space := congrArg Prod.fst hs
  exact ⟨by rw [hspace]; exact refl_of P h.space, congrArg (·.2.1) hs, congrArg (·.2.2.1) hs,
    congrArg (·.2.2.2) hs⟩

/-- What is done after a change of the heap that is none of its regions. -/
theorem Regional.of_base {h₀ h h' : RegionHeap} (H : Regional P h h') (hs : h.base = h₀.base) :
    Regional P h₀ h' := trans_of (Regional P) (regional_of_eq hs) H

/-- Regions are put back without what they reported. -/
theorem regional_onSpace (S : RegionSpace.Settles P) {act : Action RegionSpace α} (h : Keeps P act) :
    Keeps (Regional P) (onSpace act) :=
  h.onPart fun _ s hs => ⟨trans_of P hs (S.reports s _), rfl, rfl, rfl⟩

end

end RegionHeap

/-! ## 3. Allocation and barriers -/

namespace RegionSpace.Settles

open RegionHeap

variable {P : RegionSpace → RegionSpace → Prop} [IsPreorder RegionSpace P]
  (S : RegionSpace.Settles P) {α : Type} {i n : Nat}

include S

theorem keeps_onRegion {act : Action Region α} (h : Keeps Region.Settled act) :
    Keeps (Regional P) (RegionHeap.onRegion i act) := regional_onSpace S (S.region i h)

/-- What is done to a region that is put back, in some memory. -/
def recoverIn (m : Memory) : Action Region Unit := fun r =>
  match Region.recover (r, m) with
  | .ok u x => .ok u x.1
  | .error f x => .error f x.1

omit S [IsPreorder RegionSpace P] in
theorem settled_recoverIn {m : Memory} : Keeps Region.Settled (recoverIn m) := by
  intro r u r' hr
  simp only [recoverIn] at hr
  split at hr
  · rename_i x hx
    cases hr
    exact Region.settled_recover u x hx
  · cases hr

omit [IsPreorder RegionSpace P] in
/-- A region that is kept is put back, with its objects. -/
theorem keeps_recover : Keeps (Regional P) (onRegionAndMemory i Region.recover) := by
  intro h
  simp only [onRegionAndMemory, getRegion, after_bind, after_get, after_lift, after_onPart]
  rintro r hr u ⟨r', m⟩ hu
  have hregion := RegionSpace.region_eq_ok.1 hr
  -- Seen from the region alone, this is an action on it.
  have hact : Keeps Region.Settled (recoverIn h.core.memory) := settled_recoverIn
  refine ⟨S.region i hact h.space u (h.space.putRegion i r') ?_, rfl, rfl, rfl⟩
  simp only [onRegion, hregion, recoverIn, hu]

end RegionSpace.Settles

namespace RegionSpace.Upholds

open RegionHeap

variable {P : RegionSpace → RegionSpace → Prop} [IsPreorder RegionSpace P]
  (U : RegionSpace.Upholds P) {α : Type} {i n o v slot dst size buffer expected new : Nat}

include U

theorem keeps_onRegion {act : Action Region α} (h : Keeps Region.Settled act) :
    Keeps (Regional P) (RegionHeap.onRegion i act) := U.toSettles.keeps_onRegion h

omit U in
theorem keeps_onMemory {act : Action Memory α} :
    Keeps (Regional P) (onMemory act : Action RegionHeap α) :=
  keeps_onPart fun _ _ => regional_of_eq rfl

omit U in
theorem keeps_modify {f : RegionHeap → RegionHeap} (h : ∀ g, (f g).base = g.base) :
    Keeps (Regional P) (modify f) := ManagedHeap.keeps_modify fun g => regional_of_eq (h g)

omit U in
theorem keeps_note {e : Event} : Keeps (Regional P) (note e) := keeps_modify fun _ => rfl

theorem keeps_allocateIn {kind : AllocKind} : Keeps (Regional P) (allocateIn n kind) :=
  regional_onSpace U.toSettles (U.allocate n kind)

omit U in
theorem keeps_requestCycle {cause : Cause} : Keeps (Regional P) (requestCycle cause) := by
  refine keeps_get_bind fun h => ?_
  cases hc : h.controller with
  | none => exact keeps_pure h
  | some c =>
    simp only [after_ite, after_bind, after_set, after_pure]
    have hset {p : Option Cause} :
        base { h with controller := some { c with pending := p } } = h.base := by
      simp [base, isStopped, hc]
    refine ⟨fun _ => ⟨fun _ => ?_, fun _ => regional_of_eq hset⟩, fun _ => refl_of (Regional P) h⟩
    exact (keeps_note _).mono fun _ _ hn => hn.of_base hset

theorem keeps_allocate : Keeps (Regional P) (RegionHeap.allocate n) := by
  refine keeps_lift.bind fun _ => U.keeps_allocateIn.bind fun r => ?_
  cases r with
  | some a => exact keeps_pure
  | none => exact keeps_requestCycle.bind fun _ => keeps_pure

theorem keeps_allocateTlabOf {smallest : Nat} :
    Keeps (Regional P) (allocateTlabOf n smallest) := by
  refine U.keeps_allocateIn.bind fun r => ?_
  cases r with
  | some a => exact keeps_pure
  | none => exact Keeps.ite (U.keeps_allocateIn.bind fun _ => keeps_pure) keeps_pure

theorem keeps_allocateTlab {z : TlabSizing} :
    Keeps (Regional P) (RegionHeap.allocateTlab z n) := by
  refine keeps_get.bind fun h => keeps_lift.bind fun x => ?_
  obtain ⟨sizing, size⟩ := x
  cases size with
  | none => exact keeps_pure
  | some size =>
    refine U.keeps_allocateTlabOf.bind fun r => ?_
    cases r with
    | some x => exact keeps_pure
    | none => exact keeps_requestCycle.bind fun _ => keeps_pure

theorem keeps_selfForward : Keeps (Regional P) (selfForward o) := by
  refine keeps_regionOfObject.bind fun i => ?_
  refine (U.keeps_onRegion Region.settled_setEvacFailed).bind fun _ => keeps_onMemory.bind fun r => ?_
  cases r with
  | error winner => exact keeps_pure
  | ok x =>
    exact Keeps.bind (keeps_modify fun _ => rfl) fun _ => keeps_note.bind fun _ => keeps_pure

theorem keeps_evacuateTo : Keeps (Regional P) (evacuateTo o dst size) := by
  refine keeps_onMemory.bind fun copy => keeps_regionOfObject.bind fun i => ?_
  refine (U.keeps_onRegion Region.settled_setStart).bind fun _ => keeps_onMemory.bind fun r => ?_
  cases r with
  | error winner => exact (U.keeps_onRegion Region.settled_clearStart).bind fun _ => keeps_pure
  | ok x => exact Keeps.bind (keeps_modify fun _ => rfl) fun _ => keeps_pure

theorem keeps_evacuateObject : Keeps (Regional P) (evacuateObject o) := by
  refine keeps_getMemory.bind fun m => ?_
  cases Object.forwardee? m o with
  | some copy => exact keeps_pure
  | none =>
    refine U.keeps_allocateIn.bind fun r => ?_
    cases r with
    | none => exact U.keeps_selfForward
    | some dst => exact U.keeps_evacuateTo

theorem keeps_currentCopy : Keeps (Regional P) (currentCopy v) := by
  refine keeps_getMemory.bind fun m => ?_
  cases Object.forwardee? m v with
  | some copy => exact keeps_pure
  | none =>
    refine keeps_regionOfObject.bind fun i => keeps_getRegion.bind fun r => ?_
    refine Keeps.ite (keeps_get.bind fun h => ?_) keeps_pure
    exact Keeps.ite U.keeps_evacuateObject keeps_throw

omit U in
theorem keeps_heal {slot? : Option Nat} : Keeps (Regional P) (heal slot? v new) := by
  refine keeps_get.bind fun h => Keeps.ite ?_ keeps_pure
  cases slot? with
  | none => exact keeps_pure
  | some slot =>
    refine Keeps.bind keeps_onMemory fun r => ?_
    cases r with
    | error w => exact keeps_pure
    | ok u => exact keeps_modify fun _ => rfl

theorem keeps_loadBarrier {slot? : Option Nat} : Keeps (Regional P) (loadBarrier slot? v) := by
  refine keeps_get.bind fun h => Keeps.ite keeps_pure ?_
  refine Keeps.bind (keeps_modify fun _ => rfl) fun _ => U.keeps_currentCopy.bind fun resolved => ?_
  exact keeps_heal.bind fun _ => keeps_pure

omit U in
theorem keeps_writePre : Keeps (Regional P) (writePre buffer slot) :=
  keeps_get.bind fun _ => Keeps.ite (keeps_loadSlot.bind fun _ =>
    Keeps.ite (Keeps.bind (keeps_modify fun _ => rfl) fun _ => keeps_modify fun _ => rfl) keeps_pure)
    keeps_pure

theorem keeps_cardMark : Keeps (Regional P) (cardMark slot) := by
  refine keeps_get.bind fun h => Keeps.ite ?_ keeps_pure
  cases h.space.indexOf? slot with
  | none => exact keeps_pure
  | some i =>
    exact Keeps.bind (keeps_modify fun _ => rfl) fun _ => U.keeps_onRegion Region.settled_markDirty

omit U in
theorem keeps_exchangeCopies : Keeps (Regional P) (exchangeCopies slot expected new) := by
  refine Keeps.bind keeps_onMemory fun r => ?_
  cases r with
  | ok u => exact keeps_pure
  | error w =>
    refine keeps_get.bind fun h => keeps_getMemory.bind fun m => Keeps.ite ?_ keeps_pure
    refine Keeps.bind (keeps_modify fun _ => rfl) fun _ => Keeps.bind keeps_onMemory fun r => ?_
    cases r with
    | ok u => exact keeps_pure
    | error w => exact keeps_pure

theorem keeps_exchange : Keeps (Regional P) (RegionHeap.exchange buffer slot expected new) := by
  refine keeps_writePre.bind fun _ => keeps_exchangeCopies.bind fun r => ?_
  by_cases hr : r.isSuccess = true
  · simp only [hr, if_true]
    exact U.keeps_cardMark.bind fun _ => keeps_pure
  · simp only [hr]
    exact keeps_pure

theorem keeps_copyPost {range : SlotRange} : Keeps (Regional P) (copyPost range) :=
  Keeps.ite (keeps_lift.bind fun _ => U.keeps_cardMark.bind fun _ =>
    keeps_lift.bind fun _ => U.keeps_cardMark) keeps_pure

theorem keeps_clonePre : Keeps (Regional P) (clonePre o) := by
  refine keeps_get.bind fun h => Keeps.ite (keeps_eachSlot fun slot => ?_) keeps_pure
  refine keeps_loadSlot.bind fun value => U.keeps_loadBarrier.bind fun resolved => ?_
  exact Keeps.ite (Keeps.bind keeps_onMemory fun _ => keeps_pure) keeps_pure

theorem keeps_postAlloc : Keeps (Regional P) (postAlloc o) := by
  refine keeps_regionOfObject.bind fun i => ?_
  refine (U.keeps_onRegion Region.settled_setStart).bind fun _ => keeps_get.bind fun h => ?_
  refine Keeps.ite (keeps_getMemory.bind fun m => ?_) keeps_pure
  exact (U.keeps_onRegion Region.settled_mark).bind fun _ => keeps_pure

omit U in
theorem keeps_registerBuffer : Keeps (Regional P) RegionHeap.registerBuffer :=
  keeps_get.bind fun _ => Keeps.bind (keeps_modify fun _ => rfl) fun _ => keeps_pure

/-- **What a heap does for mutators keeps what its regions keep.** -/
theorem heap : Heap.Upholds RegionHeap (Regional P) where
  memory _ _ := regional_of_eq rfl
  roots _ _ _ := regional_of_eq rfl
  mutators _ _ := regional_of_eq rfl
  safepoint _ _ := regional_of_eq rfl
  allocate _ := U.keeps_allocate
  allocateTlab _ _ := U.keeps_allocateTlab
  retireTlab _ := regional_onSpace U.toSettles U.keeps_retireTlab
  postAlloc _ := U.keeps_postAlloc
  registerBuffer := keeps_registerBuffer
  dropBuffer _ := keeps_modify fun _ => rfl
  flush _ := keeps_modify fun _ => rfl
  writePre _ _ := keeps_writePre
  writePost _ := U.keeps_cardMark
  load _ _ := U.keeps_loadBarrier
  exchange _ _ _ _ := U.keeps_exchange
  copyPre _ _ := keeps_get.bind fun _ =>
    Keeps.ite (keeps_upTo fun _ => keeps_lift.bind fun _ => keeps_writePre) keeps_pure
  copyPost _ := U.keeps_copyPost
  clonePre _ := U.keeps_clonePre

/-! ## 4. The steps of a cycle -/

omit U in
theorem keeps_synchronize {act : Action RegionHeap α} (h : Keeps (Regional P) act) :
    Keeps (Regional P) (synchronize act) :=
  Keeps.bind (keeps_onPart fun _ _ => regional_of_eq rfl) fun _ => h.bind fun _ =>
    Keeps.bind (keeps_onPart fun _ _ => regional_of_eq rfl) fun _ => keeps_pure

omit U in
theorem keeps_inPhase {act : Action RegionHeap α} {phase : CyclePhase} {step : String}
    {otherwise : α} (h : Keeps (Regional P) act) :
    Keeps (Regional P) (inPhase phase step otherwise act) :=
  keeps_get.bind fun _ => Keeps.ite h (keeps_note.bind fun _ => keeps_pure)

omit U in
theorem keeps_finishCycle : Keeps (Regional P) finishCycle := by
  have hupdate : Keeps (Regional P) updateUsage := keeps_modify fun _ => rfl
  refine keeps_get_bind fun h => ?_
  rw [after_bind, after_set]
  exact (hupdate _).mono fun _ _ hs => hs.of_base rfl

omit U in
theorem keeps_abandonMarking : Keeps (Regional P) abandonMarking :=
  Keeps.bind (keeps_modify fun _ => rfl) fun _ => Keeps.bind (keeps_modify fun _ => rfl) fun _ =>
    Keeps.bind (keeps_modify fun _ => rfl) fun _ => Keeps.bind (keeps_modify fun _ => rfl) fun _ =>
      Keeps.bind (keeps_modify fun _ => rfl) fun _ => Keeps.bind (keeps_modify fun _ => rfl) fun _ =>
        keeps_note

theorem keeps_markAndPush : Keeps (Regional P) (markAndPush o) := by
  have hmark : Keeps (Regional P) (markObject o) := keeps_regionOfObject.bind fun _ =>
    keeps_getMemory.bind fun _ => U.keeps_onRegion Region.settled_mark
  exact Keeps.ite (hmark.bind fun _ => Keeps.ite (keeps_modify fun _ => rfl) keeps_pure) keeps_pure

theorem keeps_markSlot : Keeps (Regional P) (markSlot slot) :=
  keeps_loadSlot.bind fun _ => U.keeps_markAndPush

theorem keeps_markStep : Keeps (Regional P) markStep := by
  refine keeps_get_bind fun h => ?_
  split
  · rename_i object rest _
    rw [after_bind, after_set]
    exact (((keeps_eachSlot fun _ => U.keeps_markSlot).bind fun _ => keeps_pure) _).mono
      fun _ _ hs => hs.of_base rfl
  · split
    · rename_i entries satb _
      rw [after_bind, after_set]
      exact (((keeps_each fun _ => U.keeps_markAndPush).bind fun _ => keeps_pure) _).mono
        fun _ _ hs => hs.of_base rfl
    · exact keeps_pure h

theorem keeps_drain {cancellable : Bool} : Keeps (Regional P) (drain cancellable) := by
  have hsteps (n : Nat) : Keeps (Regional P) (markSteps n) := by
    induction n with
    | zero => exact keeps_throw
    | succ n ih => exact U.keeps_markStep.bind fun _ => Keeps.ite ih keeps_pure
  exact keeps_get.bind fun _ => Keeps.ite keeps_pure ((hsteps _).bind fun _ => keeps_pure)

theorem keeps_initMark : Keeps (Regional P) initMark := by
  have hprepare (i : Nat) : Keeps (Regional P) (prepareRegion i) := keeps_getRegion.bind fun _ =>
    Keeps.ite (U.keeps_onRegion Region.settled_prepareForMark) keeps_pure
  refine keeps_synchronize (keeps_inPhase ?_)
  refine Keeps.bind (keeps_modify fun _ => rfl) fun _ => Keeps.bind (keeps_modify fun _ => rfl) fun _ => ?_
  refine (keeps_eachRegion hprepare).bind fun _ =>
    Keeps.bind (keeps_onPart fun _ _ => regional_of_eq rfl) fun slots => ?_
  refine (keeps_each fun _ => U.keeps_markSlot).bind fun _ => ?_
  exact Keeps.bind (keeps_modify fun _ => rfl) fun _ => Keeps.bind (keeps_modify fun _ => rfl) fun _ =>
    keeps_get.bind fun _ => keeps_note.bind fun _ => keeps_pure

theorem keeps_concurrentMark : Keeps (Regional P) concurrentMark :=
  keeps_inPhase (U.keeps_drain.bind fun _ => Keeps.ite
    ((keeps_synchronize keeps_abandonMarking).bind fun _ => keeps_pure) keeps_pure)

theorem keeps_finalMark (hchoose : Keeps (Regional P) chooseRegions) :
    Keeps (Regional P) finalMark := by
  refine keeps_inPhase (keeps_synchronize ?_)
  refine Keeps.bind (keeps_modify fun _ => rfl) fun _ => U.keeps_drain.bind fun _ => ?_
  refine keeps_get.bind fun _ => Keeps.ite (keeps_abandonMarking.bind fun _ => keeps_pure) ?_
  refine Keeps.bind (keeps_modify fun _ => rfl) fun _ => hchoose.bind fun chosen => ?_
  exact Keeps.ite
    (Keeps.bind (keeps_modify fun _ => rfl) fun _ => keeps_finishCycle.bind fun _ => keeps_pure)
    (Keeps.bind (keeps_modify fun _ => rfl) fun _ =>
      Keeps.bind (keeps_modify fun _ => rfl) fun _ => keeps_pure)

theorem keeps_evacuate : Keeps (Regional P) evacuate := by
  have hregion (i : Nat) : Keeps (Regional P) (evacuateRegion i) := keeps_getRegion.bind fun _ =>
    Keeps.ite (keeps_lift.bind fun _ =>
      keeps_each fun _ => U.keeps_evacuateObject.bind fun _ => keeps_pure) keeps_pure
  have hset : Keeps (Regional P) (setGcState .duringUpdate) := keeps_modify fun _ => rfl
  exact keeps_inPhase ((keeps_eachRegion hregion).bind fun _ =>
    (keeps_synchronize hset).bind fun _ => keeps_get.bind fun _ => keeps_note)

omit U in
theorem keeps_updateRefs : Keeps (Regional P) updateRefs := by
  have hslot (a : Nat) : Keeps (Regional P) (updateSlot a) := by
    refine keeps_loadSlot.bind fun value => Keeps.ite (keeps_getMemory.bind fun m => ?_) keeps_pure
    cases Object.forwardee? m value with
    | none => exact keeps_pure
    | some copy => exact Keeps.ite (Keeps.bind keeps_onMemory fun _ => keeps_pure) keeps_pure
  have hobject (kept : Bool) (o : Nat) : Keeps (Regional P) (updateObject kept o) :=
    keeps_getMemory.bind fun _ => Keeps.ite keeps_pure (keeps_eachSlot hslot)
  have hregion (i : Nat) : Keeps (Regional P) (updateRegion i) := keeps_getRegion.bind fun _ =>
    Keeps.ite keeps_pure (keeps_lift.bind fun _ => keeps_each fun _ => hobject _ _)
  exact keeps_inPhase (Keeps.bind (keeps_onPart fun _ _ => regional_of_eq rfl) fun _ =>
    (keeps_each hslot).bind fun _ => keeps_eachRegion hregion)

end RegionSpace.Upholds

namespace RegionSpace.Settles

open RegionHeap

variable {P : RegionSpace → RegionSpace → Prop} [IsPreorder RegionSpace P]
  (S : RegionSpace.Settles P) {i n : Nat}

include S

/-- The regions that were not chosen are allocated in again. -/
theorem keeps_releaseAll : Keeps (Regional P) (eachRegion releaseRegion) :=
  keeps_eachRegion fun _ => keeps_getRegion.bind fun _ => Keeps.ite (S.keeps_onRegion
    (Region.settled_transition (by decide) (by decide) (by decide))) keeps_pure

/-- The choice of the regions to relocate, where any of them may be chosen. -/
theorem keeps_chooseRegions
    (h : ∀ i, Keeps P (onRegion i (Region.transition .marked .relocating))) :
    Keeps (Regional P) chooseRegions := by
  have hend (i : Nat) : Keeps (Regional P) (endMarking i) := by
    refine keeps_getRegion.bind fun r => Keeps.ite ?_ keeps_pure
    refine (S.keeps_onRegion (Region.settled_transition (by decide) (by decide) (by decide))).bind
      fun _ => keeps_get.bind fun _ => ?_
    exact Keeps.ite (keeps_lift.bind fun _ => keeps_lift.bind fun _ => keeps_pure) keeps_pure
  have hcandidates (n i : Nat) : Keeps (Regional P) (candidatesFrom i n) := by
    induction n generalizing i with
    | zero => exact keeps_pure
    | succ n ih => exact (hend i).bind fun _ => (ih _).bind fun _ => keeps_pure
  refine keeps_get.bind fun _ => (hcandidates _ _).bind fun _ => keeps_get.bind fun _ => ?_
  refine (keeps_each fun i => regional_onSpace S (h i)).bind fun _ => ?_
  exact S.keeps_releaseAll.bind fun _ => keeps_garbageOf.bind fun _ =>
    Keeps.bind Upholds.keeps_note fun _ => keeps_pure

/-- **The last step of a cycle** empties the relocated regions, or keeps them. -/
theorem keeps_recycle
    (h : ∀ i, Keeps (Regional P) (onSpaceAndMemory (RegionSpace.recycle i))) :
    Keeps (Regional P) RegionHeap.recycle := by
  have hfrom (n i : Nat) : Keeps (Regional P) (recycleFrom i n) := by
    induction n generalizing i with
    | zero => exact keeps_pure
    | succ n ih =>
      refine keeps_getRegion.bind fun r => Keeps.ite (Keeps.ite ?_ ?_) (ih _)
      · exact S.keeps_recover.bind fun _ => (ih _).bind fun _ => keeps_pure
      · exact (h i).bind fun _ => (ih _).bind fun _ => keeps_pure
  have hset : Keeps (Regional P) (setGcState .idle) := Upholds.keeps_modify fun _ => rfl
  refine Upholds.keeps_inPhase ((Upholds.keeps_synchronize hset).bind fun _ => ?_)
  refine keeps_get.bind fun _ => (hfrom _ _).bind fun _ => ?_
  exact Keeps.bind (Upholds.keeps_modify fun _ => rfl) fun _ =>
    Keeps.bind (Upholds.keeps_modify fun _ => rfl) fun _ => keeps_get.bind fun _ =>
      Upholds.keeps_note.bind fun _ => Upholds.keeps_finishCycle

end RegionSpace.Settles

/-! ## 5. Steps between the operations of mutators -/

/-- While mutators leave the safepoint and join it again, the regions are as they are. -/
theorem Mutator.after_allParked {α : Type} {act : Action RegionHeap α} {h : RegionHeap}
    {p : α → RegionSpace → Prop} (hact : ∀ g, g.space = h.space → After act g fun a g' => p a g'.space) :
    After (Mutator.allParked act) h fun a h' => p a h'.space := by
  have hsafe {act : Action Safepoint Unit} :
      Keeps (RegionHeap.Regional Eq) (Heap.onSafepoint act : Action RegionHeap Unit) :=
    keeps_get.bind fun _ => keeps_onPart fun _ _ => RegionHeap.regional_of_eq rfl
  have hloop {act : Action Safepoint Unit} {n : Nat} : Keeps (RegionHeap.Regional Eq)
      (Action.upTo 0 n fun _ => (Heap.onSafepoint act : Action RegionHeap Unit)) :=
    keeps_upTo fun _ => hsafe
  unfold Mutator.allParked Mutator.parked
  rw [after_bind, after_get]
  refine hloop.after fun _ g hg => after_bind.2 ((hact g hg.regions.symm).mono fun a g' hp => ?_)
  exact hloop.after fun _ k hk => after_pure.2 (hk.regions ▸ hp)

end ManagedHeap
