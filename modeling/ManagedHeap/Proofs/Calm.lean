/-
# What mutators leave alone

Whatever a mutator does, with whatever references, the cycle stays where it is: its phase, its
flags and its counts do not change, no region is marked or relocated, and outside of marking nothing
is recorded (`Calm`).  That needs no invariant of the heap, so it holds of every heap, also of one
that is not in order; the price is that it says nothing of an operation that stops with a fault.

* Section 1: regions, of which only an empty one changes its state.
* Section 2: the queues of what was recorded.
* Section 3: the heap, and its parts.
* Section 4: allocation.
* Section 5: barriers.
* Section 6: mutators.
-/
import ManagedHeap.Proofs.Mutators
import ManagedHeap.Proofs.View

namespace ManagedHeap

/-! ## 1. Regions -/

namespace Region

/-- The region is used for the same. -/
def SameState (r r' : Region) : Prop := r'.state = r.state

instance : IsPreorder Region SameState where
  refl _ := rfl
  trans _ _ _ h h' := h'.trans h

variable {m : Memory} {o size : Nat}

theorem keeps_onSpace {α : Type} {act : Action BumpSpace α} : Keeps SameState (onSpace act) :=
  keeps_onPart fun _ _ => rfl

theorem keeps_onMarks {α : Type} {act : Action AddressSet α} : Keeps SameState (onMarks act) :=
  keeps_onPart fun _ _ => rfl

theorem keeps_onStarts {α : Type} {act : Action AddressSet α} : Keeps SameState (onStarts act) :=
  keeps_onPart fun _ _ => rfl

theorem keeps_allocate : Keeps SameState (allocate size) := keeps_onSpace

theorem keeps_tlabAllocated : Keeps SameState tlabAllocated := keeps_modify fun _ => rfl

theorem keeps_tlabRetired : Keeps SameState tlabRetired := by
  refine keeps_get_bind fun r => ?_
  simp only [after_bind, after_set, after_lift]
  exact fun _ _ => rfl

theorem keeps_markDirty : Keeps SameState markDirty := keeps_modify fun _ => rfl

theorem keeps_setEvacFailed : Keeps SameState setEvacFailed := keeps_modify fun _ => rfl

theorem keeps_setStart : Keeps SameState (setStart o) := keeps_onStarts.bind fun _ => keeps_pure

theorem keeps_clearStart : Keeps SameState (clearStart o) := keeps_onStarts

theorem keeps_prepareForMark : Keeps SameState prepareForMark :=
  keeps_modify_bind (fun _ => rfl) fun _ => keeps_onMarks.bind fun _ => keeps_modify fun _ => rfl

theorem keeps_mark : Keeps SameState (mark m o) := by
  refine keeps_get.bind fun r => Keeps.ite keeps_pure (keeps_onMarks.bind fun new => ?_)
  refine Keeps.ite ?_ keeps_pure
  exact keeps_modify_bind (fun _ => rfl) fun _ => keeps_pure

/-- A region moves from one state to another. -/
theorem after_transition {src dst : RegionState} {r : Region} :
    After (transition src dst) r fun _ r' => r.state = src ∧ r'.state = dst := by
  unfold transition
  simp only [after_bind, after_get, after_ite, after_set]
  exact ⟨fun _ => ⟨fun h => ⟨h, trivial⟩, fun _ => after_throw⟩, fun _ => after_throw⟩

end Region

namespace RegionSpace

/-- What the region with an index is used for. -/
def stateAt (s : RegionSpace) (i : Nat) : RegionState := s.changed[i]?.elim .empty Region.state

theorem state_getD {s : RegionSpace} {i : Nat} :
    (s.changed.getD i (s.freshRegion i)).state = s.stateAt i := by
  rw [stateAt, Std.TreeMap.getD_eq_getD_getElem?]
  cases s.changed[i]? <;> rfl

/-- No region is given up, and only an empty one is used for something else: to allocate in it. -/
structure Calm (s s' : RegionSpace) : Prop where
  committed : s.committed ≤ s'.committed
  states : ∀ i, s'.stateAt i = s.stateAt i ∨
    (s.stateAt i = .empty ∧ s'.stateAt i = .allocating)

instance : IsPreorder RegionSpace Calm where
  refl _ := ⟨Nat.le_refl _, fun _ => .inl rfl⟩
  trans s s' s'' h h' := by
    refine ⟨Nat.le_trans h.committed h'.committed, fun i => ?_⟩
    rcases h'.states i with h1 | ⟨h1, h2⟩
    · rw [h1]
      exact h.states i
    · rcases h.states i with h3 | ⟨-, h3⟩
      · exact .inr ⟨h3 ▸ h1, h2⟩
      · rw [h3] at h1
        cases h1

variable {α : Type} {s : RegionSpace} {i j size n : Nat} {kind : AllocKind} {act : Action Region α}

/-- An action on a region puts it back. -/
theorem after_onRegion {post : α → RegionSpace → Prop}
    (h : i < s.maxRegions → After act (s.changed.getD i (s.freshRegion i)) fun a r =>
      post a (s.putRegion i r)) : After (onRegion i act) s post := by
  intro a s' hs
  obtain ⟨hi, r, hact, rfl⟩ := onRegion_eq_ok.1 hs
  exact h hi a r hact

theorem stateAt_putRegion {r : Region} (hi : i < s.maxRegions) :
    (s.putRegion i r).stateAt j = if j = i then r.state else s.stateAt j := by
  rw [← state_getD, getD_putRegion hi, apply_ite Region.state, state_getD]

theorem committed_putRegion {r : Region} : (s.putRegion i r).committed = s.committed := by
  unfold putRegion
  split <;> rfl

/-- The states of the regions, when one of them has changed. -/
theorem after_onRegion_states {post : α → Region → Prop}
    (h : After act (s.changed.getD i (s.freshRegion i)) post) :
    After (onRegion i act) s fun a s' => s'.committed = s.committed ∧
      ∃ r, post a r ∧ ∀ j, s'.stateAt j = if j = i then r.state else s.stateAt j :=
  after_onRegion fun hi => h.mono fun _ r hr =>
    ⟨committed_putRegion, r, hr, fun _ => stateAt_putRegion hi⟩

theorem keeps_onRegion (h : Keeps Region.SameState act) : Keeps Calm (onRegion i act) := by
  intro s
  refine (after_onRegion_states (h _)).mono ?_
  rintro a s' ⟨hc, r, hr, hs⟩
  refine ⟨Nat.le_of_eq hc.symm, fun j => .inl ?_⟩
  rw [hs j]
  split
  · rename_i he
    subst he
    exact Eq.trans hr state_getD
  · rfl

theorem keeps_report {e : Event} : Keeps Calm (report e) :=
  keeps_modify fun _ => ⟨Nat.le_refl _, fun _ => .inl rfl⟩

theorem keeps_setCurrent : Keeps Calm (setCurrent kind i) := by
  refine keeps_modify fun s => ?_
  cases kind <;> exact ⟨Nat.le_refl _, fun _ => .inl rfl⟩

theorem keeps_commitNext : Keeps Calm commitNext := by
  refine keeps_get.bind fun s₀ => Keeps.ite keeps_pure ?_
  refine Keeps.bind (keeps_onPart fun _ _ => ⟨Nat.le_refl _, fun _ => .inl rfl⟩) fun r => ?_
  cases r with
  | error e => exact keeps_report.bind fun _ => keeps_pure
  | ok u =>
    refine keeps_modify_bind (fun s => ⟨Nat.le_succ _, fun _ => .inl rfl⟩) fun _ => ?_
    exact keeps_get.bind fun _ => keeps_report.bind fun _ => keeps_pure

/-- An empty region is allocated in. -/
theorem keeps_makeAllocating : Keeps Calm (onRegion i Region.makeAllocating) := by
  intro s
  have hmake : After Region.makeAllocating (s.changed.getD i (s.freshRegion i)) fun _ r =>
      s.stateAt i = .empty ∧ r.state = .allocating := by
    unfold Region.makeAllocating
    simp only [after_bind, after_modify]
    refine Region.after_transition.mono fun _ r h => ⟨?_, h.2⟩
    exact state_getD.symm.trans h.1
  refine (after_onRegion_states hmake).mono ?_
  rintro _ s' ⟨hc, r, ⟨he, hr⟩, hs⟩
  refine ⟨Nat.le_of_eq hc.symm, fun j => ?_⟩
  rw [hs j]
  split
  · rename_i hj
    subst hj
    exact .inr ⟨he, hr⟩
  · exact .inl rfl

theorem keeps_takeEmpty : Keeps Calm (takeEmpty kind) := by
  refine keeps_get.bind fun s₀ => Keeps.ite (keeps_report.bind fun _ => keeps_pure) ?_
  dsimp only
  cases s₀.firstEmpty?
  on_goal 1 => refine keeps_commitNext.bind ?_
  on_goal 2 => refine keeps_pure.bind ?_
  all_goals
    rintro (_ | i)
    · exact keeps_pure
    · exact keeps_makeAllocating.bind fun _ => keeps_pure

theorem keeps_allocateInCurrent : Keeps Calm (allocateInCurrent size kind) := by
  refine keeps_get.bind fun s₀ => ?_
  cases s₀.current kind with
  | none => exact keeps_pure
  | some i =>
    refine (keeps_onRegion Region.keeps_allocate).bind fun r => ?_
    cases r with
    | none => exact keeps_pure
    | some a =>
      have hused (n : Nat) : Keeps Calm (modify fun s => { s with used := s.used + n }) :=
        keeps_modify fun _ => ⟨Nat.le_refl _, fun _ => .inl rfl⟩
      by_cases hk : kind = .tlab
      · simp only [hk, if_true]
        exact (keeps_onRegion Region.keeps_tlabAllocated).bind fun _ =>
          (hused size).bind fun _ => keeps_pure
      · simp only [hk, if_false]
        exact (hused size).bind fun _ => keeps_pure

theorem keeps_allocateRounds : Keeps Calm (allocateRounds size kind n) := by
  induction n with
  | zero => exact keeps_pure
  | succ n ih =>
    refine keeps_allocateInCurrent.bind fun r => ?_
    cases r with
    | some a => exact keeps_pure
    | none =>
      refine keeps_takeEmpty.bind fun r => ?_
      cases r with
      | none => exact keeps_pure
      | some i => exact keeps_setCurrent.bind fun _ => ih

theorem keeps_allocate : Keeps Calm (allocate size kind) :=
  keeps_get.bind fun _ => Keeps.ite (keeps_report.bind fun _ => keeps_pure) keeps_allocateRounds

theorem keeps_retireTlab : Keeps Calm (retireTlab n) := by
  refine keeps_get.bind fun s₀ => ?_
  cases s₀.indexOf? n with
  | none => exact keeps_report
  | some i => exact keeps_onRegion Region.keeps_tlabRetired

end RegionSpace

/-! ## 2. What was recorded -/

namespace SatbQueues

/-- Nothing is recorded. -/
structure Silent (q : SatbQueues) : Prop where
  completed : q.completed.toList = []
  buffers : ∀ b ∈ q.buffers, b.entries.toList = []

variable {q : SatbQueues} {id : Nat}

theorem Silent.entries (S : q.Silent) : (q.entries id).toList = [] := by
  unfold SatbQueues.entries
  cases hb : q.buffers.find? (·.id = id) with
  | none => rfl
  | some b => exact S.buffers b (List.mem_of_find?_eq_some hb)

theorem Silent.setEntries (S : q.Silent) : (q.setEntries id ∅).Silent := by
  refine ⟨S.completed, fun b hb => ?_⟩
  obtain ⟨c, hc, rfl⟩ := List.mem_map.1 hb
  split
  · rfl
  · exact S.buffers c hc

theorem Silent.flush (S : q.Silent) : (q.flush id).Silent := by
  unfold SatbQueues.flush complete
  rw [if_pos ((Queue.isEmpty_iff _).2 S.entries)]
  exact S.setEntries

theorem Silent.register (S : q.Silent) : q.register.Silent := by
  refine ⟨S.completed, fun b hb => ?_⟩
  rcases List.mem_append.1 hb with hb | hb
  · exact S.buffers b hb
  · rw [List.mem_singleton.1 hb]
    rfl

theorem Silent.drop (S : q.Silent) : (q.drop id).Silent :=
  ⟨S.completed, fun b hb => S.buffers b (List.mem_filter.1 hb).1⟩

theorem silent_abandon : q.abandon.Silent := by
  refine ⟨rfl, fun b hb => ?_⟩
  obtain ⟨c, -, rfl⟩ := List.mem_map.1 hb
  rfl

end SatbQueues

/-! ## 3. The heap -/

/-- What is known of the cycles of a heap. -/
structure CycleState where
  phase : CyclePhase
  gcState : GcState
  cancelRequested : Bool
  completed : Nat
  cancelled : Nat
  /-- The collections that the management has counted. -/
  collections : Nat

namespace RegionHeap

/-- What is known of the cycles of the heap. -/
def cycleState (h : RegionHeap) : CycleState where
  phase := h.phase
  gcState := h.gcState
  cancelRequested := h.cancelRequested
  completed := h.cycleStats.completed
  cancelled := h.cycleStats.cancelled
  collections := h.core.usage.collections

/-- The cycle stays where it is, and at most empty regions are allocated in. -/
structure Framed (h h' : RegionHeap) : Prop where
  cycleState : h'.cycleState = h.cycleState
  space : h.space.Calm h'.space

/-- Nothing is marked, and nothing is recorded unless marking runs. -/
structure Calm (h h' : RegionHeap) : Prop extends Framed h h' where
  queue : h'.queue = h.queue
  silent : h.gcState.marking = false → h.satb.Silent → h'.satb.Silent

instance : IsPreorder RegionHeap Framed where
  refl h := ⟨rfl, refl_of RegionSpace.Calm h.space⟩
  trans _ _ _ S S' := ⟨S'.cycleState.trans S.cycleState, trans_of RegionSpace.Calm S.space S'.space⟩

theorem Framed.gcState {h h' : RegionHeap} (S : Framed h h') : h'.gcState = h.gcState :=
  congrArg CycleState.gcState S.cycleState

instance : IsPreorder RegionHeap Calm where
  refl h := ⟨refl_of Framed h, rfl, fun _ S => S⟩
  trans _ _ _ C C' := ⟨trans_of Framed C.toFramed C'.toFramed, C'.queue.trans C.queue,
    fun hm S => C'.silent (by rw [C.gcState]; exact hm) (C.silent hm S)⟩

variable {α : Type} {h h' : RegionHeap} {i n : Nat}

/-- Everything that matters is as before. -/
theorem Calm.of_eq (hc : h'.cycleState = h.cycleState) (hs : h'.space = h.space)
    (hq : h'.queue = h.queue) (hr : h'.satb = h.satb) : Calm h h' := by
  refine ⟨⟨hc, ?_⟩, hq, fun _ S => ?_⟩
  · rw [hs]
    exact refl_of RegionSpace.Calm h.space
  · rw [hr]
    exact S

theorem keeps_onMemory {act : Action Memory α} : Keeps Calm (onMemory act) :=
  keeps_onPart fun _ _ => .of_eq rfl rfl rfl rfl

theorem keeps_onSpace {act : Action RegionSpace α} (hact : Keeps RegionSpace.Calm act) :
    Keeps Calm (onSpace act) :=
  hact.onPart fun _ _ hs => ⟨⟨rfl, hs.committed, hs.states⟩, rfl, fun _ S => S⟩

theorem keeps_onRegion {act : Action Region α} (hact : Keeps Region.SameState act) :
    Keeps Calm (onRegion i act) := keeps_onSpace (RegionSpace.keeps_onRegion hact)

theorem keeps_noteAll {es : List Event} : Keeps Calm (noteAll es) :=
  keeps_modify fun _ => .of_eq rfl rfl rfl rfl

theorem keeps_note {e : Event} : Keeps Calm (note e) := keeps_noteAll

theorem keeps_modifyBarrierStats {f : BarrierStats → BarrierStats} :
    Keeps Calm (modifyBarrierStats f) := keeps_modify fun _ => .of_eq rfl rfl rfl rfl

/-- The counts of the cycles are nothing to the counts of bytes and failures. -/
theorem keeps_modifyCycleStats {f : CycleStats → CycleStats}
    (hf : ∀ s, (f s).completed = s.completed ∧ (f s).cancelled = s.cancelled) :
    Keeps Calm (modifyCycleStats f) := by
  refine keeps_modify fun h => .of_eq ?_ rfl rfl rfl
  simp only [cycleState, hf]

section
variable {R : RegionHeap → RegionHeap → Prop} [IsPreorder RegionHeap R]

theorem keeps_getRegion : Keeps R (getRegion i) := keeps_get.bind fun _ => keeps_lift

theorem keeps_regionOfObject : Keeps R (regionOfObject n) := by
  refine keeps_get.bind fun h => ?_
  cases h.space.indexOf? n with
  | none => exact keeps_throw
  | some i => exact keeps_getRegion.bind fun _ => Keeps.ite keeps_throw keeps_pure

/-- A loop over the fields of an object. -/
theorem keeps_eachSlot {f : Nat → Action RegionHeap Unit} (hf : ∀ slot, Keeps R (f slot)) :
    Keeps R (Object.eachSlot (HasMemory.memory (σ := RegionHeap)) n f) :=
  keeps_get.bind fun _ => keeps_upTo fun _ => keeps_get.bind fun _ =>
    keeps_lift.bind fun slot => hf slot

/-- A loop over the regions. -/
theorem keeps_eachRegion {f : Nat → Action RegionHeap Unit} (hf : ∀ i, Keeps R (f i)) :
    Keeps R (eachRegion f) := keeps_get.bind fun _ => keeps_upTo hf

end

/-- What is done to the queues outside of marking. -/
theorem keeps_modifySatb {f : SatbQueues → SatbQueues} (hf : ∀ q, q.Silent → (f q).Silent) :
    Keeps Calm (modifySatb f) :=
  keeps_modify fun h => ⟨⟨rfl, refl_of RegionSpace.Calm h.space⟩, rfl, fun _ => hf h.satb⟩

/-! ## 4. Allocation -/

theorem keeps_allocateIn {kind : AllocKind} : Keeps Calm (allocateIn n kind) :=
  keeps_onSpace RegionSpace.keeps_allocate

theorem keeps_requestCycle {cause : Cause} : Keeps Calm (requestCycle cause) := by
  refine keeps_get_bind fun h => ?_
  cases hc : h.controller with
  | none => exact keeps_pure h
  | some c =>
    simp only [after_ite, after_bind, after_set, after_pure]
    refine ⟨fun _ => ?_, fun _ => refl_of Calm h⟩
    have hset : Calm h { h with controller := some { c with pending := some cause } } :=
      .of_eq rfl rfl rfl rfl
    refine ⟨fun _ => ?_, fun _ => hset⟩
    exact (keeps_note _).mono fun _ _ hn => trans_of Calm hset hn

theorem keeps_allocate : Keeps Calm (allocate n) := by
  refine keeps_lift.bind fun _ => keeps_allocateIn.bind fun r => ?_
  cases r with
  | some a => exact keeps_pure
  | none => exact keeps_requestCycle.bind fun _ => keeps_pure

theorem keeps_allocateTlabOf {smallest : Nat} : Keeps Calm (allocateTlabOf n smallest) := by
  refine keeps_allocateIn.bind fun r => ?_
  cases r with
  | some a => exact keeps_pure
  | none => exact Keeps.ite (keeps_allocateIn.bind fun _ => keeps_pure) keeps_pure

theorem keeps_allocateTlab {z : TlabSizing} : Keeps Calm (allocateTlab z n) := by
  refine keeps_get.bind fun h => keeps_lift.bind fun x => ?_
  obtain ⟨sizing, size⟩ := x
  cases size with
  | none => exact keeps_pure
  | some size =>
    refine keeps_allocateTlabOf.bind fun r => ?_
    cases r with
    | some x => exact keeps_pure
    | none => exact keeps_requestCycle.bind fun _ => keeps_pure

theorem keeps_retireTlab : Keeps Calm (retireTlab n) := keeps_onSpace RegionSpace.keeps_retireTlab

/-! ## 5. Barriers -/

section
variable {o v slot dst size buffer expected new : Nat} {slot? : Option Nat} {range : SlotRange}

theorem keeps_selfForward : Keeps Calm (selfForward o) := by
  refine keeps_regionOfObject.bind fun i => ?_
  refine (keeps_onRegion Region.keeps_setEvacFailed).bind fun _ => keeps_onMemory.bind fun r => ?_
  cases r with
  | error winner => exact keeps_pure
  | ok x =>
    refine Keeps.bind (keeps_modifyCycleStats fun _ => ⟨rfl, rfl⟩) fun _ => ?_
    exact keeps_note.bind fun _ => keeps_pure

theorem keeps_evacuateTo : Keeps Calm (evacuateTo o dst size) := by
  refine keeps_onMemory.bind fun copy => keeps_regionOfObject.bind fun i => ?_
  refine (keeps_onRegion Region.keeps_setStart).bind fun _ => keeps_onMemory.bind fun r => ?_
  cases r with
  | error winner => exact (keeps_onRegion Region.keeps_clearStart).bind fun _ => keeps_pure
  | ok x =>
    exact Keeps.bind (keeps_modifyCycleStats fun _ => ⟨rfl, rfl⟩) fun _ => keeps_pure

theorem keeps_evacuateObject : Keeps Calm (evacuateObject o) := by
  refine keeps_getMemory.bind fun m => ?_
  cases Object.forwardee? m o with
  | some copy => exact keeps_pure
  | none =>
    refine keeps_allocateIn.bind fun r => ?_
    cases r with
    | none => exact keeps_selfForward
    | some dst => exact keeps_evacuateTo

theorem keeps_currentCopy : Keeps Calm (currentCopy v) := by
  refine keeps_getMemory.bind fun m => ?_
  cases Object.forwardee? m v with
  | some copy => exact keeps_pure
  | none =>
    refine keeps_regionOfObject.bind fun i => keeps_getRegion.bind fun r => ?_
    refine Keeps.ite (keeps_get.bind fun h => ?_) keeps_pure
    exact Keeps.ite keeps_evacuateObject keeps_throw

theorem keeps_exchangeSlot :
    Keeps Calm (exchangeSlot slot expected new : Action RegionHeap (Except Nat Unit)) :=
  keeps_onMemory

theorem keeps_heal : Keeps Calm (heal slot? v new) := by
  refine keeps_get.bind fun h => Keeps.ite ?_ keeps_pure
  cases slot? with
  | none => exact keeps_pure
  | some slot =>
    refine keeps_exchangeSlot.bind fun r => ?_
    cases r with
    | error w => exact keeps_pure
    | ok u => exact keeps_modifyBarrierStats

theorem keeps_loadBarrier : Keeps Calm (loadBarrier slot? v) := by
  refine keeps_get.bind fun h => Keeps.ite keeps_pure ?_
  refine keeps_modifyBarrierStats.bind fun _ => keeps_currentCopy.bind fun resolved => ?_
  exact keeps_heal.bind fun _ => keeps_pure

/-- **References are recorded only while marking runs.** -/
theorem keeps_writePre : Keeps Calm (writePre buffer slot) := by
  refine keeps_get_bind fun h => ?_
  rw [after_ite]
  refine ⟨fun hm => ?_, fun _ => keeps_pure h⟩
  simp only [loadSlot, getMemory, modifyBarrierStats, modifySatb, after_bind, after_get, after_pure,
    after_ite, after_modify]
  refine ⟨fun _ => ?_, fun _ => refl_of Calm h⟩
  refine ⟨⟨rfl, refl_of RegionSpace.Calm h.space⟩, rfl, fun hn => ?_⟩
  exact absurd hm (Bool.eq_false_iff.1 hn)

theorem keeps_cardMark : Keeps Calm (cardMark slot) := by
  refine keeps_get.bind fun h => Keeps.ite ?_ keeps_pure
  cases h.space.indexOf? slot with
  | none => exact keeps_pure
  | some i =>
    exact keeps_modifyBarrierStats.bind fun _ => keeps_onRegion Region.keeps_markDirty

theorem keeps_exchangeAgain : Keeps Calm (exchangeAgain slot expected new) := by
  refine keeps_modifyBarrierStats.bind fun _ => keeps_exchangeSlot.bind fun r => ?_
  cases r with
  | ok u => exact keeps_pure
  | error w => exact keeps_pure

theorem keeps_exchangeCopies : Keeps Calm (exchangeCopies slot expected new) := by
  refine keeps_exchangeSlot.bind fun r => ?_
  cases r with
  | ok u => exact keeps_pure
  | error w =>
    exact keeps_get.bind fun h => keeps_getMemory.bind fun m =>
      Keeps.ite keeps_exchangeAgain keeps_pure

theorem keeps_exchange : Keeps Calm (exchange buffer slot expected new) := by
  refine keeps_writePre.bind fun _ => keeps_exchangeCopies.bind fun r => ?_
  by_cases hr : r.isSuccess = true
  · simp only [hr, if_true]
    exact keeps_cardMark.bind fun _ => keeps_pure
  · simp only [hr]
    exact keeps_pure

theorem keeps_copyPre : Keeps Calm (copyPre buffer range) :=
  keeps_get.bind fun _ => Keeps.ite
    (keeps_upTo fun _ => keeps_lift.bind fun _ => keeps_writePre) keeps_pure

theorem keeps_copyPost : Keeps Calm (copyPost range) :=
  Keeps.ite (keeps_lift.bind fun _ => keeps_cardMark.bind fun _ =>
    keeps_lift.bind fun _ => keeps_cardMark) keeps_pure

theorem keeps_clonePre : Keeps Calm (clonePre o) := by
  refine keeps_get.bind fun h => Keeps.ite (keeps_eachSlot fun slot => ?_) keeps_pure
  refine keeps_loadSlot.bind fun value => keeps_loadBarrier.bind fun resolved => ?_
  exact Keeps.ite (keeps_exchangeSlot.bind fun _ => keeps_pure) keeps_pure

theorem keeps_postAlloc : Keeps Calm (postAlloc o) := by
  refine keeps_regionOfObject.bind fun i => ?_
  refine (keeps_onRegion Region.keeps_setStart).bind fun _ => keeps_get.bind fun h => ?_
  refine Keeps.ite (keeps_getMemory.bind fun m => ?_) keeps_pure
  exact (keeps_onRegion Region.keeps_mark).bind fun _ => keeps_pure

theorem keeps_registerBuffer : Keeps Calm registerBuffer :=
  keeps_get.bind fun _ => (keeps_modifySatb fun _ S => S.register).bind fun _ => keeps_pure

end

end RegionHeap

/-! ## 6. Mutators -/

/-- What a heap does for mutators leaves the cycle where it is. -/
theorem upholds_calm : Heap.Upholds RegionHeap RegionHeap.Calm where
  memory _ _ := .of_eq rfl rfl rfl rfl
  roots _ _ _ := .of_eq rfl rfl rfl rfl
  mutators _ _ := .of_eq rfl rfl rfl rfl
  safepoint _ _ := .of_eq rfl rfl rfl rfl
  allocate _ := RegionHeap.keeps_allocate
  allocateTlab _ _ := RegionHeap.keeps_allocateTlab
  retireTlab _ := RegionHeap.keeps_retireTlab
  postAlloc _ := RegionHeap.keeps_postAlloc
  registerBuffer := RegionHeap.keeps_registerBuffer
  dropBuffer _ := RegionHeap.keeps_modifySatb fun _ S => S.drop
  flush _ := RegionHeap.keeps_modifySatb fun _ S => S.flush
  writePre _ _ := RegionHeap.keeps_writePre
  writePost _ := RegionHeap.keeps_cardMark
  load _ _ := RegionHeap.keeps_loadBarrier
  exchange _ _ _ _ := RegionHeap.keeps_exchange
  copyPre _ _ := RegionHeap.keeps_copyPre
  copyPost _ := RegionHeap.keeps_copyPost
  clonePre _ := RegionHeap.keeps_clonePre

/-- **Whatever a mutator does leaves the cycle where it is**, whatever references it uses. -/
theorem Operation.keeps_calm {ref : Nat → Nat} (op : Operation) :
    Keeps RegionHeap.Calm (op.run ref) := upholds_calm.keeps_run op

end ManagedHeap
