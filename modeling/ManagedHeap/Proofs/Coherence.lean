/-
# The states of a cycle

Phase, flags, regions, queues and counts change one after the other, each step of a cycle looks at
the phase only, and nothing forces the steps to come in their order.  They agree all the same
(`Coherent`): a step that is called in another phase does nothing, and one that is called in its
phase leaves everything as the next phase has it.  A request to cancel is not lost on the way
(`Heeds`).

What is proved here is about calls that end.  It needs no other invariant of the heap, so the
program may do anything in between.

* Section 1: what agrees, and what mutators do to it.
* Section 2: the frame of the steps.
* Section 3: marking.
* Section 4: the regions that are chosen.
* Section 5: relocation.
* Section 6: calls in any order.
-/
import ManagedHeap.Proofs.Calm
import ManagedHeap.Proofs.Sessions

namespace ManagedHeap

/-! ## 1. What agrees -/

/-- The flags that go with a phase. -/
def CyclePhase.Flags : CyclePhase → GcState → Prop
  | .idle, g => g = .idle
  | .concurrentMark, g => g = .duringMark
  | .concurrentRelocate, g => g = .duringEvacuation ∨ g = .duringUpdate

/-- A region that is not allocated in is used for the same as before. -/
theorem RegionSpace.Calm.stateAt_eq {s s' : RegionSpace} {i : Nat} {x : RegionState}
    (C : s.Calm s') (hx : s'.stateAt i = x) (hne : x ≠ .allocating) : s.stateAt i = x := by
  rcases C.states i with h | ⟨-, h⟩
  · exact h.symm.trans hx
  · exact absurd (hx.symm.trans h) hne

namespace RegionHeap

/-- The parts of the heap agree on the state of its cycles, of which `begun` were begun. -/
structure Coherent (h : RegionHeap) (begun : Nat) : Prop where
  flags : h.phase.Flags h.gcState
  marked : ∀ i, h.space.stateAt i ≠ .marked
  relocating : ∀ i, h.space.stateAt i = .relocating →
    h.phase = .concurrentRelocate ∧ i < h.space.committed
  grey : h.phase ≠ .concurrentMark → h.queue.grey.toList = []
  silent : h.phase ≠ .concurrentMark → h.satb.Silent
  begun : begun = h.cycleStats.completed + h.cycleStats.cancelled + if h.phase = .idle then 0 else 1
  collections : h.core.usage.collections = h.cycleStats.completed

/-- A request to cancel stays, and marking with it, until a cycle was counted as cancelled. -/
structure Heeds (h h' : RegionHeap) : Prop where
  cancelled : h.cycleStats.cancelled ≤ h'.cycleStats.cancelled
  requested : h.phase = .concurrentMark → h.cancelRequested = true →
    h.cycleStats.cancelled < h'.cycleStats.cancelled ∨
      (h'.phase = .concurrentMark ∧ h'.cancelRequested = true)

/-- After a step, of which the heap is coherent, no request to cancel was lost. -/
structure Onward (h : RegionHeap) (begun : Nat) (h' : RegionHeap) : Prop where
  coherent : h'.Coherent begun
  heeds : Heeds h h'

instance : IsPreorder RegionHeap Heeds where
  refl _ := ⟨Nat.le_refl _, fun hp hc => .inr ⟨hp, hc⟩⟩
  trans _ _ _ H H' := by
    refine ⟨Nat.le_trans H.cancelled H'.cancelled, fun hp hc => ?_⟩
    rcases H.requested hp hc with hlt | ⟨hp', hc'⟩
    · exact .inl (Nat.lt_of_lt_of_le hlt H'.cancelled)
    · exact (H'.requested hp' hc').imp_left (Nat.lt_of_le_of_lt H.cancelled)

variable {α : Type} {h h' h'' : RegionHeap} {n i : Nat}

theorem Framed.phase (F : Framed h h') : h'.phase = h.phase := congrArg CycleState.phase F.cycleState

theorem Framed.cancelRequested (F : Framed h h') : h'.cancelRequested = h.cancelRequested :=
  congrArg CycleState.cancelRequested F.cycleState

theorem Framed.completed (F : Framed h h') : h'.cycleStats.completed = h.cycleStats.completed :=
  congrArg CycleState.completed F.cycleState

theorem Framed.cancelled (F : Framed h h') : h'.cycleStats.cancelled = h.cycleStats.cancelled :=
  congrArg CycleState.cancelled F.cycleState

theorem Framed.collections (F : Framed h h') :
    h'.core.usage.collections = h.core.usage.collections :=
  congrArg CycleState.collections F.cycleState

theorem Framed.heeds (F : Framed h h') : Heeds h h' :=
  ⟨Nat.le_of_eq F.cancelled.symm, fun hp hc => .inr ⟨F.phase.trans hp, F.cancelRequested.trans hc⟩⟩

/-- Only the queues can get out of step where the cycle stays. -/
theorem Coherent.framed (C : h.Coherent n) (F : Framed h h')
    (hgrey : h.phase ≠ .concurrentMark → h'.queue.grey.toList = [])
    (hsilent : h.phase ≠ .concurrentMark → h'.satb.Silent) : h'.Coherent n where
  flags := by
    rw [F.phase, F.gcState]
    exact C.flags
  marked i hi := C.marked i (F.space.stateAt_eq hi (by decide))
  relocating i hi := by
    obtain ⟨hp, hlt⟩ := C.relocating i (F.space.stateAt_eq hi (by decide))
    exact ⟨F.phase.trans hp, Nat.lt_of_lt_of_le hlt F.space.committed⟩
  grey hp := hgrey (F.phase ▸ hp)
  silent hp := hsilent (F.phase ▸ hp)
  begun := by
    rw [F.completed, F.cancelled, F.phase]
    exact C.begun
  collections := by
    rw [F.collections, F.completed]
    exact C.collections

theorem Coherent.marking_eq_false (C : h.Coherent n) (hp : h.phase ≠ .concurrentMark) :
    h.gcState.marking = false := by
  have hf := C.flags
  cases hphase : h.phase with
  | idle =>
    rw [hphase] at hf
    rw [show h.gcState = .idle from hf]
    rfl
  | concurrentMark => exact absurd hphase hp
  | concurrentRelocate =>
    rw [hphase] at hf
    rcases hf with hg | hg
    · rw [hg]
      rfl
    · rw [hg]
      rfl

/-- **What mutators do keeps the heap coherent.** -/
theorem Coherent.calm (C : h.Coherent n) (K : Calm h h') : h'.Coherent n := by
  refine C.framed K.toFramed (fun hp => ?_) fun hp => ?_
  · rw [K.queue]
    exact C.grey hp
  · exact K.silent (C.marking_eq_false hp) (C.silent hp)

theorem Onward.calm (O : Onward h n h') (K : Calm h' h'') : Onward h n h'' :=
  ⟨O.coherent.calm K, trans_of Heeds O.heeds K.heeds⟩

theorem Onward.trans {m : Nat} (O : Onward h m h') (O' : Onward h' n h'') : Onward h n h'' :=
  ⟨O'.coherent, trans_of Heeds O.heeds O'.heeds⟩

theorem Coherent.onward (C : h.Coherent n) (K : Calm h h') : Onward h n h' :=
  ⟨C.calm K, K.heeds⟩

/-! ## 2. The frame of the steps -/

/-- Stopping the mutators, and letting them go again, does nothing to the cycle. -/
theorem after_synchronize {act : Action RegionHeap α} {f : α → Nat}
    (hact : ∀ h₁, Calm h h₁ → After act h₁ fun a h₂ => Onward h₁ (f a) h₂) :
    After (synchronize act) h fun a h' => Onward h (f a) h' := by
  have hjoin {act : Action Safepoint Unit} :
      Keeps Calm (act.onPart RegionHeap.safepoint fun safepoint h => { h with safepoint }) :=
    keeps_onPart fun _ _ => .of_eq rfl rfl rfl rfl
  unfold synchronize
  refine hjoin.after fun _ h₁ K₁ => ?_
  rw [after_bind]
  refine (hact h₁ K₁).mono fun a h₂ O => ?_
  refine hjoin.after fun _ h₃ K₃ => ?_
  rw [after_pure]
  exact ⟨O.coherent.calm K₃, trans_of Heeds K₁.heeds (O.calm K₃).heeds⟩

/-- **A step that is called in another phase does nothing.** -/
theorem after_inPhase {act : Action RegionHeap α} {f : α → Nat} {phase : CyclePhase} {step : String}
    {otherwise : α} (C : h.Coherent n)
    (hact : h.phase = phase → After act h fun a h' => Onward h (f a) h')
    (hskip : f otherwise = n) :
    After (inPhase phase step otherwise act) h fun a h' => Onward h (f a) h' := by
  unfold inPhase
  rw [after_bind, after_get, after_ite]
  refine ⟨hact, fun _ => keeps_note.after fun _ h' K => ?_⟩
  rw [after_pure, hskip]
  exact C.onward K

/-- A cycle is completed. -/
theorem after_finishCycle (h : RegionHeap) (hphase : h.phase = .idle) (hflags : h.gcState = .idle)
    (hmarked : ∀ i, h.space.stateAt i ≠ .marked)
    (hrelocating : ∀ i, h.space.stateAt i ≠ .relocating)
    (hgrey : h.queue.grey.toList = []) (hsilent : h.satb.Silent)
    (hbegun : n = h.cycleStats.completed + h.cycleStats.cancelled + 1)
    (hcollections : h.core.usage.collections = h.cycleStats.completed) :
    After finishCycle h fun _ h' =>
      h'.Coherent n ∧ h'.cycleStats.cancelled = h.cycleStats.cancelled := by
  simp only [finishCycle, updateUsage, after_bind, after_get, after_set, after_modify]
  refine ⟨?_, trivial⟩
  exact
    { flags := by rw [hphase]; exact hflags
      marked := hmarked
      relocating := fun i hi => absurd hi (hrelocating i)
      grey := fun _ => hgrey
      silent := fun _ => hsilent
      begun := by simp only [hphase, if_true]; omega
      collections := congrArg (· + 1) hcollections }

/-! ## 3. Marking -/

theorem keeps_scanRoots : Keeps Calm scanRoots := keeps_onPart fun _ _ => .of_eq rfl rfl rfl rfl

theorem keeps_prepareRegion : Keeps Calm (prepareRegion i) :=
  keeps_getRegion.bind fun _ => Keeps.ite (keeps_onRegion Region.keeps_prepareForMark) keeps_pure

/-- Marking works on the queues, and takes entries out of completed buffers only. -/
structure Traces (h h' : RegionHeap) : Prop extends Framed h h' where
  buffers : h'.satb.buffers = h.satb.buffers

instance : IsPreorder RegionHeap Traces where
  refl h := ⟨refl_of Framed h, rfl⟩
  trans _ _ _ M M' := ⟨trans_of Framed M.toFramed M'.toFramed, M'.buffers.trans M.buffers⟩

/-- The queues of the collector have changed. -/
theorem Traces.of_eq (hc : h'.cycleState = h.cycleState) (hs : h'.space = h.space)
    (hb : h'.satb.buffers = h.satb.buffers) : Traces h h' := by
  refine ⟨⟨hc, ?_⟩, hb⟩
  rw [hs]
  exact refl_of RegionSpace.Calm h.space

theorem keeps_markObject : Keeps Traces (markObject n) := by
  refine keeps_regionOfObject.bind fun i => keeps_getMemory.bind fun m => ?_
  exact (RegionSpace.keeps_onRegion Region.keeps_mark).onPart fun _ _ hs =>
    ⟨⟨rfl, hs.committed, hs.states⟩, rfl⟩

theorem keeps_markAndPush : Keeps Traces (markAndPush n) := by
  refine Keeps.ite (keeps_markObject.bind fun new => Keeps.ite ?_ keeps_pure) keeps_pure
  exact keeps_modify fun _ => .of_eq rfl rfl rfl

theorem keeps_markSlot : Keeps Traces (markSlot n) := keeps_loadSlot.bind fun _ => keeps_markAndPush

theorem after_markStep : After markStep h fun goesOn h' => Traces h h' ∧
    (goesOn = false → h'.queue.grey.toList = [] ∧ h'.satb.completed.toList = []) := by
  unfold markStep
  rw [after_bind, after_get]
  cases hg : h.queue.grey.pop? with
  | some x =>
    obtain ⟨object, rest⟩ := x
    simp only [after_bind, after_set, after_pure]
    have M₀ : Traces h { h with queue := { h.queue with grey := rest } } := .of_eq rfl rfl rfl
    refine (keeps_eachSlot (fun _ => keeps_markSlot) _).mono fun _ h' M => ?_
    exact ⟨trans_of Traces M₀ M, fun hf => by cases hf⟩
  | none =>
    cases hq : h.satb.pop with
    | mk entries? satb =>
      cases entries? with
      | some entries =>
        obtain ⟨c, -, rfl⟩ := SatbQueues.pop_eq_some hq
        simp only [after_bind, after_set, after_pure]
        have M₀ : Traces h { h with satb := { h.satb with completed := c } } := .of_eq rfl rfl rfl
        refine (keeps_each (fun _ => keeps_markAndPush) _).mono fun _ h' M => ?_
        exact ⟨trans_of Traces M₀ M, fun hf => by cases hf⟩
      | none =>
        simp only [after_pure]
        exact ⟨refl_of Traces h, fun _ =>
          ⟨(Queue.pop?_eq_none_iff _).1 hg, SatbQueues.pop_eq_none hq⟩⟩

/-- **Marking that ends has nothing left to do**, however many steps it takes. -/
theorem after_markSteps : After (markSteps n) h fun _ h' => Traces h h' ∧
    h'.queue.grey.toList = [] ∧ h'.satb.completed.toList = [] := by
  induction n generalizing h with
  | zero => exact after_throw
  | succ n ih =>
    rw [markSteps, after_bind]
    refine after_markStep.mono ?_
    rintro goesOn h₁ ⟨M, hdone⟩
    rw [after_ite]
    refine ⟨fun _ => ih.mono fun _ h₂ hh => ⟨trans_of Traces M hh.1, hh.2⟩, fun hf => ?_⟩
    rw [after_pure]
    exact ⟨M, hdone (Bool.eq_false_iff.2 hf)⟩

theorem after_drain {cancellable : Bool} : After (drain cancellable) h fun finished h' => Traces h h' ∧
    (finished = false → cancellable = true) ∧
    (finished = true → h'.queue.grey.toList = [] ∧ h'.satb.completed.toList = []) := by
  unfold drain
  simp only [after_bind, after_get, after_ite, after_pure, Bool.and_eq_true]
  refine ⟨fun hc => ⟨refl_of Traces h, fun _ => hc.1, fun hf => by cases hf⟩, fun _ => ?_⟩
  exact after_markSteps.mono fun _ h' hh => ⟨hh.1, (fun hf => by cases hf), fun _ => hh.2⟩

/-- A cancelled cycle leaves nothing behind, and is counted. -/
theorem Coherent.after_abandonMarking (C : h.Coherent n) (hp : h.phase = .concurrentMark) :
    After abandonMarking h fun _ h' =>
      h'.Coherent n ∧ h.cycleStats.cancelled < h'.cycleStats.cancelled := by
  simp only [abandonMarking, setGcState, modifySatb, clearQueue, modifyQueue, setPhase,
    modifyCycleStats, after_bind, after_modify]
  refine (keeps_note _).mono fun _ h' K => ⟨Coherent.calm ?_ K, ?_⟩
  · exact
      { flags := rfl
        marked := C.marked
        relocating := fun i hi => by
          have := (C.relocating i hi).1.symm.trans hp
          cases this
        grey := fun _ => rfl
        silent := fun _ => SatbQueues.silent_abandon
        begun := by
          have := C.begun
          simp only [hp, reduceCtorEq, if_false, if_true] at this ⊢
          omega
        collections := C.collections }
  · rw [K.cancelled]
    exact Nat.lt_succ_self _

/-- **A cycle begins** if none is on its way. -/
theorem Coherent.after_initMark (C : h.Coherent n) :
    After initMark h fun begun h' => Onward h (n + begun.toNat) h' := by
  refine after_synchronize fun h₁ K₁ => after_inPhase (C.calm K₁) (fun hp => ?_) rfl
  have C₁ := C.calm K₁
  rw [after_bind, after_modify]
  simp only [clearQueue, modifyQueue, after_bind, after_modify]
  refine (keeps_eachRegion (fun _ => keeps_prepareRegion) _).mono fun _ h₂ K₂ => ?_
  refine (keeps_scanRoots _).mono fun slots h₃ K₃ => ?_
  refine (keeps_each (R := Traces) (fun _ => keeps_markSlot) _).mono fun _ h₄ M => ?_
  have F := trans_of Framed (trans_of Framed K₂.toFramed K₃.toFramed) M.toFramed
  have hs (j : Nat) (x : RegionState) (hx : x ≠ .allocating) (hj : h₄.space.stateAt j = x) :
      h₁.space.stateAt j = x := F.space.stateAt_eq hj hx
  simp only [setGcState, setPhase, after_modify, after_get]
  refine (keeps_note _).mono fun _ h₅ K₅ => ?_
  rw [after_pure]
  refine ⟨Coherent.calm ?_ K₅, ?_, fun hm => ?_⟩
  · exact
      { flags := rfl
        marked := fun j hj => C₁.marked j (hs j _ (by decide) hj)
        relocating := fun j hj => by
          have := (C₁.relocating j (hs j _ (by decide) hj)).1.symm.trans hp
          cases this
        grey := fun hne => absurd rfl hne
        silent := fun hne => absurd rfl hne
        begun := by
          have := C₁.begun
          simp only [hp, if_true, Nat.add_zero] at this
          show n + 1 = h₄.cycleStats.completed + h₄.cycleStats.cancelled + 1
          rw [F.completed, F.cancelled, this]
        collections := F.collections.trans (C₁.collections.trans F.completed.symm) }
  · rw [K₅.cancelled]
    exact Nat.le_of_eq F.cancelled.symm
  · rw [hp] at hm
    cases hm

theorem Coherent.after_concurrentMark (C : h.Coherent n) :
    After concurrentMark h fun _ h' => Onward h n h' := by
  refine after_inPhase (f := fun _ => n) C (fun hp => ?_) rfl
  rw [after_bind]
  refine after_drain.mono ?_
  rintro finished h₁ ⟨M, -⟩
  have hp₁ : h₁.phase = .concurrentMark := M.phase.trans hp
  have C₁ : h₁.Coherent n := C.framed M.toFramed (fun hne => absurd hp hne) fun hne => absurd hp hne
  dsimp only
  rw [after_ite]
  constructor
  · intro _
    rw [after_bind]
    refine (after_synchronize (f := fun _ => n) fun h₂ K₂ => ?_).mono fun _ h₃ O => ?_
    · refine ((C₁.calm K₂).after_abandonMarking (K₂.phase.trans hp₁)).mono ?_
      rintro _ h₃ ⟨C₃, hlt⟩
      exact ⟨C₃, Nat.le_of_lt hlt, fun _ _ => .inl hlt⟩
    · rw [after_pure]
      exact ⟨O.coherent, trans_of Heeds M.heeds O.heeds⟩
  · intro _
    rw [after_pure]
    exact ⟨C₁, M.heeds⟩

/-! ## 4. The regions that are chosen -/

/-- The regions may be used for something else; what else is known of the cycle is as before. -/
structure Recast (h h' : RegionHeap) : Prop where
  cycleState : h'.cycleState = h.cycleState
  committed : h'.space.committed = h.space.committed
  queue : h'.queue = h.queue
  satb : h'.satb = h.satb

instance : IsPreorder RegionHeap Recast where
  refl _ := ⟨rfl, rfl, rfl, rfl⟩
  trans _ _ _ R R' := ⟨R'.cycleState.trans R.cycleState, R'.committed.trans R.committed,
    R'.queue.trans R.queue, R'.satb.trans R.satb⟩

/-- The regions that are marked or relocated are committed ones. -/
def Turning (h : RegionHeap) : Prop :=
  ∀ j, h.space.stateAt j = .marked ∨ h.space.stateAt j = .relocating → j < h.space.committed

/-- What is looked up is a region, in the state that it has. -/
theorem after_getRegion : After (getRegion i) h fun r h' => h' = h ∧ i < h.space.maxRegions ∧
    r.state = h.space.stateAt i := by
  unfold getRegion
  rw [after_bind, after_get, after_lift]
  intro r hr
  obtain ⟨hi, rfl⟩ := RegionSpace.region?_eq_some.1 (RegionSpace.region_eq_ok.1 hr)
  exact ⟨rfl, hi, RegionSpace.state_getD⟩

/-- A region moves from one state to another, and the others stay. -/
theorem after_transition {src dst : RegionState} :
    After (onRegion i (Region.transition src dst)) h fun _ h' => Recast h h' ∧
      h.space.stateAt i = src ∧
      ∀ j, h'.space.stateAt j = if j = i then dst else h.space.stateAt j := by
  unfold onRegion onSpace
  rw [after_onPart]
  refine (RegionSpace.after_onRegion_states Region.after_transition).mono ?_
  rintro _ s ⟨hc, r, ⟨hsrc, hdst⟩, hs⟩
  refine ⟨⟨rfl, hc, rfl, rfl⟩, RegionSpace.state_getD.symm.trans hsrc, fun j => ?_⟩
  rw [← hdst]
  exact hs j

theorem after_endMarking (hi : i < h.space.committed) (hturning : h.Turning)
    (hrelocating : ∀ j, h.space.stateAt j ≠ .relocating) :
    After (endMarking i) h fun _ h' => Recast h h' ∧ h'.Turning ∧
      ∀ j, h'.space.stateAt j ≠ .relocating := by
  have hturn : After (onRegion i (Region.transition .allocating .marked)) h fun _ h' =>
      Recast h h' ∧ h'.Turning ∧ ∀ j, h'.space.stateAt j ≠ .relocating := by
    refine after_transition.mono ?_
    rintro _ h' ⟨R, -, hs⟩
    refine ⟨R, fun j hj => ?_, fun j hj => ?_⟩
    · rw [hs j] at hj
      rw [R.committed]
      split at hj
      · rename_i he
        exact he ▸ hi
      · exact hturning j hj
    · rw [hs j] at hj
      split at hj
      · cases hj
      · exact hrelocating j hj
  have hkeep {α : Type} {h₁ : RegionHeap} {act : Action RegionHeap α} (hact : Keeps Eq act)
      (hh : Recast h h₁ ∧ h₁.Turning ∧ ∀ j, h₁.space.stateAt j ≠ .relocating) :
      After act h₁ fun _ h' => Recast h h' ∧ h'.Turning ∧ ∀ j, h'.space.stateAt j ≠ .relocating :=
    (hact h₁).mono fun _ h' he => he ▸ hh
  refine Keeps.after (R := Eq) keeps_getRegion fun r h₁ he => ?_
  subst he
  rw [after_ite]
  refine ⟨fun _ => ?_, fun _ => hkeep keeps_pure ⟨refl_of Recast h, hturning, hrelocating⟩⟩
  rw [after_bind]
  refine hturn.mono fun _ h₁ hh => hkeep ?_ hh
  exact keeps_get.bind fun _ => Keeps.ite
    (keeps_lift.bind fun _ => keeps_lift.bind fun _ => keeps_pure) keeps_pure

theorem after_candidatesFrom (hi : i + n ≤ h.space.committed) (hturning : h.Turning)
    (hrelocating : ∀ j, h.space.stateAt j ≠ .relocating) :
    After (candidatesFrom i n) h fun _ h' => Recast h h' ∧ h'.Turning ∧
      ∀ j, h'.space.stateAt j ≠ .relocating := by
  induction n generalizing h i with
  | zero =>
    rw [candidatesFrom, after_pure]
    exact ⟨refl_of Recast h, hturning, hrelocating⟩
  | succ n ih =>
    rw [candidatesFrom, after_bind]
    refine (after_endMarking (by omega) hturning hrelocating).mono ?_
    rintro first h₁ ⟨R₁, ht₁, hr₁⟩
    rw [after_bind]
    refine (ih (by rw [R₁.committed]; omega) ht₁ hr₁).mono ?_
    rintro rest h₂ ⟨R₂, hh⟩
    rw [after_pure]
    exact ⟨trans_of Recast R₁ R₂, hh⟩

/-- The chosen regions are relocated, and stay within the committed ones. -/
theorem after_chosen {chosen : List Nat} (hturning : h.Turning) :
    After (Action.each chosen fun i => onRegion i (Region.transition .marked .relocating)) h
      fun _ h' => Recast h h' ∧ h'.Turning ∧ (chosen = [] → h' = h) := by
  induction chosen generalizing h with
  | nil =>
    rw [Action.each, after_pure]
    exact ⟨refl_of Recast h, hturning, fun _ => rfl⟩
  | cons i rest ih =>
    rw [Action.each, after_bind]
    refine after_transition.mono ?_
    rintro _ h₁ ⟨R₁, hsrc, hs⟩
    refine (ih fun j hj => ?_).mono ?_
    · rw [hs j] at hj
      rw [R₁.committed]
      split at hj
      · rename_i he
        exact he ▸ hturning i (.inl hsrc)
      · exact hturning j hj
    · rintro _ h₂ ⟨R₂, ht₂, -⟩
      exact ⟨trans_of Recast R₁ R₂, ht₂, fun he => by cases he⟩

/-- **No region is left marked.** -/
theorem after_releaseAll (hturning : h.Turning) :
    After (eachRegion releaseRegion) h fun _ h' => Recast h h' ∧ h'.Turning ∧
      (∀ j, h'.space.stateAt j ≠ .marked) ∧
      ∀ j, h'.space.stateAt j = .relocating → h.space.stateAt j = .relocating := by
  unfold eachRegion
  rw [after_bind, after_get]
  refine (after_upTo (fun k h' => Recast h h' ∧ h'.Turning ∧
    (∀ j < k, h'.space.stateAt j ≠ .marked) ∧
    ∀ j, h'.space.stateAt j = .relocating → h.space.stateAt j = .relocating)
    ⟨refl_of Recast h, hturning, fun j hj => absurd hj (Nat.not_lt_zero j), fun _ hj => hj⟩ ?_).mono ?_
  · rintro k h₁ hk ⟨R₁, ht₁, hm₁, hr₁⟩
    rw [Nat.zero_add, releaseRegion, after_bind]
    refine after_getRegion.mono ?_
    rintro r h₂ ⟨rfl, -, hr⟩
    rw [after_ite]
    constructor
    · intro _
      refine after_transition.mono ?_
      rintro _ h₃ ⟨R₃, hsrc, hs⟩
      refine ⟨trans_of Recast R₁ R₃, fun j hj => ?_, fun j hj hm => ?_, fun j hj => ?_⟩
      · rw [hs j] at hj
        rw [R₃.committed]
        split at hj
        · rcases hj with hj | hj <;> cases hj
        · exact ht₁ j hj
      · rw [hs j] at hm
        split at hm
        · cases hm
        · exact hm₁ j (by omega) hm
      · rw [hs j] at hj
        split at hj
        · cases hj
        · exact hr₁ j hj
    · intro hne
      rw [after_pure]
      refine ⟨R₁, ht₁, fun j hj hm => ?_, hr₁⟩
      by_cases he : j = k
      · exact hne (hr.trans (he ▸ hm))
      · exact hm₁ j (by omega) hm
  · rintro _ h' ⟨R, ht, hm, hr⟩
    refine ⟨R, ht, fun j hj => ?_, hr⟩
    exact hm j (R.committed ▸ ht j (.inl hj)) hj

theorem keeps_garbageOf {R : RegionHeap → RegionHeap → Prop} [IsPreorder RegionHeap R]
    {chosen : List Nat} : Keeps R (garbageOf chosen) := by
  induction chosen with
  | nil => exact keeps_pure
  | cons i rest ih =>
    exact keeps_getRegion.bind fun _ => keeps_lift.bind fun _ => ih.bind fun _ => keeps_pure

/-- **Regions are relocated only if they were chosen.** -/
theorem after_chooseRegions (h : RegionHeap) (hmarked : ∀ j, h.space.stateAt j ≠ .marked)
    (hrelocating : ∀ j, h.space.stateAt j ≠ .relocating) :
    After chooseRegions h fun chosen h' => Recast h h' ∧ (∀ j, h'.space.stateAt j ≠ .marked) ∧
      ∀ j, h'.space.stateAt j = .relocating → chosen ≠ [] ∧ j < h'.space.committed := by
  have hturning : h.Turning := fun j hj =>
    (hj.elim (hmarked j) (hrelocating j)).elim
  unfold chooseRegions
  rw [after_bind, after_get, after_bind]
  refine (after_candidatesFrom (Nat.le_of_eq (Nat.zero_add _)) hturning hrelocating).mono ?_
  rintro candidates h₁ ⟨R₁, ht₁, hr₁⟩
  rw [after_bind, after_get]
  dsimp only
  generalize CyclePolicy.choose h₁.core.options h₁.status candidates = chosen
  rw [after_bind]
  refine (after_chosen ht₁).mono ?_
  rintro _ h₂ ⟨R₂, ht₂, hnil⟩
  rw [after_bind]
  refine (after_releaseAll ht₂).mono ?_
  rintro _ h₃ ⟨R₃, ht₃, hm₃, hr₃⟩
  refine Keeps.after (R := Eq) keeps_garbageOf fun garbage h₄ he => ?_
  subst he
  have hnote {e : Event} : Keeps (fun h h' : RegionHeap => Recast h h' ∧ h'.space = h.space) (note e) :=
    keeps_modify fun _ => ⟨⟨rfl, rfl, rfl, rfl⟩, rfl⟩
  refine hnote.after ?_
  rintro _ h₅ ⟨R₅, hs⟩
  rw [after_pure, hs]
  refine ⟨trans_of Recast (trans_of Recast R₁ R₂) (trans_of Recast R₃ R₅), hm₃, fun j hj => ?_⟩
  refine ⟨fun he => ?_, ht₃ j (.inr hj)⟩
  exact hr₁ j (hnil he ▸ hr₃ j hj)

/-- **Marking ends** with regions to relocate, or the cycle ends with it. -/
theorem Coherent.after_finalMark (C : h.Coherent n) :
    After finalMark h fun _ h' => Onward h n h' := by
  refine after_inPhase (f := fun _ => n) C (fun hp => ?_) rfl
  refine after_synchronize (f := fun _ => n) fun h₀ K₀ => ?_
  have C₀ := C.calm K₀
  replace hp : h₀.phase = .concurrentMark := K₀.phase.trans hp
  simp only [modifySatb, after_bind, after_modify]
  refine after_drain.mono ?_
  rintro finished h₁ ⟨M, hover, hdone⟩
  obtain ⟨hgrey, hcompleted⟩ := hdone (by
    cases finished with
    | false => cases hover rfl
    | true => rfl)
  have F : Framed h₀ h₁ := ⟨M.cycleState, M.space⟩
  have hp₁ : h₁.phase = .concurrentMark := F.phase.trans hp
  have C₁ : h₁.Coherent n := C₀.framed F (fun hne => absurd hp hne) fun hne => absurd hp hne
  have hsilent : h₁.satb.Silent := by
    refine ⟨hcompleted, fun b hb => ?_⟩
    rw [M.buffers] at hb
    exact SatbQueues.entries_of_mem_flushAll hb
  rw [after_get, after_ite]
  constructor
  · intro _
    rw [after_bind]
    refine (C₁.after_abandonMarking hp₁).mono ?_
    rintro _ h₂ ⟨C₂, hlt⟩
    rw [after_pure]
    exact ⟨C₂, trans_of Heeds F.heeds ⟨Nat.le_of_lt hlt, fun _ _ => .inl hlt⟩⟩
  · intro hc
    have hrequest {h' : RegionHeap} (hle : h₁.cycleStats.cancelled = h'.cycleStats.cancelled) :
        Heeds h₀ h' :=
      ⟨Nat.le_of_eq (F.cancelled.symm.trans hle), fun _ hr =>
        absurd (F.cancelRequested.trans hr) hc⟩
    simp only [setGcState, setPhase, after_bind, after_modify]
    refine (after_chooseRegions { h₁ with gcState := .idle } C₁.marked
      fun j hj => ?_).mono ?_
    · have := (C₁.relocating j hj).1.symm.trans hp₁
      cases this
    rintro chosen h₂ ⟨R, hm₂, hr₂⟩
    have hbegun := C₁.begun
    simp only [hp₁, reduceCtorEq, if_false] at hbegun
    have hcompleted : h₂.cycleStats.completed = h₁.cycleStats.completed :=
      congrArg CycleState.completed R.cycleState
    have hcancelled : h₂.cycleStats.cancelled = h₁.cycleStats.cancelled :=
      congrArg CycleState.cancelled R.cycleState
    have hcollections : h₂.core.usage.collections = h₂.cycleStats.completed :=
      (congrArg CycleState.collections R.cycleState).trans (C₁.collections.trans hcompleted.symm)
    rw [after_ite]
    constructor
    · intro hnil
      simp only [after_bind, after_modify, after_pure]
      refine (after_finishCycle (n := n) { h₂ with phase := .idle } rfl
        (congrArg CycleState.gcState R.cycleState) hm₂
        (fun j hj => (hr₂ j hj).1 (List.isEmpty_iff.1 hnil)) ?_ ?_ ?_ hcollections).mono ?_
      · exact (congrArg (·.grey.toList) R.queue).trans hgrey
      · exact R.satb ▸ hsilent
      · simp only [hcompleted, hcancelled, hbegun]
      · rintro _ h₃ ⟨C₃, hcan⟩
        exact ⟨C₃, hrequest (hcancelled.symm.trans hcan.symm)⟩
    · intro _
      simp only [after_bind, after_modify, after_pure]
      refine ⟨?_, hrequest hcancelled.symm⟩
      exact
        { flags := .inl rfl
          marked := hm₂
          relocating := fun j hj => ⟨rfl, (hr₂ j hj).2⟩
          grey := fun _ => (congrArg (·.grey.toList) R.queue).trans hgrey
          silent := fun _ => R.satb ▸ hsilent
          begun := by simp only [hcompleted, hcancelled, reduceCtorEq, if_false, hbegun]
          collections := hcollections }

/-! ## 5. Relocation -/

theorem keeps_evacuateRegion : Keeps Calm (evacuateRegion i) :=
  keeps_getRegion.bind fun _ => Keeps.ite (keeps_lift.bind fun _ =>
    keeps_each fun _ => keeps_evacuateObject.bind fun _ => keeps_pure) keeps_pure

theorem keeps_updateSlot : Keeps Calm (updateSlot n) := by
  refine keeps_loadSlot.bind fun value => Keeps.ite (keeps_getMemory.bind fun m => ?_) keeps_pure
  cases Object.forwardee? m value with
  | none => exact keeps_pure
  | some copy => exact Keeps.ite (keeps_exchangeSlot.bind fun _ => keeps_pure) keeps_pure

theorem keeps_updateObject {kept : Bool} : Keeps Calm (updateObject kept n) :=
  keeps_getMemory.bind fun _ => Keeps.ite keeps_pure (keeps_eachSlot fun _ => keeps_updateSlot)

theorem keeps_updateRegion : Keeps Calm (updateRegion i) :=
  keeps_getRegion.bind fun _ => Keeps.ite keeps_pure
    (keeps_lift.bind fun _ => keeps_each fun _ => keeps_updateObject)

theorem Coherent.after_evacuate (C : h.Coherent n) :
    After evacuate h fun _ h' => Onward h n h' := by
  refine after_inPhase (f := fun _ => n) C (fun hp => ?_) rfl
  refine Keeps.after (keeps_eachRegion fun _ => keeps_evacuateRegion) fun _ h₁ K₁ => ?_
  have hp₁ : h₁.phase = .concurrentRelocate := K₁.phase.trans hp
  rw [after_bind]
  refine (after_synchronize (f := fun _ => n) fun h₂ K₂ => ?_).mono fun _ h₃ O => ?_
  · rw [setGcState, after_modify]
    have hp₂ : h₂.phase = .concurrentRelocate := K₂.phase.trans hp₁
    have C₂ := (C.calm K₁).calm K₂
    refine ⟨{ C₂ with flags := ?_ }, Nat.le_refl _, fun hm hc => .inr ⟨hm, hc⟩⟩
    rw [hp₂]
    exact .inr rfl
  · rw [after_bind, after_get]
    refine (keeps_note _).mono fun _ h₄ K₄ => ?_
    exact ⟨O.coherent.calm K₄, trans_of Heeds K₁.heeds (O.calm K₄).heeds⟩

theorem Coherent.after_updateRefs (C : h.Coherent n) :
    After updateRefs h fun _ h' => Onward h n h' := by
  refine after_inPhase (f := fun _ => n) C (fun _ => ?_) rfl
  have hkeeps : Keeps Calm (do
      let slots ← scanRoots
      Action.each slots updateSlot
      eachRegion updateRegion) :=
    keeps_scanRoots.bind fun _ => (keeps_each fun _ => keeps_updateSlot).bind fun _ =>
      keeps_eachRegion fun _ => keeps_updateRegion
  exact (hkeeps h).mono fun _ h' K => C.onward K

/-- A region that is kept is allocated in again. -/
theorem after_recover {x : Region × Memory} :
    After Region.recover x fun _ y => y.1.state = .allocating := by
  unfold Region.recover Action.onFirst
  refine after_second fun _ _ => after_second fun _ _ => ?_
  rw [after_onPart]
  exact after_second fun _ _ => Region.after_transition.mono fun _ _ h => h.2

/-- A region that is emptied is in no use. -/
theorem after_recycleRegion {r : Region} : After Region.recycle r fun _ r' => r'.state = .empty := by
  unfold Region.recycle
  refine after_second fun _ _ => after_second fun _ _ => after_second fun _ _ => ?_
  refine after_second fun _ _ => after_second fun _ _ => after_second fun _ _ => ?_
  exact after_second fun _ _ => Region.after_transition.mono fun _ _ h => h.2

theorem after_recoverAt : After (onRegionAndMemory i Region.recover) h fun _ h' => Recast h h' ∧
    ∀ j, h'.space.stateAt j = if j = i then .allocating else h.space.stateAt j := by
  unfold onRegionAndMemory
  rw [after_bind]
  refine after_getRegion.mono ?_
  rintro r h₁ ⟨rfl, hi, -⟩
  rw [after_onPart]
  refine after_recover.mono ?_
  rintro _ ⟨r', m⟩ hr
  refine ⟨⟨rfl, RegionSpace.committed_putRegion, rfl, rfl⟩, fun j => ?_⟩
  rw [← hr]
  exact RegionSpace.stateAt_putRegion hi

theorem after_recycleOf {x : RegionSpace × Memory} :
    After (RegionSpace.recycle i) x fun _ y => y.1.committed = x.1.committed ∧
      ∀ j, y.1.stateAt j = if j = i then .empty else x.1.stateAt j := by
  obtain ⟨s, m⟩ := x
  have hlast {m' : Memory} {bytes : Nat} : After (Action.onFirst do
      RegionSpace.onRegion i Region.recycle
      modify fun s : RegionSpace => { s with used := s.used - bytes }) (s, m')
      fun _ y => y.1.committed = s.committed ∧
        ∀ j, y.1.stateAt j = if j = i then .empty else s.stateAt j := by
    unfold Action.onFirst
    rw [after_onPart, after_bind]
    refine (RegionSpace.after_onRegion_states after_recycleRegion).mono ?_
    rintro _ s' ⟨hc, r, hr, hs⟩
    rw [after_modify]
    refine ⟨hc, fun j => ?_⟩
    rw [← hr]
    exact hs j
  unfold RegionSpace.recycle
  rw [after_bind, after_get]
  dsimp only
  rw [after_bind, after_lift]
  intro r _
  -- Only the last of the actions changes the regions.
  have hclear {act : Action Memory Bool} :
      Keeps (fun x y : RegionSpace × Memory => y.1 = x.1) act.onSecond := keeps_onPart fun _ _ => rfl
  refine hclear.after ?_
  rintro cleared ⟨_, m₁⟩ rfl
  rw [after_ite]
  refine ⟨fun _ => ?_, fun _ => hlast⟩
  rw [after_bind, after_modify]
  exact hlast

theorem after_recycleAt :
    After (onSpaceAndMemory (RegionSpace.recycle i)) h fun _ h' => Recast h h' ∧
      ∀ j, h'.space.stateAt j = if j = i then .empty else h.space.stateAt j := by
  unfold onSpaceAndMemory
  rw [after_onPart]
  refine after_recycleOf.mono ?_
  rintro _ ⟨s, m⟩ ⟨hc, hs⟩
  exact ⟨⟨rfl, hc, rfl, rfl⟩, hs⟩

/-- **No region is left that is relocated.** -/
theorem after_recycleFrom : After (recycleFrom i n) h fun _ h' => Recast h h' ∧
    ∀ j, (h'.space.stateAt j = .marked → h.space.stateAt j = .marked) ∧
      (h'.space.stateAt j = .relocating →
        h.space.stateAt j = .relocating ∧ (j < i ∨ i + n ≤ j)) := by
  induction n generalizing h i with
  | zero =>
    rw [recycleFrom, after_pure]
    exact ⟨refl_of Recast h, fun j => ⟨fun hj => hj, fun hj => ⟨hj, by omega⟩⟩⟩
  | succ n ih =>
    -- The region `i` is in another state, and what follows leaves it there.
    have hnext {h₁ : RegionHeap} {x : RegionState} (hx : x ≠ .marked ∧ x ≠ .relocating)
        (R₁ : Recast h h₁)
        (hs : ∀ j, h₁.space.stateAt j = if j = i then x else h.space.stateAt j) :
        After (recycleFrom (i + 1) n) h₁ fun _ h' => Recast h h' ∧
          ∀ j, (h'.space.stateAt j = .marked → h.space.stateAt j = .marked) ∧
            (h'.space.stateAt j = .relocating →
              h.space.stateAt j = .relocating ∧ (j < i ∨ i + (n + 1) ≤ j)) := by
      refine ih.mono ?_
      rintro _ h' ⟨R', hh⟩
      refine ⟨trans_of Recast R₁ R', fun j => ⟨fun hj => ?_, fun hj => ?_⟩⟩
      · have := (hh j).1 hj
        rw [hs j] at this
        split at this
        · exact absurd this hx.1
        · exact this
      · obtain ⟨hj, hlt⟩ := (hh j).2 hj
        rw [hs j] at hj
        split at hj
        · exact absurd hj hx.2
        · exact ⟨hj, by omega⟩
    rw [recycleFrom, after_bind]
    refine after_getRegion.mono ?_
    rintro r h₁ ⟨rfl, hi, hr⟩
    rw [after_ite, after_ite]
    refine ⟨fun _ => ⟨fun _ => ?_, fun _ => ?_⟩, fun hne => ?_⟩
    · rw [after_bind]
      refine after_recoverAt.mono ?_
      rintro _ h₁ ⟨R₁, hs⟩
      rw [after_bind]
      exact (hnext ⟨by decide, by decide⟩ R₁ hs).mono fun _ _ hh => after_pure.2 hh
    · rw [after_bind]
      refine after_recycleAt.mono ?_
      rintro _ h₁ ⟨R₁, hs⟩
      rw [after_bind]
      exact (hnext ⟨by decide, by decide⟩ R₁ hs).mono fun _ _ hh => after_pure.2 hh
    · refine ih.mono ?_
      rintro _ h' ⟨R', hh⟩
      refine ⟨R', fun j => ⟨(hh j).1, fun hj => ?_⟩⟩
      obtain ⟨hrel, hlt⟩ := (hh j).2 hj
      refine ⟨hrel, ?_⟩
      by_cases he : j = i
      · exact absurd (hr.trans (he ▸ hrel)) hne
      · omega

/-- **The cycle ends** when the regions are recycled. -/
theorem Coherent.after_recycle (C : h.Coherent n) : After recycle h fun _ h' => Onward h n h' := by
  refine after_inPhase (f := fun _ => n) C (fun hp => ?_) rfl
  -- In between flags and phase do not agree: the flags are those of the next phase.
  have hidle : After (synchronize (setGcState .idle)) h fun _ h₁ =>
      Calm { h with gcState := .idle } h₁ := by
    unfold synchronize setGcState
    simp only [after_bind, after_onPart, after_modify, after_pure]
    exact fun _ _ _ _ _ _ => .of_eq rfl rfl rfl rfl
  rw [after_bind]
  refine hidle.mono fun _ h₁ K₁ => ?_
  rw [after_bind, after_get, after_bind]
  refine after_recycleFrom.mono ?_
  rintro ⟨freed, kept⟩ h₂ ⟨R, hs⟩
  simp only [modifyCycleStats, setPhase, after_bind, after_modify, after_get]
  refine (keeps_note _).mono fun _ h₃ K₃ => ?_
  have hne : h.phase ≠ .concurrentMark := by
    rw [hp]
    decide
  have hstate {j : Nat} {x : RegionState} (hx : x ≠ .allocating) (hj : h₁.space.stateAt j = x) :
      h.space.stateAt j = x := K₁.space.stateAt_eq hj hx
  have hcompleted : h₃.cycleStats.completed = h.cycleStats.completed :=
    K₃.completed.trans ((congrArg CycleState.completed R.cycleState).trans K₁.completed)
  have hcancelled : h₃.cycleStats.cancelled = h.cycleStats.cancelled :=
    K₃.cancelled.trans ((congrArg CycleState.cancelled R.cycleState).trans K₁.cancelled)
  refine (after_finishCycle (n := n) h₃ K₃.phase ?_ ?_ ?_ ?_ ?_ ?_ ?_).mono ?_
  · exact K₃.gcState.trans ((congrArg CycleState.gcState R.cycleState).trans K₁.gcState)
  · intro j hj
    exact C.marked j (hstate (by decide) ((hs j).1 (K₃.space.stateAt_eq hj (by decide))))
  · intro j hj
    obtain ⟨hrel, hlt⟩ := (hs j).2 (K₃.space.stateAt_eq hj (by decide))
    have hcom := (C.relocating j (hstate (by decide) hrel)).2
    have hle : h.space.committed ≤ h₁.space.committed := K₁.space.committed
    omega
  · rw [K₃.queue]
    show h₂.queue.grey.toList = []
    rw [R.queue, K₁.queue]
    exact C.grey hne
  · refine K₃.silent ?_ ?_
    · show h₂.gcState.marking = false
      rw [show h₂.gcState = _ from congrArg CycleState.gcState R.cycleState]
      exact congrArg GcState.marking K₁.gcState
    · show h₂.satb.Silent
      rw [R.satb]
      exact K₁.silent rfl (C.silent hne)
  · have := C.begun
    simp only [hp, reduceCtorEq, if_false] at this
    rw [hcompleted, hcancelled, this]
  · rw [hcompleted, ← C.collections]
    exact K₃.collections.trans ((congrArg CycleState.collections R.cycleState).trans K₁.collections)
  · rintro _ h₄ ⟨C₄, hcan⟩
    refine ⟨C₄, Nat.le_of_eq (hcan.trans hcancelled).symm, fun hm => ?_⟩
    exact absurd hm hne

/-! ## 6. Calls in any order -/

/-- **A whole cycle** is begun if none is on its way. -/
theorem Coherent.after_cycle (C : h.Coherent n) : After cycle h fun _ h' =>
    ∃ begun h₁, initMark h = .ok begun h₁ ∧ Onward h (n + begun.toNat) h' := by
  unfold cycle
  rw [after_bind]
  intro begun h₁ hb
  have O₁ := C.after_initMark begun h₁ hb
  have hdone {h' : RegionHeap} (O : Onward h (n + begun.toNat) h') :
      ∃ begun h₁, initMark h = .ok begun h₁ ∧ Onward h (n + begun.toNat) h' := ⟨begun, h₁, hb, O⟩
  rw [after_ite]
  refine ⟨fun _ => after_pure.2 (hdone O₁), fun _ => ?_⟩
  rw [after_bind]
  refine O₁.coherent.after_concurrentMark.mono fun _ h₂ O₂ => ?_
  rw [after_ite]
  refine ⟨fun _ => after_pure.2 (hdone (O₁.trans O₂)), fun _ => ?_⟩
  rw [after_bind]
  refine O₂.coherent.after_finalMark.mono fun _ h₃ O₃ => ?_
  have O := O₁.trans (O₂.trans O₃)
  rw [after_ite]
  constructor
  · intro _
    rw [after_bind, after_get, after_pure]
    exact hdone O
  · intro _
    unfold relocate
    rw [after_bind, after_bind]
    refine O₃.coherent.after_evacuate.mono fun _ h₄ O₄ => ?_
    rw [after_bind]
    refine O₄.coherent.after_updateRefs.mono fun _ h₅ O₅ => ?_
    refine O₅.coherent.after_recycle.mono fun _ h₆ O₆ => ?_
    rw [after_pure]
    exact hdone (O.trans (O₄.trans (O₅.trans O₆)))

theorem Coherent.after_cancel (C : h.Coherent n) : After cancel h fun _ h' => Onward h n h' := by
  simp only [cancel, after_bind, after_get, after_ite, after_set]
  constructor
  · intro hp
    refine (keeps_note _).mono fun _ h' K => ?_
    rw [after_pure]
    have O : Onward h n { h with cancelRequested := true } :=
      ⟨{ C with }, Nat.le_refl _, fun hm _ => .inr ⟨hm, rfl⟩⟩
    exact O.calm K
  · intro _
    exact (keeps_note _).mono fun _ h' K => after_pure.2 (C.onward K)

end RegionHeap

/-- What is called on a heap from outside.  A mutator that waits for a collection, or runs one,
leaves the safepoint before and joins it afterwards. -/
inductive Call where
  | step (c : CycleStep)
  | cycle
  | cancel
  | operation (op : Operation)
  | leave
  | join
  deriving DecidableEq, Repr

namespace Call

open RegionHeap

/-- Make a call.  An operation is on any addresses. -/
def run : Call → Action RegionHeap Answer
  | step c => do return .flag (← c.run)
  | cycle => do return .flag (← RegionHeap.cycle)
  | cancel => do return .flag (← RegionHeap.cancel)
  | operation op => op.run id
  | leave => do
    Heap.onSafepoint Safepoint.leave
    return .done
  | join => do
    Heap.onSafepoint Safepoint.join
    return .done

/-- Whether the step with which a cycle begins succeeds in a call. -/
def begins (h : RegionHeap) : Call → Bool
  | step .initMark | cycle =>
    match initMark h with
    | .ok begun _ => begun
    | .error _ _ => false
  | _ => false

/-- How many cycles are begun by calls. -/
def begunIn : List Call → RegionHeap → Nat
  | [], _ => 0
  | c :: rest, h =>
    (c.begins h).toNat +
      match c.run h with
      | .ok _ h' => begunIn rest h'
      | .error _ _ => 0

end Call

namespace RegionHeap

variable {h h₀ h' : RegionHeap} {n : Nat} {cs : List Call} {as : List Answer}

/-- **Every call keeps the heap coherent.** -/
theorem Coherent.after_call (C : h.Coherent n) (c : Call) :
    After c.run h fun _ h' => Onward h (n + (c.begins h).toNat) h' := by
  cases c with
  | step c =>
    unfold Call.run
    rw [after_bind]
    simp only [after_pure]
    cases c with
    | initMark =>
      intro begun h' hb
      simp only [Call.begins, show initMark h = .ok begun h' from hb]
      exact C.after_initMark begun h' hb
    | concurrentMark => exact C.after_concurrentMark
    | finalMark => exact C.after_finalMark
    | evacuate => exact after_bind.2 (C.after_evacuate.mono fun _ _ O => after_pure.2 O)
    | updateRefs => exact after_bind.2 (C.after_updateRefs.mono fun _ _ O => after_pure.2 O)
    | recycle => exact after_bind.2 (C.after_recycle.mono fun _ _ O => after_pure.2 O)
  | cycle =>
    unfold Call.run
    rw [after_bind]
    simp only [after_pure]
    refine C.after_cycle.mono ?_
    rintro _ h' ⟨begun, h₁, hb, O⟩
    simp only [Call.begins, hb]
    exact O
  | cancel => exact after_bind.2 (C.after_cancel.mono fun _ _ O => after_pure.2 O)
  | operation op => exact (op.keeps_calm h).mono fun _ _ K => C.onward K
  | leave =>
    exact (upholds_calm.keeps_onSafepoint.bind fun _ => keeps_pure) h |>.mono fun _ _ K => C.onward K
  | join =>
    exact (upholds_calm.keeps_onSafepoint.bind fun _ => keeps_pure) h |>.mono fun _ _ K => C.onward K

/-- **Calls in any order keep the heap coherent.** -/
theorem Coherent.runAll (C : h.Coherent n) (hr : Action.runAll Call.run cs h = .ok as h') :
    Onward h (n + Call.begunIn cs h) h' := by
  induction cs generalizing h n as with
  | nil =>
    cases hr
    exact C.onward (refl_of Calm _)
  | cons c rest ih =>
    obtain ⟨a, h₁, bs, hc, hrest, rfl⟩ := runAll_cons_eq_ok.1 hr
    have O₁ := C.after_call c a h₁ hc
    have O := O₁.trans (ih O₁.coherent hrest)
    simp only [Call.begunIn, hc]
    rwa [← Nat.add_assoc]

variable {place : Place} {o : Options}

/-- A new heap is between two cycles, none of which was begun. -/
theorem coherent_of_make (hm : RegionHeap.make place o = .ok (.ok h)) : h.Coherent 0 := by
  have U := (pristine_of_make hm).1
  have hstate (i : Nat) : h.space.stateAt i = .empty :=
    RegionSpace.state_getD.symm.trans (congrArg RegionView.state (U.region i))
  have hcounts : h.cycleStats = {} ∧ h.core.usage.collections = 0 := by
    unfold RegionHeap.make at hm
    split at hm
    · cases hm
    · obtain ⟨x, -, hm⟩ := Except.bind_eq_ok.1 hm
      cases x with
      | error e => cases hm
      | ok u =>
        obtain ⟨y, -, hm⟩ := Except.bind_eq_ok.1 hm
        cases y with
        | error e => cases hm
        | ok space =>
          cases hm
          exact ⟨rfl, rfl⟩
  have hphase : h.phase = .idle := U.phase
  have hsilent : h.satb.Silent := by
    have hq : h.satb = { capacity := h.satb.capacity } := U.satb
    rw [hq]
    refine ⟨rfl, fun b hb => ?_⟩
    rw [List.mem_singleton.1 hb]
    rfl
  exact
    { flags := by rw [hphase]; exact U.gcState
      marked := fun i hi => by rw [hstate i] at hi; cases hi
      relocating := fun i hi => by rw [hstate i] at hi; cases hi
      grey := fun _ => congrArg Queue.toList U.grey
      silent := fun _ => hsilent
      begun := by rw [hcounts.1, hphase]; rfl
      collections := by rw [hcounts.1, hcounts.2] }

theorem coherent_of_build (hb : AnyHeap.build place o = .ok (.ok (.region h))) :
    h.Coherent 0 := by
  obtain ⟨g, u, hg, hs⟩ := exists_make_of_build hb
  have hstart : After startController g fun _ h' => Calm g h' := by
    simp only [startController, after_bind, after_get, after_ite, after_set, after_pure]
    refine ⟨fun _ => ?_, fun _ => refl_of Calm g⟩
    have K : Calm g { g with controller := some {} } := .of_eq rfl rfl rfl rfl
    exact (keeps_note _).mono fun _ h' K' => trans_of Calm K K'
  exact (coherent_of_make hg).calm (hstart u h hs)

/-- **A request to cancel** is accepted exactly while marking runs. -/
theorem cancel_accepted : Ends cancel h fun accepted h' => (accepted = true ↔ h.phase = .concurrentMark) ∧
    (accepted = true → h'.phase = .concurrentMark ∧ h'.cancelRequested = true ∧
      h'.cycleStats.cancelled = h.cycleStats.cancelled) := by
  simp only [cancel, note, noteAll, ends_bind, ends_get, ends_ite, ends_set, ends_modify, ends_pure]
  exact ⟨fun hp => ⟨⟨fun _ => hp, fun _ => trivial⟩, fun _ => ⟨hp, trivial, trivial⟩⟩,
    fun hp => ⟨⟨(fun hf => by cases hf), fun hm => absurd hm hp⟩, (fun hf => by cases hf)⟩⟩

/-- **The states of a cycle are coherent.**  After any calls in any order, phase, flags, regions,
queues and counts agree.  A request to cancel is accepted exactly while marking runs; and whatever is
called after that, no region is relocated before a cycle was counted as cancelled. -/
theorem coherent_after_calls (hb : AnyHeap.build place o = .ok (.ok (.region h₀)))
    (hr : Action.runAll Call.run cs h₀ = .ok as h) :
    h.Coherent (Call.begunIn cs h₀) ∧
      Ends cancel h fun accepted h₁ => (accepted = true ↔ h.phase = .concurrentMark) ∧
        (accepted = true → ∀ cs' as' h₂, Action.runAll Call.run cs' h₁ = .ok as' h₂ →
          (∃ i, h₂.space.stateAt i = .relocating) →
            h.cycleStats.cancelled < h₂.cycleStats.cancelled) := by
  have O := (coherent_of_build hb).runAll hr
  rw [Nat.zero_add] at O
  obtain ⟨accepted, h₁, hcancel, hiff, hrequested⟩ := cancel_accepted (h := h)
  refine ⟨O.coherent, accepted, h₁, hcancel, hiff, fun hacc cs' as' h₂ hr' hi => ?_⟩
  obtain ⟨hp, hreq, hsame⟩ := hrequested hacc
  obtain ⟨i, hi⟩ := hi
  -- Marking goes on until the cycle is counted, and nothing is relocated meanwhile.
  have O₂ := (O.coherent.after_cancel accepted h₁ hcancel).coherent.runAll hr'
  rcases O₂.heeds.requested hp hreq with hlt | ⟨hp₂, -⟩
  · exact hsame ▸ hlt
  · have := (O₂.coherent.relocating i hi).1.symm.trans hp₂
    cases this

/-- Steps out of turn, a cycle that is cancelled, and one that relocates. -/
def outOfTurn : List Call := [
  .operation .create, .operation (.alloc 0 0 3000), .operation (.alloc 0 0 3000), .step .recycle, .leave,
  .step .finalMark, .step .initMark, .cancel, .step .initMark, .step .evacuate, .cycle,
  .step .concurrentMark, .cancel, .step .initMark, .step .concurrentMark, .step .finalMark, .cancel,
  .step .evacuate, .step .initMark, .join, .operation (.alloc 0 0 16)]

/-- The calls are made on a heap of sixteen regions. -/
theorem coherent_out_of_turn : ∃ h₀ as h, AnyHeap.build Place.first smallHeap = .ok (.ok (.region h₀)) ∧
    Action.runAll Call.run outOfTurn h₀ = .ok as h ∧
    h.Coherent (Call.begunIn outOfTurn h₀) ∧
      Ends cancel h fun accepted h₁ => (accepted = true ↔ h.phase = .concurrentMark) ∧
        (accepted = true → ∀ cs' as' h₂, Action.runAll Call.run cs' h₁ = .ok as' h₂ →
          (∃ i, h₂.space.stateAt i = .relocating) →
            h.cycleStats.cancelled < h₂.cycleStats.cancelled) := by
  obtain ⟨h₀, hb, hd⟩ := Session.builds_iff.1 (show Session.builds Place.first smallHeap (fun h =>
    decide (Ends (Action.runAll Call.run outOfTurn) h fun _ _ => True)) = true by decide +kernel)
  obtain ⟨as, h, hr, -⟩ := of_decide_eq_true hd
  exact ⟨h₀, as, h, hb, hr, coherent_after_calls hb hr⟩

end RegionHeap

end ManagedHeap
