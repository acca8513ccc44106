/-
# Barriers in two buffers

The barriers of mutators and of compiled code are the same functions, but for the buffer in which
they record what is overwritten.  Two heaps are *twins* if they differ in nothing but that, and in
the counts of what the barriers did.  No barrier looks at either, so two runs of one barrier that
begin in twins end in twins: with the same result, or with the same fault.

* Section 1: what it is for two actions to run in lockstep, and the rules for it.
* Section 2: twins, and the actions on their parts.
* Section 3: the barriers.
-/
import ManagedHeap.Proofs.Action
import ManagedHeap.RegionHeap.Barriers

namespace ManagedHeap

/-! ## 1. Lockstep -/

section
variable {σ τ α β : Type} {R : σ → σ → Prop} {act act' : Action σ α}

/-- Two runs have come to related ends: both gave the same, or both stopped with one fault. -/
inductive Abreast (R : σ → σ → Prop) :
    EStateM.Result Fault σ α → EStateM.Result Fault σ α → Prop where
  | ok {a : α} {s t : σ} (h : R s t) : Abreast R (.ok a s) (.ok a t)
  | error {f : Fault} {s t : σ} (h : R s t) : Abreast R (.error f s) (.error f t)

/-- From related states, two actions come to related ends. -/
def Lockstep (R : σ → σ → Prop) (act act' : Action σ α) : Prop :=
  ∀ ⦃s t⦄, R s t → Abreast R (act s) (act' t)

namespace Lockstep

/-- If the first of two actions in lockstep ends, so does the other. -/
theorem of_ok (h : Lockstep R act act') {s s' t : σ} {a : α} (hR : R s t) (ha : act s = .ok a s') :
    ∃ t', act' t = .ok a t' ∧ R s' t' := by
  have hab := h hR
  rw [ha] at hab
  cases ht : act' t with
  | ok b t' =>
    rw [ht] at hab
    cases hab with
    | ok hR' => exact ⟨t', rfl, hR'⟩
  | error f t' =>
    rw [ht] at hab
    cases hab

/-- What is known of the end of the first is known of both. -/
theorem ends (h : Lockstep R act act') {s t : σ} (hR : R s t) {post : α → σ → Prop}
    (hs : Ends act s post) : ∃ a s' t', act s = .ok a s' ∧ act' t = .ok a t' ∧ R s' t' ∧
      post a s' := by
  obtain ⟨a, s', ha, hpost⟩ := hs
  obtain ⟨t', ht, hR'⟩ := h.of_ok hR ha
  exact ⟨a, s', t', ha, ht, hR', hpost⟩

protected theorem pure (a : α) : Lockstep R (pure a) (pure a) := fun _ _ hR => .ok hR

protected theorem throw (f : Fault) : Lockstep R (throw f : Action σ α) (throw f) :=
  fun _ _ hR => .error hR

protected theorem lift (x : Except Fault α) : Lockstep R (liftM x) (liftM x) := fun _ _ hR => by
  cases x with
  | ok a => exact .ok hR
  | error f => exact .error hR

protected theorem bind {f f' : α → Action σ β} (h : Lockstep R act act')
    (hf : ∀ a, Lockstep R (f a) (f' a)) : Lockstep R (act >>= f) (act' >>= f') := by
  intro s t hR
  have hab := h hR
  simp only [bind, EStateM.bind]
  cases hs : act s with
  | ok a s' =>
    cases ht : act' t with
    | ok b t' =>
      rw [hs, ht] at hab
      cases hab with
      | ok hR' => exact hf _ hR'
    | error f t' => rw [hs, ht] at hab; cases hab
  | error f s' =>
    cases ht : act' t with
    | ok b t' => rw [hs, ht] at hab; cases hab
    | error g t' =>
      rw [hs, ht] at hab
      cases hab with
      | error hR' => exact .error hR'

/-- What is done depends on the state. -/
protected theorem get {f f' : σ → Action σ α} (h : ∀ ⦃s t⦄, R s t → Abreast R (f s s) (f' t t)) :
    Lockstep R (get >>= f) (get >>= f') := fun _ _ hR => h hR

protected theorem modify {f f' : σ → σ} (h : ∀ ⦃s t⦄, R s t → R (f s) (f' t)) :
    Lockstep R (modify f) (modify f') := fun _ _ hR => .ok (h hR)

protected theorem ite {c : Prop} [Decidable c] {other other' : Action σ α}
    (h : Lockstep R act act') (ho : Lockstep R other other') :
    Lockstep R (if c then act else other) (if c then act' else other') := by
  split
  · exact h
  · exact ho

protected theorem onPart {get : σ → τ} {put : τ → σ → σ} {act : Action τ α}
    (hget : ∀ ⦃s t⦄, R s t → get t = get s) (hput : ∀ x ⦃s t⦄, R s t → R (put x s) (put x t)) :
    Lockstep R (act.onPart get put) (act.onPart get put) := by
  intro s t hR
  simp only [Action.onPart, hget hR]
  cases act (get s) with
  | ok a x => exact .ok (hput x hR)
  | error f x => exact .error (hput x hR)

protected theorem upTo {f f' : Nat → Action σ Unit} (h : ∀ k, Lockstep R (f k) (f' k))
    (start count : Nat) : Lockstep R (Action.upTo start count f) (Action.upTo start count f') := by
  induction count generalizing start with
  | zero => exact Lockstep.pure ()
  | succ n ih => exact (h start).bind fun _ => ih (start + 1)

end Lockstep

end

/-! ## 2. Twins -/

namespace RegionHeap

/-- Two heaps that differ in the counts of what their barriers did, and in that what one of them
recorded in a buffer since its records were `q`, the other one recorded in the shared buffer, in the
same order. -/
structure Twin (q : SatbQueues) (b : Nat) (h k : RegionHeap) : Prop where
  same : k = { h with barrierStats := k.barrierStats, satb := k.satb }
  recorded : ∃ vs : List Nat, h.satb = vs.foldl (·.enqueue b ·) q ∧
    k.satb = vs.foldl (·.enqueue SatbQueues.shared ·) q

section
variable {q : SatbQueues} {b : Nat} {h k : RegionHeap}

theorem Twin.refl (h : RegionHeap) (b : Nat) : Twin h.satb b h h := ⟨rfl, [], rfl, rfl⟩

theorem Twin.core (T : Twin q b h k) : k.core = h.core := by rw [T.same]

theorem Twin.space (T : Twin q b h k) : k.space = h.space := by rw [T.same]

theorem Twin.gcState (T : Twin q b h k) : k.gcState = h.gcState := by
  rw [T.same]

theorem Twin.memory (T : Twin q b h k) :
    (HasMemory.memory k : Memory) = HasMemory.memory h := congrArg HeapCore.memory T.core

/-- The counts are nothing to twins. -/
theorem Twin.setStats (T : Twin q b h k) (n n' : BarrierStats) :
    Twin q b { h with barrierStats := n } { k with barrierStats := n' } where
  same := congrArg (fun x : RegionHeap => { x with barrierStats := n' }) T.same
  recorded := T.recorded

end

section
variable {q : SatbQueues} {b : Nat} {α τ : Type}

/-- An action on a part to which records and counts do not belong. -/
theorem lockstep_part {get : RegionHeap → τ} {put : τ → RegionHeap → RegionHeap}
    {act : Action τ α} (hget : ∀ h n r, get { h with barrierStats := n, satb := r } = get h)
    (hput : ∀ x h n r, put x { h with barrierStats := n, satb := r } =
      { put x h with barrierStats := n, satb := r }) :
    Lockstep (Twin q b) (act.onPart get put) (act.onPart get put) := by
  refine Lockstep.onPart (fun h k T => ?_) fun x h k T => ?_
  · rw [T.same]
    exact hget h _ _
  · have hk : put x k = { put x h with barrierStats := k.barrierStats, satb := k.satb } := by
      conv => lhs; rw [T.same]
      exact hput x h _ _
    have hh : (put x h).satb = h.satb := by
      have he : put x h = { put x h with barrierStats := h.barrierStats, satb := h.satb } :=
        hput x h h.barrierStats h.satb
      rw [he]
    refine ⟨?_, ?_⟩
    · rw [hk]
    · rw [hk, hh]
      exact T.recorded

theorem lockstep_onMemory (act : Action Memory α) :
    Lockstep (Twin q b) (onMemory act : Action RegionHeap α) (onMemory act) :=
  lockstep_part (fun _ _ _ => rfl) fun _ _ _ _ => rfl

theorem lockstep_onSpace (act : Action RegionSpace α) :
    Lockstep (Twin q b) (onSpace act) (onSpace act) :=
  lockstep_part (fun _ _ _ => rfl) fun _ _ _ _ => rfl

theorem lockstep_onRegion (i : Nat) (act : Action Region α) :
    Lockstep (Twin q b) (onRegion i act) (onRegion i act) := lockstep_onSpace _

theorem lockstep_getMemory :
    Lockstep (Twin q b) (getMemory : Action RegionHeap Memory) getMemory :=
  Lockstep.get fun h k T => by
    rw [T.memory]
    exact .ok T

theorem lockstep_loadSlot (a : Nat) :
    Lockstep (Twin q b) (loadSlot a : Action RegionHeap Nat) (loadSlot a) :=
  lockstep_getMemory.bind fun m => Lockstep.pure (m.read a)

theorem lockstep_storeSlot (a v : Nat) :
    Lockstep (Twin q b) (storeSlot a v : Action RegionHeap Unit) (storeSlot a v) :=
  lockstep_onMemory _

theorem lockstep_modifyBarrierStats (f f' : BarrierStats → BarrierStats) :
    Lockstep (Twin q b) (modifyBarrierStats f) (modifyBarrierStats f') :=
  Lockstep.modify fun _ _ T => T.setStats _ _

theorem lockstep_modifyCycleStats (f : CycleStats → CycleStats) :
    Lockstep (Twin q b) (modifyCycleStats f) (modifyCycleStats f) :=
  Lockstep.modify fun h k T =>
    ⟨by
      have hs : k.cycleStats = h.cycleStats := by rw [T.same]
      rw [hs]
      exact congrArg (fun x : RegionHeap => { x with cycleStats := f h.cycleStats }) T.same,
      T.recorded⟩

theorem lockstep_note (e : Event) : Lockstep (Twin q b) (note e) (note e) :=
  Lockstep.modify fun h k T =>
    ⟨by
      rw [T.core]
      exact congrArg (fun x : RegionHeap =>
        { x with core := { h.core with journal := h.core.journal ++ [e].toArray } }) T.same,
      T.recorded⟩

theorem lockstep_getRegion (i : Nat) : Lockstep (Twin q b) (getRegion i) (getRegion i) :=
  Lockstep.get fun h k T => by
    rw [T.space]
    exact Lockstep.lift _ T

theorem lockstep_regionOfObject (object : Nat) :
    Lockstep (Twin q b) (regionOfObject object) (regionOfObject object) :=
  Lockstep.get fun h k T => by
    rw [T.space]
    cases h.space.indexOf? object with
    | none => exact Lockstep.throw _ T
    | some i =>
      exact (lockstep_getRegion i).bind (fun r => Lockstep.ite (Lockstep.throw _) (Lockstep.pure _)) T

/-- One recorded what the other did, each in its own buffer. -/
theorem lockstep_enqueue (v : Nat) :
    Lockstep (Twin q b) (modifySatb (·.enqueue b v)) (modifySatb (·.enqueue SatbQueues.shared v)) :=
  Lockstep.modify fun h k T => by
    obtain ⟨vs, hh, hk⟩ := T.recorded
    refine ⟨congrArg (fun x : RegionHeap => { x with satb := k.satb.enqueue SatbQueues.shared v })
      T.same, vs ++ [v], ?_, ?_⟩
    · simp only [hh, List.foldl_append, List.foldl_cons, List.foldl_nil]
    · simp only [hk, List.foldl_append, List.foldl_cons, List.foldl_nil]

/-! ## 3. The barriers -/

theorem lockstep_selfForward (object : Nat) :
    Lockstep (Twin q b) (selfForward object) (selfForward object) :=
  (lockstep_regionOfObject object).bind fun i => (lockstep_onRegion i _).bind fun _ =>
    (lockstep_onMemory _).bind fun r => by
      cases r with
      | error winner => exact Lockstep.pure winner
      | ok object =>
        exact (lockstep_modifyCycleStats _).bind fun _ => (lockstep_note _).bind fun _ =>
          Lockstep.pure object

theorem lockstep_evacuateTo (object dst size : Nat) :
    Lockstep (Twin q b) (evacuateTo object dst size) (evacuateTo object dst size) :=
  (lockstep_onMemory _).bind fun copy => (lockstep_regionOfObject copy).bind fun i =>
    (lockstep_onRegion i _).bind fun _ => (lockstep_onMemory _).bind fun r => by
      cases r with
      | error winner => exact (lockstep_onRegion i _).bind fun _ => Lockstep.pure winner
      | ok copy => exact (lockstep_modifyCycleStats _).bind fun _ => Lockstep.pure copy

theorem lockstep_evacuateObject (object : Nat) :
    Lockstep (Twin q b) (evacuateObject object) (evacuateObject object) :=
  lockstep_getMemory.bind fun m => by
    cases Object.forwardee? m object with
    | some copy => exact Lockstep.pure copy
    | none =>
      refine (lockstep_onSpace _).bind fun r => ?_
      cases r with
      | none => exact lockstep_selfForward object
      | some dst => exact lockstep_evacuateTo object dst _

theorem lockstep_currentCopy (value : Nat) :
    Lockstep (Twin q b) (currentCopy value) (currentCopy value) :=
  lockstep_getMemory.bind fun m => by
    cases Object.forwardee? m value with
    | some copy => exact Lockstep.pure copy
    | none =>
      refine (lockstep_regionOfObject value).bind fun i => (lockstep_getRegion i).bind fun r =>
        Lockstep.ite (Lockstep.get fun h k T => ?_) (Lockstep.pure value)
      rw [T.gcState]
      exact Lockstep.ite (lockstep_evacuateObject value) (Lockstep.throw _) T

theorem lockstep_heal (slot : Option Nat) (value resolved : Nat) :
    Lockstep (Twin q b) (heal slot value resolved) (heal slot value resolved) :=
  Lockstep.get fun h k T => by
    rw [T.core]
    refine Lockstep.ite ?_ (Lockstep.pure ()) T
    cases slot with
    | none => exact Lockstep.pure ()
    | some a =>
      refine (lockstep_onMemory _).bind fun r => ?_
      cases r with
      | error _ => exact Lockstep.pure ()
      | ok _ => exact lockstep_modifyBarrierStats _ _

/-- **The load barrier** does not look at records. -/
theorem lockstep_loadBarrier (slot : Option Nat) (value : Nat) :
    Lockstep (Twin q b) (loadBarrier slot value) (loadBarrier slot value) :=
  Lockstep.get fun h k T => by
    rw [T.gcState]
    exact Lockstep.ite (Lockstep.pure value) ((lockstep_modifyBarrierStats _ _).bind fun _ =>
      (lockstep_currentCopy value).bind fun resolved => (lockstep_heal slot value resolved).bind
        fun _ => Lockstep.pure resolved) T

/-- **The pre-write barriers** record the same, each in its own buffer. -/
theorem lockstep_writePre (slot : Nat) :
    Lockstep (Twin q b) (writePre b slot) (writePre SatbQueues.shared slot) :=
  Lockstep.get fun h k T => by
    rw [T.gcState]
    exact Lockstep.ite ((lockstep_loadSlot slot).bind fun old => Lockstep.ite
      ((lockstep_modifyBarrierStats _ _).bind fun _ => lockstep_enqueue old) (Lockstep.pure ()))
      (Lockstep.pure ()) T

/-- **The card barrier** does not look at records. -/
theorem lockstep_cardMark (slot : Nat) : Lockstep (Twin q b) (cardMark slot) (cardMark slot) :=
  Lockstep.get fun h k T => by
    rw [T.core, T.space]
    refine Lockstep.ite ?_ (Lockstep.pure ()) T
    cases h.space.indexOf? slot with
    | none => exact Lockstep.pure ()
    | some i => exact (lockstep_modifyBarrierStats _ _).bind fun _ => lockstep_onRegion i _

theorem lockstep_exchangeAgain (slot witness new : Nat) :
    Lockstep (Twin q b) (exchangeAgain slot witness new) (exchangeAgain slot witness new) :=
  (lockstep_modifyBarrierStats _ _).bind fun _ => (lockstep_onMemory _).bind fun r => by
    cases r with
    | ok _ => exact Lockstep.pure _
    | error _ => exact Lockstep.pure _

theorem lockstep_exchangeCopies (slot expected new : Nat) :
    Lockstep (Twin q b) (exchangeCopies slot expected new) (exchangeCopies slot expected new) :=
  (lockstep_onMemory _).bind fun r => by
    cases r with
    | ok _ => exact Lockstep.pure _
    | error witness =>
      refine Lockstep.get fun h k T => ?_
      rw [T.gcState]
      exact lockstep_getMemory.bind (fun m => Lockstep.ite
        (lockstep_exchangeAgain slot witness new) (Lockstep.pure _)) T

/-- **The compare-and-swaps** have one outcome. -/
theorem lockstep_exchange (slot expected new : Nat) :
    Lockstep (Twin q b) (exchange b slot expected new)
      (exchange SatbQueues.shared slot expected new) :=
  (lockstep_writePre slot).bind fun _ => (lockstep_exchangeCopies slot expected new).bind fun out =>
    Lockstep.ite ((lockstep_cardMark slot).bind fun _ => Lockstep.pure out) (Lockstep.pure out)

theorem lockstep_copyPre (range : SlotRange) :
    Lockstep (Twin q b) (copyPre b range) (copyPre SatbQueues.shared range) :=
  Lockstep.get fun h k T => by
    rw [T.gcState]
    exact Lockstep.ite (Lockstep.upTo (fun i => (Lockstep.lift (range.slot i)).bind
      lockstep_writePre) 0 range.length) (Lockstep.pure ()) T

end

end RegionHeap

end ManagedHeap
