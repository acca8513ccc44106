/-
# A heap that never collects stays within its reservation

The space of a `BumpHeap` is the committed part of its reservation: its limit moves when memory is
committed, and only then.  `BumpHeap.Fit` says so.  Whatever is called on such a heap keeps it, with
whatever references: the heap has no barriers, and nothing but an allocation moves a bound.

* Section 1: the bounds, and what an allocation does to them.
* Section 2: calls in any order.
-/
import ManagedHeap.Proofs.Mutators
import ManagedHeap.Proofs.Opening

namespace ManagedHeap

/-! ## 1. The bounds of the space -/

/-- Committing memory moves one bound, and no further than to the end of the reservation. -/
theorem Reservation.leaves_expand {r : Reservation} {bytes : Nat} :
    Leaves (expand bytes) r (fun x r' => (∀ e, x = .error e → r' = r) ∧
      (x = .ok () → r' = { r with high := r.high + bytes } ∧ r'.high ≤ r'.boundary)) (· = r) := by
  refine leaves_get_bind (leaves_lift_bind (fun _ _ => ?_) fun _ _ => rfl)
  refine leaves_lift_bind (fun left hleft => ?_) fun _ _ => rfl
  refine leaves_ite (fun _ => leaves_pure ⟨fun _ _ => rfl, by simp⟩) fun hroom => ?_
  refine leaves_set_bind (leaves_pure ⟨by simp, fun _ => ⟨rfl, ?_⟩⟩)
  obtain ⟨hle, rfl⟩ := distance_eq_ok.1 hleft
  show r.high + bytes ≤ r.boundary
  omega

namespace BumpSpace

/-- The top may move up, within the space. -/
structure Fills (s s' : BumpSpace) : Prop where
  bottom : s'.bottom = s.bottom
  limit : s'.limit = s.limit
  top_le : s.top ≤ s'.top
  inside : s.top ≤ s.limit → s'.top ≤ s.limit

theorem keeps_allocate {n : Nat} : Keeps Fills (allocate n) := by
  intro s
  simp only [allocate, after_bind, after_get, after_lift, after_ite, after_pure, after_set,
    distance_eq_ok]
  intro _ _ room hroom
  refine ⟨fun _ => ⟨rfl, rfl, Nat.le_refl _, id⟩, fun hn => ⟨rfl, rfl, Nat.le_add_right _ _, ?_⟩⟩
  intro _
  show s.top + n ≤ s.limit
  omega

end BumpSpace

namespace BumpHeap

/-- The space is what is committed of the reservation. -/
structure Fit (h : BumpHeap) : Prop where
  bottom_eq : h.space.bottom = h.range.low
  bottom_le : h.space.bottom ≤ h.space.top
  top_le : h.space.top ≤ h.space.limit
  limit_eq : h.space.limit = h.range.high
  high_le : h.range.high ≤ h.range.boundary

/-- The settings of a heap: its reservation, the largest buffer, and the options. -/
def settings (h : BumpHeap) : Nat × Nat × Nat × Options :=
  (h.range.low, h.range.boundary, h.maxTlab, h.core.options)

/-- If the space was what is committed, it is so again; and the settings are as they were. -/
structure StaysFit (h h' : BumpHeap) : Prop where
  fit : h.Fit → h'.Fit
  settings : h'.settings = h.settings

instance : IsPreorder BumpHeap StaysFit where
  refl _ := ⟨id, rfl⟩
  trans _ _ _ S S' := ⟨S'.fit ∘ S.fit, S'.settings.trans S.settings⟩

variable {h h' : BumpHeap} {n bytes : Nat} {cause : Cause} {e : Event} {z : TlabSizing}

/-- The bounds are not in the core. -/
theorem Fit.of_core {c : HeapCore} (F : h.Fit) (hc : h' = { h with core := c }) : h'.Fit :=
  hc ▸ { F with }

theorem Fit.used_le (F : h.Fit) : h.used ≤ h.capacity := by
  have h1 := F.bottom_eq
  have h2 := F.limit_eq
  have h3 := F.top_le
  show h.space.top - h.space.bottom ≤ h.range.high - h.range.low
  omega

theorem Fit.capacity_le (F : h.Fit) : h.capacity ≤ h.maxCapacity :=
  Nat.sub_le_sub_right F.high_le _

theorem Fit.verify_eq (F : h.Fit) : h.verify = .ok () := by
  have h1 := F.used_le
  have h2 := F.capacity_le
  rw [verify, defect?, if_neg (by omega), if_neg (not_not.2 F.limit_eq)]

theorem keeps_allocateSpace : Keeps StaysFit (onSpace (BumpSpace.allocate n)) :=
  BumpSpace.keeps_allocate.onPart fun _ _ hs =>
    { fit := fun F =>
        { bottom_eq := hs.bottom.trans F.bottom_eq
          bottom_le := hs.bottom ▸ Nat.le_trans F.bottom_le hs.top_le
          top_le := hs.limit ▸ hs.inside F.top_le
          limit_eq := hs.limit.trans F.limit_eq
          high_le := F.high_le }
      settings := rfl }

/-- **The heap grows** by moving both bounds, first that of what is committed. -/
theorem keeps_grow : Keeps StaysFit (grow bytes) := by
  intro h
  rw [grow, after_bind, after_onPart]
  refine Reservation.leaves_expand.after.mono fun x r hx => ?_
  cases x with
  | error e =>
    obtain rfl := hx.1 e rfl
    exact after_bind.2 (after_modify.2 (after_pure.2 ⟨fun F => { F with }, rfl⟩))
  | ok u =>
    obtain ⟨hr, hle⟩ := hx.2 rfl
    simp only [onSpace, BumpSpace.setLimit, note, after_bind, after_onPart, after_get, after_lift,
      after_set, after_modify, require_eq_ok]
    intro _ hlimit
    subst hr
    refine after_pure.2 ⟨fun F => ?_, rfl⟩
    exact
      { bottom_eq := F.bottom_eq
        bottom_le := F.bottom_le
        top_le := Nat.le_trans F.top_le hlimit
        limit_eq := rfl
        high_le := hle }

/-- A relation of heaps that differ in nothing but the core, or by an allocation or a request for a
collection. -/
structure Serves (R : BumpHeap → BumpHeap → Prop) : Prop where
  core : ∀ h c, c.options = h.core.options → c.usage = h.core.usage → R h { h with core := c }
  allocateBytes : ∀ n, Keeps R (BumpHeap.allocateBytes n)
  collect : ∀ cause, Keeps R (BumpHeap.collect cause)

namespace Serves

variable {R : BumpHeap → BumpHeap → Prop} (S : Serves R) [IsPreorder BumpHeap R]

include S

theorem keeps_allocate : Keeps R (allocate n) := keeps_lift.bind fun _ => S.allocateBytes n

theorem keeps_allocateTlab : Keeps R (allocateTlab z n) := by
  refine keeps_get.bind fun h => keeps_lift.bind fun x => ?_
  obtain ⟨sizing, size⟩ := x
  cases size with
  | none => exact keeps_pure
  | some size =>
    refine (S.allocateBytes size).bind fun r => ?_
    cases r with
    | none => exact keeps_pure
    | some start => exact keeps_pure

/-- **What the heap is asked for** comes down to these. -/
theorem sustains : Heap.Sustains BumpHeap R where
  memory h _ := S.core h _ rfl rfl
  roots h _ _ := S.core h _ rfl rfl
  mutators h _ := S.core h _ rfl rfl
  safepoint h _ := refl_of R h
  journal h _ := S.core h _ rfl rfl
  clock h _ := S.core h _ rfl rfl
  allocate _ := S.keeps_allocate
  allocateTlab _ _ := S.keeps_allocateTlab
  retireTlab _ := keeps_pure
  postAlloc _ := keeps_pure
  registerBuffer := keeps_pure
  dropBuffer _ := keeps_pure
  flush _ := keeps_pure
  writePre _ _ := keeps_pure
  writePost _ := keeps_pure
  load _ _ := keeps_pure
  exchange _ slot expected new := by
    have hswap : Keeps R (exchangeSlot slot expected new) := keeps_onPart fun h _ => S.core h _ rfl rfl
    refine hswap.bind fun r => ?_
    cases r with
    | ok u => exact keeps_pure
    | error w => exact keeps_pure
  copyPre _ _ := keeps_pure
  copyPost _ := keeps_pure
  clonePre _ := keeps_pure
  collect := S.collect
  idle := keeps_pure
  verify := keeps_get.bind fun _ => keeps_pure

end Serves

/-- A relation of heaps that differ in nothing but the core and the counters, or by an allocation or
a growth. -/
structure Steady (R : BumpHeap → BumpHeap → Prop) : Prop where
  core : ∀ h c, c.options = h.core.options → R h { h with core := c }
  countedAt : ∀ h n, R h { h with countedAt := n }
  printedAt : ∀ h n, R h { h with printedAt := n }
  allocateSpace : ∀ n, Keeps R (onSpace (BumpSpace.allocate n))
  grow : ∀ bytes, Keeps R (BumpHeap.grow bytes)

namespace Steady

variable {R : BumpHeap → BumpHeap → Prop} (S : Steady R)

include S

theorem keeps_note : Keeps R (note e) := keeps_modify fun _ => S.core _ _ rfl

theorem keeps_updateUsage : Keeps R updateUsage := keeps_modify fun _ => S.core _ _ rfl

variable [IsPreorder BumpHeap R]

theorem keeps_allocateRounds {rounds : Nat} : Keeps R (allocateRounds n rounds) := by
  induction rounds with
  | zero => exact keeps_throw
  | succ rounds ih =>
    refine (S.allocateSpace n).bind fun r => ?_
    cases r with
    | some a => exact keeps_pure
    | none =>
      refine keeps_get.bind fun h => ?_
      cases h.growth? n with
      | none => exact S.keeps_note.bind fun _ => keeps_pure
      | some bytes => exact (S.grow bytes).bind fun _ => Keeps.ite ih keeps_pure

theorem keeps_refreshCounters : Keeps R refreshCounters := by
  refine keeps_get_bind fun h => ?_
  rw [after_ite]
  refine ⟨fun _ => ?_, fun _ => keeps_pure h⟩
  rw [after_bind, after_set]
  exact (S.keeps_updateUsage _).mono fun _ h' hr => trans_of R (S.countedAt h _) hr

theorem keeps_reportOccupancy : Keeps R reportOccupancy := by
  refine keeps_get_bind fun h => ?_
  rw [after_ite]
  refine ⟨fun _ => ?_, fun _ => keeps_pure h⟩
  rw [after_bind, after_set]
  exact (S.keeps_note _).mono fun _ h' hr => trans_of R (S.printedAt h _) hr

theorem keeps_allocateBytes : Keeps R (allocateBytes n) := by
  refine keeps_get.bind fun h => Keeps.ite (S.keeps_note.bind fun _ => keeps_pure) ?_
  refine S.keeps_allocateRounds.bind fun r => ?_
  cases r with
  | none => exact keeps_pure
  | some a =>
    exact S.keeps_refreshCounters.bind fun _ => S.keeps_reportOccupancy.bind fun _ => keeps_pure

theorem keeps_collect : Keeps R (collect cause) :=
  S.keeps_note.bind fun _ => S.keeps_updateUsage

theorem serves : Serves R where
  core h c ho _ := S.core h c ho
  allocateBytes _ := S.keeps_allocateBytes
  collect _ := S.keeps_collect

theorem keeps_allocate : Keeps R (allocate n) := S.serves.keeps_allocate

theorem keeps_allocateTlab : Keeps R (allocateTlab z n) := S.serves.keeps_allocateTlab

theorem sustains : Heap.Sustains BumpHeap R := S.serves.sustains

end Steady

theorem steady_fit : Steady StaysFit where
  core h c ho := ⟨fun F => { F with }, by simp only [settings, ho]⟩
  countedAt _ _ := ⟨fun F => { F with }, rfl⟩
  printedAt _ _ := ⟨fun F => { F with }, rfl⟩
  allocateSpace _ := keeps_allocateSpace
  grow _ := keeps_grow

theorem keeps_note : Keeps StaysFit (note e) := steady_fit.keeps_note

theorem keeps_allocate : Keeps StaysFit (allocate n) := steady_fit.keeps_allocate

theorem keeps_allocateTlab : Keeps StaysFit (allocateTlab z n) := steady_fit.keeps_allocateTlab

/-- **What the heap is asked for keeps its space within what is committed.** -/
theorem sustains_fit : Heap.Sustains BumpHeap StaysFit := steady_fit.sustains

end BumpHeap

/-! ## 2. Calls in any order -/

/-- What is called on a heap that never collects. -/
inductive BumpCall where
  /-- An operation of a mutator, on any addresses. -/
  | operation (op : Operation)
  /-- An allocation outside of buffers. -/
  | allocate (size : Nat)
  /-- An allocation of a buffer. -/
  | allocateTlab (sizing : TlabSizing) (minSize : Nat)
  | collect (cause : Cause)
  /-- An allocation by a mutator that asks for a collection when there is no room. -/
  | allocateOrCollect (m size : Nat)
  deriving DecidableEq, Repr

namespace BumpCall

/-- Make a call. -/
def run : BumpCall → Action BumpHeap Answer
  | operation op => op.run id
  | allocate size => do return .memory (← Heap.allocate size)
  | allocateTlab sizing minSize => do
    let (_, tlab) ← Heap.allocateTlab sizing minSize
    return .memory (tlab.map Prod.fst)
  | collect cause => do
    Heap.collect cause
    return .done
  | allocateOrCollect m size => do return .memory (← Mutator.allocateOrCollect m size)

/-- **No call moves the space out of what is committed.** -/
theorem keeps_run (c : BumpCall) : Keeps BumpHeap.StaysFit c.run := by
  cases c with
  | operation op => exact BumpHeap.sustains_fit.keeps_run op
  | allocate size => exact Keeps.bind BumpHeap.keeps_allocate fun _ => keeps_pure
  | allocateTlab z n => exact Keeps.bind BumpHeap.keeps_allocateTlab fun _ => keeps_pure
  | collect cause => exact Keeps.bind BumpHeap.steady_fit.keeps_collect fun _ => keeps_pure
  | allocateOrCollect m n =>
    exact BumpHeap.sustains_fit.keeps_allocateOrCollect.bind fun _ => keeps_pure

end BumpCall

namespace BumpCall

/-- Whether options are accepted, and calls come to their end on the heap that they give. -/
def runs (place : Place) (o : Options) (cs : List BumpCall) : Bool :=
  match AnyHeap.build place o with
  | .ok (.ok (.bump h)) =>
    match Action.runAll run cs h with
    | .ok _ _ => true
    | .error _ _ => false
  | _ => false

theorem runs_iff {place : Place} {o : Options} {cs : List BumpCall} :
    runs place o cs = true ↔ ∃ h as h', AnyHeap.build place o = .ok (.ok (.bump h)) ∧
      Action.runAll run cs h = .ok as h' := by
  unfold runs
  constructor
  · intro hp
    split at hp
    · rename_i h hb
      split at hp
      · rename_i as h' hr
        exact ⟨h, as, h', hb, hr⟩
      · cases hp
    · cases hp
  · rintro ⟨h, as, h', hb, hr⟩
    simp only [hb, hr]

end BumpCall

/-- A heap of four pages, one of which is committed at first. -/
def growingHeap : Options where
  collector := .epsilon
  initialHeapSize := 4096
  maxHeapSize := 16384
  minTlabSize := 512
  maxTlabSize := 1024
  minHeapExpand := 4096
  printHeapSteps := 2

/-- The first page is filled, the heap grows, and in the end it is full. -/
def growing : List BumpCall := [
  .operation .create, .operation (.alloc 0 1 16), .allocate 4096, .allocateTlab {} 64,
  .allocateOrCollect 0 3000, .collect .userRequested, .allocateOrCollect 0 12288]

/-- A run keeps what its commands keep. -/
theorem keeps_runAll {σ α γ : Type} {R : σ → σ → Prop} [IsPreorder σ R] {step : γ → Action σ α}
    (h : ∀ c, Keeps R (step c)) (cs : List γ) : Keeps R (Action.runAll step cs) := by
  induction cs with
  | nil => exact keeps_pure
  | cons c rest ih => exact (h c).bind fun _ => ih.bind fun _ => keeps_pure

/-- A run of commands that are permitted keeps an invariant that each of them keeps. -/
theorem after_runAll_inv {σ α γ : Type} {step : γ → Action σ α} {allows : σ → γ → Prop} {R : σ → Prop}
    (hstep : ∀ s c, R s → allows s c → After (step c) s fun _ s' => R s') {s : σ} (hR : R s)
    {cs : List γ} (hp : Permitted step allows cs s) :
    After (Action.runAll step cs) s fun _ s' => R s' := by
  induction cs generalizing s with
  | nil => exact after_pure.2 hR
  | cons c rest ih =>
    intro as s' hrun
    obtain ⟨a, s₁, bs, hc, hrest, -⟩ := runAll_cons_eq_ok.1 hrun
    obtain ⟨ha, hp'⟩ := hp
    rw [hc] at hp'
    exact ih (hstep s c hR ha a s₁ hc) hp' bs s' hrest

namespace BumpHeap

variable {place : Place} {o : Options} {h : BumpHeap}

/-- What is known of a heap that was just made. -/
structure Fresh (h : BumpHeap) (o : Options) : Prop where
  granted : h.range.Granted (alignUp o.maxHeapSize pageBytes) (alignUp o.initialHeapSize pageBytes)
    pageBytes
  space : h.space = ⟨"epsilon", h.range.low, h.range.low, h.range.high⟩
  maxTlab : h.maxTlab = alignDown o.maxTlabSize objectAlignment
  options : h.core.options = o
  memory : h.core.memory = {}
  mutators : h.core.mutators = #[]
  usage : h.core.usage.used = 0 ∧ h.core.usage.committed = h.capacity ∧
    h.core.usage.most = h.maxCapacity
  countedAt : h.countedAt = 0
  counterStep : h.counterStep = o.updateCountersStep

theorem fresh_of_make (hm : BumpHeap.make place o = .ok (.ok h)) : h.Fresh o := by
  obtain ⟨x, -, hm⟩ := Except.bind_eq_ok.1 hm
  cases x with
  | error e => cases hm
  | ok u =>
    obtain ⟨y, hy, hm⟩ := Except.bind_eq_ok.1 hm
    cases y with
    | error e => cases hm
    | ok range =>
      obtain ⟨space, hspace, hm⟩ := Except.bind_eq_ok.1 hm
      obtain ⟨_, -, hs⟩ := Except.bind_eq_ok.1 hspace
      cases hs
      cases hm
      exact ⟨Reservation.granted_of_make hy, rfl, rfl, rfl, rfl, rfl, ⟨rfl, rfl, rfl⟩, rfl, rfl⟩

theorem Fresh.fit (F : h.Fresh o) : h.Fit where
  bottom_eq := congrArg BumpSpace.bottom F.space
  bottom_le := by rw [F.space]
  top_le := by
    rw [F.space, F.granted.high_eq]
    exact Nat.le_add_right _ _
  limit_eq := congrArg BumpSpace.limit F.space
  high_le := by
    rw [F.granted.high_eq, F.granted.boundary_eq]
    exact Nat.add_le_add_left F.granted.committed_le _

/-- A heap that never collects is made by `BumpHeap.make`. -/
theorem make_of_anyHeap {c : Collector} (hm : AnyHeap.make place c o = .ok (.ok (.bump h))) :
    BumpHeap.make place o = .ok (.ok h) := by
  cases c with
  | epsilon =>
    obtain ⟨x, hx, hm⟩ := Except.bind_eq_ok.1 hm
    cases x with
    | error e => cases hm
    | ok h' =>
      cases hm
      exact hx
  | shenandoah =>
    obtain ⟨x, -, hm⟩ := Except.bind_eq_ok.1 hm
    cases x <;> cases hm

/-- To build a heap that never collects is to make it; it has no controller. -/
theorem make_of_build (hb : AnyHeap.build place o = .ok (.ok (.bump h))) :
    BumpHeap.make place o = .ok (.ok h) := by
  obtain ⟨x, hx, hb⟩ := Except.bind_eq_ok.1 hb
  cases x with
  | error e => cases hb
  | ok g =>
    obtain ⟨y, hy, hb⟩ := Except.bind_eq_ok.1 hb
    cases hb
    cases g with
    | bump g =>
      cases hy
      exact make_of_anyHeap hx
    | region g =>
      obtain ⟨u, g', hg, -⟩ := RegionHeap.ends_startController (h := g)
      simp only [AnyHeap.startController, hg] at hy
      cases hy

theorem fresh_of_build (hb : AnyHeap.build place o = .ok (.ok (.bump h))) : h.Fresh o :=
  fresh_of_make (make_of_build hb)

/-- A heap that was built has what was committed for its space. -/
theorem fit_of_build (hb : AnyHeap.build place o = .ok (.ok (.bump h))) : h.Fit :=
  (fresh_of_build hb).fit

end BumpHeap

end ManagedHeap
