/-
# Counters that lag behind

The counters of a heap that never collects are refreshed from time to time only: after an allocation,
if a step of bytes was allocated since the last time; and when a collection is asked for.  The first is
decided against a mark, which a request for a collection does not move.  So the counters may be ahead of
the mark.  But they are never ahead of what is in use, and what is in use is never a step ahead of the
mark (`Lags`); therefore the counters lag behind by less than a step.

An allocation may grow the heap, and may stop with a fault in the midst of that.  Until it has found
memory it changes nothing that the counters are compared with, and after that it cannot stop.  So a
program that catches the fault and goes on finds the same bounds (`counters_lag`).

* Section 1: the bounds.
* Section 2: allocations.
* Section 3: requests for a collection.
* Section 4: runs.
-/
import ManagedHeap.Proofs.Refills

namespace ManagedHeap.BumpHeap

variable {h h₁ h' : BumpHeap} {n bytes rounds : Nat} {z : TlabSizing} {cause : Cause}

/-! ## 1. The bounds -/

/-- **The counters lag behind.**  They are between the mark and what is in use, which is less than a step
ahead of the mark; and they are those of a heap that was within its bounds. -/
structure Lags (h : BumpHeap) : Prop extends h.Fit where
  counted : h.countedAt ≤ h.core.usage.used
  used_le : h.core.usage.used ≤ h.used
  lag : h.used < h.countedAt + h.counterStep
  committed_le : h.core.usage.used ≤ h.core.usage.committed
  most_le : h.core.usage.committed ≤ h.core.usage.most

/-- If the counters lagged behind by less than a step, they do so again, and the step is the same. -/
structure LagsOn (h h' : BumpHeap) : Prop where
  lags : h.Lags → h'.Lags
  counterStep : h'.counterStep = h.counterStep

instance : IsPreorder BumpHeap LagsOn where
  refl _ := ⟨id, rfl⟩
  trans _ _ _ L L' := ⟨L'.lags ∘ L.lags, L'.counterStep.trans L.counterStep⟩

/-- Nothing is refreshed.  More memory may be in use. -/
structure Carries (h h' : BumpHeap) : Prop extends StaysFit h h' where
  usage : h'.core.usage = h.core.usage
  countedAt : h'.countedAt = h.countedAt
  counterStep : h'.counterStep = h.counterStep
  used_le : h.used ≤ h'.used

instance : IsPreorder BumpHeap Carries where
  refl h := { refl_of StaysFit h with
    usage := rfl, countedAt := rfl, counterStep := rfl, used_le := Nat.le_refl _ }
  trans _ _ _ C C' :=
    { trans_of StaysFit C.toStaysFit C'.toStaysFit with
      usage := C'.usage.trans C.usage
      countedAt := C'.countedAt.trans C.countedAt
      counterStep := C'.counterStep.trans C.counterStep
      used_le := Nat.le_trans C.used_le C'.used_le }

/-- Nothing is refreshed, and no memory is handed out. -/
structure Idles (h h' : BumpHeap) : Prop extends Carries h h' where
  used_ge : h'.used ≤ h.used

instance : IsPreorder BumpHeap Idles where
  refl h := { refl_of Carries h with used_ge := Nat.le_refl _ }
  trans _ _ _ I I' :=
    { trans_of Carries I.toCarries I'.toCarries with used_ge := Nat.le_trans I'.used_ge I.used_ge }

/-- What is carried on still lags behind, as long as the mark is not a step away. -/
theorem Carries.lags (C : Carries h h') (L : h.Lags) (hlag : h'.used < h.countedAt + h.counterStep) :
    h'.Lags :=
  { C.fit L.toFit with
    counted := by
      rw [C.usage, C.countedAt]
      exact L.counted
    used_le := by
      rw [C.usage]
      exact Nat.le_trans L.used_le C.used_le
    lag := by
      rw [C.countedAt, C.counterStep]
      exact hlag
    committed_le := C.usage ▸ L.committed_le
    most_le := C.usage ▸ L.most_le }

theorem Idles.lagsOn (I : Idles h h') : LagsOn h h' :=
  ⟨fun L => I.lags L (Nat.lt_of_le_of_lt I.used_ge L.lag), I.counterStep⟩

theorem Idles.of_core {c : HeapCore} (ho : c.options = h.core.options)
    (hu : c.usage = h.core.usage) : Idles h { h with core := c } where
  toStaysFit := steady_fit.core h c ho
  usage := hu
  countedAt := rfl
  counterStep := rfl
  used_le := Nat.le_refl _
  used_ge := Nat.le_refl _

/-- Counters that were just refreshed lag behind by nothing. -/
theorem Fit.lags_refreshed (F : h.Fit) (hcounted : h.countedAt ≤ h.used)
    (hlag : h.used < h.countedAt + h.counterStep) :
    ({ h with core := { h.core with
      usage := h.core.usage.update h.used h.capacity h.maxCapacity } } : BumpHeap).Lags :=
  { F with
    counted := hcounted
    used_le := Nat.le_refl _
    lag := hlag
    committed_le := F.used_le
    most_le := F.capacity_le }

/-! ## 2. Allocations -/

/-- A report changes nothing that the counters are compared with. -/
theorem leaves_note {e : Event} {bad : BumpHeap → Prop} : Leaves (note e) h (fun _ => Idles h) bad :=
  leaves_modify (.of_core rfl rfl)

/-- An attempt hands out memory of the space, or nothing. -/
theorem leaves_allocateSpace : Leaves (onSpace (BumpSpace.allocate n)) h
    (fun r h' => Carries h h' ∧ (r = none → Idles h h')) (Idles h) := by
  have hrefl : Idles h { h with space := h.space } := refl_of Idles h
  refine leaves_onPart (leaves_get_bind (leaves_lift_bind (fun _ _ => ?_) fun _ _ => hrefl))
  refine leaves_lift_bind (fun room hroom => ?_) fun _ _ => hrefl
  refine leaves_ite (fun _ => leaves_pure ⟨hrefl.toCarries, fun _ => hrefl⟩) fun hfits => ?_
  refine leaves_set_bind (leaves_pure ⟨?_, by simp⟩)
  obtain ⟨hle, rfl⟩ := distance_eq_ok.1 hroom
  exact
    { fit := fun F => { F with
        bottom_le := Nat.le_trans F.bottom_le (Nat.le_add_right _ _)
        top_le := by
          show h.space.top + n ≤ h.space.limit
          omega }
      settings := rfl, usage := rfl, countedAt := rfl, counterStep := rfl
      used_le := Nat.sub_le_sub_right (Nat.le_add_right _ _) _ }

/-- The end of a space moves up, or the space is left as it is. -/
theorem leaves_setLimit {s : BumpSpace} {limit : Nat} : Leaves (BumpSpace.setLimit limit) s
    (fun _ s' => s.limit ≤ limit ∧ s' = { s with limit }) fun s' => ¬ s.limit ≤ limit ∧ s' = s := by
  refine leaves_get_bind (leaves_lift_bind (fun _ hr => ?_) fun e he => ⟨fun hle => ?_, rfl⟩)
  · exact leaves_set ⟨require_eq_ok.1 hr, rfl⟩
  · rw [require, if_pos hle] at he
    cases he

/-- **To grow** is to move the end of what is committed, and then that of the space.  The second cannot
stop, for the space ended where what is committed did. -/
theorem leaves_grow : Leaves (grow bytes) h (fun _ => Idles h) (Idles h) := by
  refine leaves_onPart_bind Reservation.leaves_expand (fun x r hx => ?_) ?_
  · cases x with
    | error e =>
      obtain rfl := hx.1 e rfl
      exact leaves_note.bind fun _ _ I => leaves_pure I
    | ok u =>
      obtain ⟨rfl, hle⟩ := hx.2 rfl
      refine leaves_get_bind (leaves_onPart_bind leaves_setLimit ?_ ?_)
      · rintro _ _ ⟨hlimit, rfl⟩
        refine leaves_note.bind fun _ h' I => leaves_pure (trans_of Idles ?_ I)
        exact
          { fit := fun F => { F with
              top_le := Nat.le_trans F.top_le hlimit
              limit_eq := rfl
              high_le := hle }
            settings := rfl, usage := rfl, countedAt := rfl, counterStep := rfl
            used_le := Nat.le_refl _, used_ge := Nat.le_refl _ }
      · rintro _ ⟨hlimit, rfl⟩
        exact
          { fit := fun F => absurd (F.limit_eq ▸ Nat.le_add_right _ _) hlimit
            settings := rfl, usage := rfl, countedAt := rfl, counterStep := rfl
            used_le := Nat.le_refl _, used_ge := Nat.le_refl _ }
  · rintro _ rfl
    exact refl_of Idles h

/-- **Attempts refresh nothing.**  Those that come to no memory are idle, and so are those that stop. -/
theorem leaves_allocateRounds : Leaves (allocateRounds n rounds) h
    (fun r h' => Carries h h' ∧ (r = none → Idles h h')) (Idles h) := by
  induction rounds generalizing h with
  | zero => exact leaves_throw (refl_of Idles h)
  | succ rounds ih =>
    refine leaves_allocateSpace.bind fun r h₁ hr => ?_
    obtain ⟨C, hnone⟩ := hr
    cases r with
    | some a => exact leaves_pure ⟨C, by simp⟩
    | none =>
      have I := hnone rfl
      refine leaves_get_bind ?_
      cases h₁.growth? n with
      | none =>
        refine leaves_note.bind fun _ h₂ I' => leaves_pure ?_
        have I₂ := trans_of Idles I I'
        exact ⟨I₂.toCarries, fun _ => I₂⟩
      | some bytes =>
        have hgrow : Leaves (grow bytes) h₁ (fun _ => Idles h) (Idles h) :=
          leaves_grow.mono (fun _ _ I' => trans_of Idles I I') fun _ I' => trans_of Idles I I'
        refine hgrow.bind fun b h₂ I₂ => leaves_ite (fun _ => ?_) fun _ => ?_
        · refine ih.mono (fun r h₃ hr => ?_) fun h₃ I' => trans_of Idles I₂ I'
          exact ⟨trans_of Carries I₂.toCarries hr.1, fun hn => trans_of Idles I₂ (hr.2 hn)⟩
        · exact leaves_pure ⟨I₂.toCarries, fun _ => I₂⟩

/-- **The refresh after an allocation** brings the lag below a step again. -/
theorem Carries.leaves_refreshCounters {bad : BumpHeap → Prop} (C : Carries h h₁) :
    Leaves refreshCounters h₁ (fun _ => LagsOn h) bad := by
  have hcounted (L : h.Lags) : h₁.countedAt ≤ h₁.used := by
    rw [C.countedAt]
    exact Nat.le_trans L.counted (Nat.le_trans L.used_le C.used_le)
  refine leaves_get_bind (leaves_ite (fun _ => ?_) fun hlt => ?_)
  · refine leaves_set_bind (leaves_modify ⟨fun L => ?_, C.counterStep⟩)
    have hpos : 0 < h.counterStep := by
      have h1 := L.counted
      have h2 := L.used_le
      have h3 := L.lag
      omega
    have F : ({ h₁ with countedAt := h₁.used } : BumpHeap).Fit := { C.fit L.toFit with }
    exact F.lags_refreshed (Nat.le_refl _) (Nat.lt_add_of_pos_right (C.counterStep ▸ hpos))
  · refine leaves_pure ⟨fun L => C.lags L ?_, C.counterStep⟩
    have h1 := hcounted L
    rw [C.countedAt, C.counterStep] at hlt
    rw [C.countedAt] at h1
    omega

theorem leaves_reportOccupancy {bad : BumpHeap → Prop} :
    Leaves reportOccupancy h (fun _ => LagsOn h) bad := by
  have I : Idles h { h with printedAt := h.used } :=
    { steady_fit.printedAt h h.used with
      usage := rfl, countedAt := rfl, counterStep := rfl
      used_le := Nat.le_refl _, used_ge := Nat.le_refl _ }
  refine leaves_get_bind (leaves_ite (fun _ => ?_) fun _ => leaves_pure (refl_of LagsOn h))
  refine leaves_set_bind (leaves_note.mono (fun _ h₁ I₁ => ?_) fun _ => id)
  exact (trans_of Idles I I₁).lagsOn

/-- **An allocation** lets the counters lag behind by less than a step, however it comes out. -/
theorem leaves_allocateBytes : Leaves (allocateBytes n) h (fun _ => LagsOn h) (LagsOn h) := by
  refine leaves_get_bind (leaves_ite (fun _ => ?_) fun _ => ?_)
  · exact leaves_note.bind fun _ _ I => leaves_pure I.lagsOn
  · refine (leaves_allocateRounds.mono (fun _ _ => id) fun _ I => I.lagsOn).bind fun r h₁ hr => ?_
    cases r with
    | none => exact leaves_pure (hr.2 rfl).lagsOn
    | some a =>
      refine hr.1.leaves_refreshCounters.bind fun _ h₂ L => ?_
      exact leaves_reportOccupancy.bind fun _ h₃ L' => leaves_pure (trans_of LagsOn L L')

theorem leaves_allocate : Leaves (BumpHeap.allocate n) h (fun _ => LagsOn h) (LagsOn h) :=
  leaves_lift_bind (fun _ _ => leaves_allocateBytes) fun _ _ => refl_of LagsOn h

theorem leaves_allocateTlab :
    Leaves (BumpHeap.allocateTlab z n) h (fun _ => LagsOn h) (LagsOn h) := by
  refine leaves_get_bind (leaves_lift_bind (fun x _ => ?_) fun _ _ => refl_of LagsOn h)
  obtain ⟨sizing, size⟩ := x
  cases size with
  | none => exact leaves_pure (refl_of LagsOn h)
  | some size =>
    refine leaves_allocateBytes.bind fun r h₁ L => ?_
    cases r with
    | none => exact leaves_pure L
    | some start => exact leaves_pure L

/-! ## 3. Requests for a collection -/

/-- **A request for a collection** refreshes the counters, and lets the mark where it is. -/
theorem ends_collect : Ends (collect cause) h fun _ h' => LagsOn h h' ∧
    h'.core.usage.used = h'.used ∧ h'.core.usage.committed = h'.capacity ∧
    h'.core.usage.most = h'.maxCapacity := by
  simp only [collect, note, updateUsage, ends_bind, ends_modify]
  refine ⟨⟨fun L => ?_, rfl⟩, rfl, rfl, rfl⟩
  have F : ({ h with core := { h.core with
      journal := h.core.journal.push (.requestIgnored cause) } } : BumpHeap).Fit := L.toFit.of_core rfl
  exact F.lags_refreshed (Nat.le_trans L.counted L.used_le) L.lag

/-- **Whatever the heap is asked for** and ends keeps the lag below a step. -/
theorem serves_lagsOn : Serves LagsOn where
  core _ _ ho hu := (Idles.of_core ho hu).lagsOn
  allocateBytes _ _ := leaves_allocateBytes.after
  collect _ _ := ends_collect.after.mono fun _ _ hc => hc.1

/-! ## 4. Runs -/

/-- The requests that go to the heap itself, and to no mutator. -/
def isDirect : Request → Bool
  | .allocate _ | .allocateTlab _ _ | .collect _ => true
  | _ => false

/-- **What requests lead to.**  After a request to the heap itself that has stopped with a fault, the
program may go on with the heap as that has left it. -/
inductive Reaches (h : BumpHeap) : BumpHeap → Prop where
  | start : Reaches h h
  | served {r : Request} {a : Answer} {g g' : BumpHeap} (hg : Reaches h g) (hr : r.run g = .ok a g') :
    Reaches h g'
  | stopped {r : Request} {f : Fault} {g g' : BumpHeap} (hg : Reaches h g) (hd : isDirect r = true)
    (hr : r.run g = .error f g') : Reaches h g'

/-- **A request to the heap itself** keeps the lag below a step, also if it stops. -/
theorem leaves_run {r : Request} (hd : isDirect r = true) :
    Leaves (r.run : Action BumpHeap Answer) h (fun _ => LagsOn h) (LagsOn h) := by
  cases r with
  | allocate n => exact leaves_allocate.bind fun _ _ L => leaves_pure L
  | allocateTlab z n => exact leaves_allocateTlab.bind fun _ _ L => leaves_pure L
  | collect cause => exact ends_collect.leaves.bind fun _ _ hc => leaves_pure hc.1
  | operation | retireTlab | allocateOrCollect | sleep | verify | leave | join => cases hd

theorem Reaches.run {g : BumpHeap} {rs : List Request} {as : List Answer} (hg : Reaches h g)
    (hr : Action.runAll Request.run rs g = .ok as h') : Reaches h h' := by
  induction rs generalizing g as with
  | nil =>
    cases hr
    exact hg
  | cons r rest ih =>
    obtain ⟨a, g₁, bs, hrun, hrest, -⟩ := runAll_cons_eq_ok.1 hr
    exact ih (hg.served hrun) hrest

/-- **What was reached lags behind** if the beginning did. -/
theorem Reaches.lagsOn (hr : Reaches h h') : LagsOn h h' := by
  induction hr with
  | start => exact refl_of LagsOn h
  | served _ hr ih => exact trans_of LagsOn ih (serves_lagsOn.sustains.keeps_request _ _ _ _ hr)
  | stopped _ hd hr ih => exact trans_of LagsOn ih ((leaves_run hd).stops _ _ hr)

/-- A heap that was made has counters that are up to date. -/
theorem Fresh.lags {o : Options} (F : h.Fresh o) (ho : o.Proper) : h.Lags := by
  have hused : h.used = 0 := by
    rw [used, F.space]
    exact Nat.sub_self _
  obtain ⟨husage, hcommitted, hmost⟩ := F.usage
  exact
    { F.fit with
      counted := by rw [F.countedAt, husage]
      used_le := by rw [husage, hused]
      lag := by
        rw [hused, F.countedAt, F.counterStep, Nat.zero_add]
        exact of_decide_eq_true ho.updateCountersStep.2
      committed_le := by
        rw [husage]
        exact Nat.zero_le _
      most_le := by
        rw [hcommitted, hmost]
        exact F.fit.capacity_le }

/-- **The counters lag behind by less than a step.**  On a heap that never collects, of which each option
passes its own condition, this is so after all requests, and also after those that have stopped with a
fault.  The counters are never ahead of what is in use, and are those of a heap within its bounds.  Right
after a request for a collection they are up to date. -/
theorem counters_lag {place : Place} {o : Options} (ho : o.Proper)
    (hm : BumpHeap.make place o = .ok (.ok h)) (hr : Reaches h h') :
    h'.core.usage.used ≤ h'.used ∧ h'.used - h'.core.usage.used < o.updateCountersStep ∧
    h'.core.usage.used ≤ h'.core.usage.committed ∧ h'.core.usage.committed ≤ h'.core.usage.most ∧
    ∀ cause, Ends (Heap.collect cause) h' fun _ g => g.core.usage.used = g.used ∧
      g.core.usage.committed = g.capacity ∧ g.core.usage.most = g.maxCapacity := by
  have F := fresh_of_make hm
  have L := hr.lagsOn.lags (F.lags ho)
  have hstep : h'.counterStep = o.updateCountersStep := hr.lagsOn.counterStep.trans F.counterStep
  refine ⟨L.used_le, ?_, L.committed_le, L.most_le, fun cause => ends_collect.mono fun _ _ hc => hc.2⟩
  have h1 := L.counted
  have h2 := L.used_le
  have h3 := L.lag
  omega

/-- A heap of four pages, the counters of which are refreshed after every thousand bytes. -/
def countedHeap : Options where
  initialHeapSize := 4096
  maxHeapSize := 16384
  minHeapExpand := 4096
  updateCountersStep := 1000

/-- The counters were refreshed after the third allocation.  The one that stops leaves the lag at what was
allocated since then. -/
theorem counters_lag_countedHeap : ∃ h as g f h', countedHeap.Proper ∧
    BumpHeap.make Place.first countedHeap = .ok (.ok h) ∧
    Action.runAll Request.run [.allocate 504, .collect .userRequested, .allocate 5000, .allocate 600] h =
      .ok as g ∧
    (Request.allocate 7).run g = .error f h' ∧ Reaches h h' ∧
    h'.used - h'.core.usage.used = 600 ∧ h'.used - h'.core.usage.used < 1000 := by
  have ho : countedHeap.Proper := by constructor <;> decide
  obtain ⟨x, h, as, g, hb, hx, hrun, hg⟩ := Mutator.leads_iff.1
    (show Mutator.leads AnyHeap.bump? Request.run Place.first countedHeap
      [.allocate 504, .collect .userRequested, .allocate 5000, .allocate 600]
      (fun g => match (Request.allocate 7).run g with
        | .error _ h' => decide (h'.used - h'.core.usage.used = 600)
        | .ok _ _ => false) = true by decide +kernel)
  cases AnyHeap.bump?_eq_some.1 hx
  split at hg
  · rename_i f h' hstop
    have hm := make_of_build hb
    have hr : Reaches h h' := (Reaches.start.run hrun).stopped rfl hstop
    exact ⟨h, as, g, f, h', ho, hm, hrun, hstop, hr, of_decide_eq_true hg, (counters_lag ho hm hr).2.1⟩
  · cases hg

end ManagedHeap.BumpHeap
