/-
# The load barrier

While a cycle relocates, a reference may be that of an older copy.  The load barrier gives the copy
that the program may use, and makes it if nobody did.

* Section 1: where room for a copy is found, and which regions change for it.
* Section 2: how a copy is come by, and the slot healed.
* Section 3: what the barrier has done when it gave a copy: the copy has the contents of the object, and
  nothing else has changed.
* Section 4: the copies of one object.
* Section 5: the barrier gives one copy for all of them, until the regions are recycled.
-/
import ManagedHeap.Proofs.Canonical
import ManagedHeap.Proofs.Supply

namespace ManagedHeap

/-! ## 1. Room for a copy -/

namespace HeapView

/-- The region that copies are made in has not `n` bytes left. -/
def EvacFull (V : HeapView) (n : Nat) : Prop :=
  ∀ i, V.evacRegion = some i → (V.region i).limit < (V.region i).top + n

/-- `n` bytes at `a` were allocated for a copy, in the region that copies are made in.  It is not the one
from before only if that was full, and then it was empty.  No other region has changed. -/
structure Placed (V : HeapView) (n a : Nat) (V' : HeapView) : Prop
    extends Allocated V n .evacuation (some a) V' where
  current : V'.evacRegion = some (V.index a)
  turn : V.evacRegion = some (V.index a) ∨ V.EvacFull n ∧ (V.regionOf a).state = .empty
  mutatorRegion : V'.mutatorRegion = V.mutatorRegion
  others : ∀ j, j ≠ V.index a → V'.region j = V.region j
  top : (V.regionOf a).top = a
  region : V'.region (V.index a) = { V.regionOf a with
    top := a + n
    state := (V'.region (V.index a)).state
    markLimit := (V'.region (V.index a)).markLimit }

end HeapView

namespace RegionHeap

open HeapView RegionSpace

variable {h : RegionHeap} {s : RegionSpace} {n : Nat}

/-- What regions have reported is not seen. -/
theorem view_putSpace_of_same (S : Same h.space s) : (putSpace s h).view = h.view := by
  have hreg : (fun i => ((putSpace s h).regionAt i).view) = fun i => (h.regionAt i).view :=
    funext fun i => congrArg Region.view (S.region i)
  simp only [view, hreg]
  simp only [putSpace, S.range, S.regionSize, S.committed, S.used, S.mutatorRegion, S.evacRegion]

/-- **Room for a copy** is found, or nothing has changed. -/
theorem ends_allocateCopy (L : h.view.Layout) (hn : 8 ∣ n) (hpos : 0 < n) :
    Ends (allocateIn n .evacuation) h fun r h' => (r = none ∧ h'.view = h.view) ∨
      ∃ a, r = some a ∧ h.view.Placed n a h'.view := by
  refine ((ends_allocateIn L hn fun hk => by cases hk).and
    ((allocateIn_answered (tidy_of_layout L)).ends hn)).mono ?_
  rintro r _ ⟨A, s, An, rfl⟩
  cases r with
  | none => exact .inl ⟨rfl, view_putSpace_of_same (An.same rfl)⟩
  | some a =>
    obtain ⟨i, C⟩ := An.cut a rfl
    have htop : (h.view.region i).top = a := C.top
    have hreg : (putSpace s h).view.region i = { h.view.region i with
        top := a + n
        state := ((putSpace s h).view.region i).state
        markLimit := ((putSpace s h).view.region i).markLimit } := by
      rw [← C.top]
      refine (congrArg Region.view C.region).trans ?_
      rw [C.tlabs (by decide)]
      rfl
    -- The bytes are inside of the region.
    have hidx : h.view.index a = i := by
      have hlimit : a + n ≤ (h.view.region i).limit := by
        have h1 := (A.layout.regions i).top_le
        rw [hreg] at h1
        exact h1
      have hr := L.regions i
      have h1 := hr.bottom_eq
      have h2 := hr.bottom_le
      have h3 := hr.markLimit_le
      have h4 := hr.limit_eq
      exact index_eq (by omega) (by omega)
    refine .inr ⟨a, rfl, { A with
      current := ?_
      turn := ?_
      mutatorRegion := C.mutatorRegion rfl
      others := fun j hj => ?_
      top := ?_
      region := ?_ }⟩
    · rw [hidx]
      exact C.current
    · rw [regionOf, hidx]
      refine C.turn.imp_right (And.imp_left fun hfull j hj => Nat.lt_of_not_le fun hle => ?_)
      exact hfull ⟨j, hj, hle⟩
    · rw [hidx] at hj
      exact congrArg Region.view (C.others j hj)
    · rw [regionOf, hidx]
      exact htop
    · rw [regionOf, hidx]
      exact hreg

end RegionHeap

/-! ## 2. How a copy is come by -/

namespace HeapView

/-- How the copy `r` of the object at `v` is come by. -/
inductive Settling (V : HeapView) (v : Nat) : Nat → HeapView → Prop where
  /-- There is one. -/
  | found {c : Nat} : Object.forwardee? V.memory v = some c → Settling V v c V
  /-- The object is not moved. -/
  | stays : V.memory.read v = 0 → Settling V v v V
  /-- The object finds no room. -/
  | kept : V.memory.read v = 0 → Settling V v v (V.keep v)
  /-- The object is copied. -/
  | copied {V' : HeapView} {m : Memory} {c : Nat} : V.memory.read v = 0 →
      V.Placed (Object.size V.memory v) c V' →
      Copied V'.memory m v c (Object.size V.memory v) → Settling V v c (V'.moveTo m v c)

/-- The view in which a slot that held `v` holds `r`, if slots are healed. -/
def healed (V : HeapView) (slot : Option Nat) (v r : Nat) : HeapView :=
  match slot with
  | none => V
  | some a =>
    if r ≠ v ∧ V.options.selfHealing = true ∧ V.memory.read a = v then
      { V with memory := V.memory.write a r }
    else V

end HeapView

namespace RegionHeap

open HeapView

variable {h : RegionHeap} {v r : Nat} {slot : Option Nat}

theorem ends_heal_eq : Ends (heal slot v r) h fun _ h' => h'.view = h.view.healed slot v r := by
  simp only [heal, ends_bind, ends_get, ends_ite]
  cases slot with
  | none => exact ⟨fun _ => ends_pure.2 rfl, fun _ => ends_pure.2 rfl⟩
  | some a =>
    simp only [ends_bind]
    refine ⟨fun hc => ends_exchangeSlot.2 ⟨fun he => ?_, fun he => ends_pure.2 ?_⟩,
      fun hc => ends_pure.2 ?_⟩
    · simp only [modifyBarrierStats, ends_modify]
      exact (if_pos ⟨hc.1, hc.2, he⟩).symm
    · exact (if_neg fun h => he h.2.2).symm
    · exact (if_neg fun h => hc ⟨h.1, h.2.1⟩).symm

/-- The copy of an object that has none. -/
theorem ends_evacuateObject_settling (L : h.view.Layout) (hp : h.view.Published v)
    (h0 : h.view.memory.read v = 0) :
    Ends (evacuateObject v) h fun r h' => h.view.Settling v r h'.view := by
  have hmem : (HasMemory.memory h : Memory) = h.view.memory := rfl
  simp only [evacuateObject, ends_bind, ends_getMemory, hmem, Object.forwardee?_of_zero h0]
  have hfit := L.objects.fits hp
  refine (ends_allocateCopy L hfit.size_aligned hfit.size_pos).mono ?_
  rintro _ h₁ (⟨rfl, hv₁⟩ | ⟨c, rfl, A⟩)
  · refine (ends_selfForward (hv₁ ▸ L) (hv₁ ▸ hp) (hv₁ ▸ h0)).mono ?_
    rintro _ h₂ ⟨rfl, hv₂, -⟩
    rw [hv₂, hv₁]
    exact .kept h0
  · have hm₁ : h₁.view.memory = h.view.memory := A.grows.memory
    obtain ⟨C, -, -⟩ := A.chunk c rfl hfit.size_pos
    refine (ends_evacuateTo A.layout (A.grows.published.2 hp) (hm₁ ▸ h0) (by rw [hm₁])
      C.toClaim).mono ?_
    rintro _ h₂ ⟨rfl, m, K, hv₂⟩
    rw [hv₂]
    exact .copied h0 A K

theorem after_currentCopy (L : h.view.Layout) (hp : h.view.Published v)
    (h0 : Object.forwardee? h.view.memory v = none → h.view.memory.read v = 0) :
    After (currentCopy v) h fun r h' => h.view.Settling v r h'.view := by
  have hmem : (HasMemory.memory h : Memory) = h.view.memory := rfl
  rw [currentCopy, after_bind, getMemory, after_bind, after_get, after_pure, hmem]
  cases hf : Object.forwardee? h.view.memory v with
  | some c => exact after_pure.2 (.found hf)
  | none =>
    have h0 := h0 hf
    refine keeps_regionOfObject.after fun i h₁ (e₁ : h = h₁) => ?_
    refine keeps_getRegion.after fun r h₂ (e₂ : h₁ = h₂) => ?_
    subst e₁ e₂
    rw [after_ite]
    refine ⟨fun _ => ?_, fun _ => after_pure.2 (.stays h0)⟩
    rw [after_bind, after_get, after_ite]
    exact ⟨fun _ => (ends_evacuateObject_settling L hp h0).after, fun _ => after_throw⟩

/-- **What the load barrier does**: nothing, or it comes by a copy and heals the slot. -/
theorem after_loadBarrier (L : h.view.Layout) (hp : v ≠ null → h.view.Published v)
    (h0 : v ≠ null → Object.forwardee? h.view.memory v = none → h.view.memory.read v = 0) :
    After (loadBarrier slot v) h fun r h' =>
      ((v = null ∨ h.gcState.hasForwarded = false) ∧ r = v ∧ h'.view = h.view) ∨
      (v ≠ null ∧ h.gcState.hasForwarded = true ∧
        ∃ V₁, h.view.Settling v r V₁ ∧ h'.view = V₁.healed slot v r) := by
  rw [loadBarrier, after_bind, after_get, after_ite]
  refine ⟨fun hc => after_pure.2 (.inl ⟨by simpa using hc, rfl, rfl⟩), fun hc => ?_⟩
  simp only [not_or, Bool.not_eq_eq_eq_not, Bool.not_true, Bool.not_eq_false] at hc
  rw [after_bind, modifyBarrierStats, after_modify, after_bind]
  refine (after_currentCopy (h := { h with barrierStats := { h.barrierStats with
    lrbSlowPaths := h.barrierStats.lrbSlowPaths + 1 } }) L (hp hc.1)
    (h0 hc.1)).mono fun r h₁ hs => ?_
  rw [after_bind]
  exact ends_heal_eq.after.mono fun _ h₂ hv => after_pure.2 (.inr ⟨hc.1, hc.2, _, hs, hv⟩)

end RegionHeap

/-! ## 3. What a copy is, and what changes for it -/

/-- In `m'` there is an object at `c` of the shape of the one that `m` has at `o`, and with what that
holds. -/
structure Object.SameContents (m : Memory) (o : Nat) (m' : Memory) (c : Nat) : Prop where
  size : Object.size m' c = Object.size m o
  refCount : Object.refCount m' c = Object.refCount m o
  field : ∀ i, i < Object.refCount m o →
    m'.read (Object.field c i) = m.read (Object.field o i)
  payload : ∀ k, 8 ∣ k → k + 8 ≤ Object.payloadBytes m o →
    m'.read (Object.payloadStart m' c + k) = m.read (Object.payloadStart m o + k)

/-- All words but the status word are the same. -/
theorem Object.SameContents.of_words {m m' : Memory} {o c : Nat} (hfit : Object.Fits m o)
    (h : ∀ k, 1 ≤ k → 8 * k < Object.size m o → m'.read (c + 8 * k) = m.read (o + 8 * k)) :
    Object.SameContents m o m' c := by
  have hle := hfit.fields_le
  have hshape : m'.read (c + 8) = m.read (o + 8) := by
    have := h 1 (by omega) (by omega)
    simpa using this
  have hrefs : Object.refCount m' c = Object.refCount m o := by
    simp only [Object.refCount, wordBytes, hshape]
  refine ⟨by simp only [Object.size, wordBytes, hshape], hrefs, fun i hi => ?_, fun k hk hi => ?_⟩
  · have := h (2 + i) (by omega) (by omega)
    simpa only [Object.field, Nat.mul_add, Nat.reduceMul, Nat.add_assoc] using this
  · simp only [Object.payloadBytes] at hi
    have := h (2 + Object.refCount m o + k / 8) (by omega) (by omega)
    have he (a : Nat) : a + 8 * (2 + Object.refCount m o + k / 8) =
        a + 16 + 8 * Object.refCount m o + k := by omega
    rw [he, he] at this
    rwa [Object.payloadStart_eq, Object.payloadStart_eq, hrefs]

namespace HeapView

/-- The copy `r` of the object at `v` is made now. -/
def Makes (V : HeapView) (v r : Nat) : Prop := Object.forwardee? V.memory v = none ∧ r ≠ v

/-- All that may change when the copy `r` of the object at `v` is come by and `slot` is healed: the
slot, the status word of the object, and the flag that its region is kept; when a copy is made, memory that
was untouched and its region, which is the one that copies are made in, or an empty one if that is
full. -/
structure Confined (V : HeapView) (slot : Option Nat) (v r : Nat) (V' : HeapView) : Prop where
  memory : ∀ b, V'.memory.read b ≠ V.memory.read b → b = v ∨ slot = some b ∨
    (V.Makes v r ∧ V.Untouched b ∧ r ≤ b ∧ b < r + Object.size V.memory v)
  published : ∀ o, V'.Published o ↔ V.Published o ∨ (V.Makes v r ∧ o = r)
  region : ∀ i, V'.region i = V.region i ∨
    (i = V.index v ∧ r = v ∧ V'.region i = { V.region i with evacFailed := true }) ∨
    (i = V.index r ∧ V.Makes v r ∧ V'.evacRegion = some i ∧ V'.region i = { V.region i with
      top := r + Object.size V.memory v
      starts := (V.region i).starts.adding r
      state := (V'.region i).state
      markLimit := (V'.region i).markLimit })
  inUse : ∀ i, (V.region i).state ≠ .empty → (V'.region i).state = (V.region i).state ∧
    (V'.region i).markLimit = (V.region i).markLimit
  evacRegion : V'.evacRegion = V.evacRegion ∨ (V.Makes v r ∧
    V.EvacFull (Object.size V.memory v) ∧ (V.regionOf r).state = .empty)
  frame : V' = { V with
    memory := V'.memory, region := V'.region, evacRegion := V'.evacRegion,
    high := V'.high, committed := V'.committed, used := V'.used }

section
variable {V V' V₁ : HeapView} {slot : Option Nat} {v r : Nat}

theorem Confined.refl (hn : ¬ V.Makes v r) : V.Confined slot v r V where
  memory _ h := absurd rfl h
  published _ := (or_iff_left fun h => hn h.1).symm
  region _ := .inl rfl
  inUse _ _ := ⟨rfl, rfl⟩
  evacRegion := .inl rfl
  frame := rfl

/-- **A copy is come by**, and nothing else happens. -/
theorem Settling.confined (S : V.Settling v r V₁) (L : V.Layout) (hp : V.Published v) :
    V.Confined none v r V₁ := by
  cases S with
  | found hf => exact .refl fun h => by rw [h.1] at hf; cases hf
  | stays => exact .refl fun h => h.2 rfl
  | kept h0 =>
    refine ⟨fun b hb => .inl ?_, fun o => published_keep.trans (or_iff_left fun h => h.1.2 rfl).symm,
      fun i => ?_, fun i _ => ⟨state_keep, ?_⟩, .inl rfl, rfl⟩
    · by_contra hne
      exact hb (Memory.read_write_of_ne _ (Ne.symm hne) _)
    · by_cases he : i = V.index v
      · subst he
        exact .inr (.inl ⟨rfl, rfl, setRegion_region_self⟩)
      · exact .inl (setRegion_region_of_ne he)
    · exact setRegion_congr (V := V) (i := V.index v)
        (r := { V.regionOf v with evacFailed := true }) (·.markLimit) rfl i
  | @copied V' m c h0 A K =>
    have hsize := (L.objects.fits hp).size_pos
    obtain ⟨C, -, -⟩ := A.chunk _ rfl hsize
    have hne : r ≠ v := fun he =>
      A.layout.claim_not_published C.toClaim (he ▸ A.grows.published.2 hp)
    have hmakes : V.Makes v r := ⟨Object.forwardee?_of_zero h0, hne⟩
    have hidx : V'.index r = V.index r := A.grows.index r
    have hregion (i : Nat) : (V'.moveTo m v r).region i = if i = V.index r then
        { V'.region i with starts := (V'.region i).starts.adding r } else V'.region i := by
      show ((V'.withObject m r).region i) = _
      simp only [withObject, setRegion_region, hidx, regionOf]
      split
      · rename_i he
        rw [he]
      · rfl
    refine ⟨fun b hb => ?_, fun o => ?_, fun i => ?_, fun i hi => ?_, ?_, ?_⟩
    · by_cases hbv : b = v
      · exact .inl hbv
      · have hm : m.read b ≠ V.memory.read b := by
          rwa [← Memory.read_write_of_ne m (Ne.symm hbv) (Object.tagged r)]
        have hin : r ≤ b ∧ b < r + Object.size V.memory v := by
          by_contra hout
          exact hm ((K.rest b (by omega)).trans (by rw [A.grows.memory]))
        exact .inr (.inr ⟨hmakes, (A.fresh _ rfl hsize).unused b hin.1 hin.2, hin⟩)
    · rw [published_moveTo A.layout C.toClaim, A.grows.published, or_comm]
      exact or_congr_right (and_iff_right hmakes).symm
    · by_cases he : i = V.index r
      · refine .inr (.inr ⟨he, hmakes, he ▸ A.current, ?_⟩)
        rw [hregion, if_pos he, he, A.region]
        rfl
      · rw [hregion, if_neg he]
        exact .inl (A.others i he)
    · have hstate := (A.grows.state i).resolve_right fun h => hi h.1
      rw [hregion]
      split <;> exact ⟨hstate, A.grows.markLimit i⟩
    · exact A.turn.imp (fun h => A.current.trans h.symm) fun h => ⟨hmakes, h⟩
    · have hf := A.grows.frame
      rw [A.mutators, A.mutatorRegion] at hf
      obtain ⟨a, b, u, g, e, rfl⟩ : ∃ a b u g e, V' = { V with
          high := a, committed := b, used := u, region := g, evacRegion := e } := ⟨_, _, _, _, _, hf⟩
      rfl

/-- The words of a copy that is made are those of the object, and were untouched before. -/
theorem Settling.word (S : V.Settling v r V₁) (L : V.Layout) (hp : V.Published v)
    (hm : V.Makes v r) {k : Nat} (hk : 1 ≤ k) (hlt : 8 * k < Object.size V.memory v) :
    V₁.memory.read (r + 8 * k) = V.memory.read (v + 8 * k) ∧ V.Untouched (r + 8 * k) := by
  have hfit := L.objects.fits hp
  cases S with
  | found hf =>
    rw [hm.1] at hf
    cases hf
  | stays | kept => exact absurd rfl hm.2
  | @copied V' m c h0 A K =>
    obtain ⟨C, -, -⟩ := A.chunk _ rfl hfit.size_pos
    have hmem : V'.memory = V.memory := A.grows.memory
    have hsize : Object.size V'.memory v = Object.size V.memory v := by rw [hmem]
    refine ⟨?_, (A.fresh _ rfl hfit.size_pos).unused _ (by omega) (by omega)⟩
    have hv : r + 8 * k ≠ v := by
      have := C.objects (A.grows.published.2 hp)
      omega
    rw [← hmem, ← K.words k hk hlt]
    exact Memory.read_write_of_ne _ (Ne.symm hv) _

/-- A slot was touched. -/
theorem HasSlot.not_untouched {a : Nat} (ha : V.HasSlot a) (L : V.Layout) : ¬ V.Untouched a := by
  intro hu
  rcases ha with ⟨o, i, ho, hi, rfl⟩ | ha
  · have hin := L.field_inside ho hi
    exact L.not_spare ho (by omega) (by omega) (.inl hu)
  · exact absurd (L.spare_lt (.inl hu)) (Nat.not_lt.2 ha)

/-- No other slot changes. -/
theorem Confined.read_slot {a : Nat} (C : V.Confined slot v r V₁) (L : V.Layout)
    (hp : V.Published v) (ha : V.HasSlot a) (hs : slot ≠ some a) :
    V₁.memory.read a = V.memory.read a := by
  by_contra hne
  rcases C.memory a hne with rfl | h | ⟨-, hu, -⟩
  · exact (ha.ne_header L hp).1 rfl
  · exact hs h
  · exact ha.not_untouched L hu

/-- No word of another object changes. -/
theorem Confined.read_word {o b : Nat} (C : V.Confined slot v r V₁) (L : V.Layout)
    (ho : V.Published o) (h1 : o ≤ b) (h2 : b < o + Object.size V.memory o) (hv : b ≠ v)
    (hs : slot ≠ some b) : V₁.memory.read b = V.memory.read b := by
  by_contra hne
  rcases C.memory b hne with h | h | ⟨-, hu, -⟩
  · exact hv h
  · exact hs h
  · exact L.not_spare ho h1 h2 (.inl hu)

theorem Confined.options (C : V.Confined slot v r V') : V'.options = V.options := by rw [C.frame]

/-- What a slot holds after it was healed. -/
def healedRead (V : HeapView) (a v r : Nat) : Nat :=
  if V.options.selfHealing = true ∧ V.memory.read a = v ∧ r ≠ v then r else V.memory.read a

theorem Confined.healed (C : V.Confined none v r V₁) (L : V.Layout) (hp : V.Published v)
    (hslot : ∀ a, slot = some a → V.HasSlot a) :
    V.Confined slot v r (V₁.healed slot v r) ∧
      (∀ a, slot = some a → (V₁.healed slot v r).memory.read a = V.healedRead a v r) ∧
      ∀ b, slot ≠ some b → (V₁.healed slot v r).memory.read b = V₁.memory.read b := by
  have hlift {m : Memory} (hm : ∀ b, slot ≠ some b → m.read b = V₁.memory.read b) :
      V.Confined slot v r { V₁ with memory := m } :=
    { C with
      memory := fun b hb => by
        by_cases hs : slot = some b
        · exact .inr (.inl hs)
        · rw [hm b hs] at hb
          exact (C.memory b hb).imp_right fun h => .inr (h.resolve_left (by simp))
      frame := by
        conv_lhs => rw [C.frame] }
  cases slot with
  | none => exact ⟨hlift fun _ _ => rfl, (by simp), fun _ _ => rfl⟩
  | some a =>
    have ha : V₁.memory.read a = V.memory.read a := C.read_slot L hp (hslot a rfl) (by simp)
    have hread (b : Nat) (hb : some a ≠ some b) :
        (V₁.memory.write a r).read b = V₁.memory.read b :=
      Memory.read_write_of_ne _ (fun he => hb (congrArg some he)) _
    have hiff : (r ≠ v ∧ V₁.options.selfHealing = true ∧ V₁.memory.read a = v) ↔
        (V.options.selfHealing = true ∧ V.memory.read a = v ∧ r ≠ v) := by
      rw [C.options, ha, and_comm, and_assoc]
    rw [HeapView.healed]
    by_cases hc : V.options.selfHealing = true ∧ V.memory.read a = v ∧ r ≠ v
    · rw [if_pos (hiff.2 hc)]
      refine ⟨hlift hread, fun b hb => ?_, hread⟩
      cases hb
      rw [healedRead, if_pos hc]
      exact Memory.read_write_self _ _ _
    · rw [if_neg fun h => hc (hiff.1 h)]
      refine ⟨hlift fun _ _ => rfl, fun b hb => ?_, fun _ _ => rfl⟩
      cases hb
      rw [healedRead, if_neg hc]
      exact ha

end

/-- **What the load barrier has done** when it gave `r` for `v`. -/
structure Loaded (V : HeapView) (slot : Option Nat) (v r : Nat) (V' : HeapView) : Prop
    extends V.Confined slot v r V' where
  null_iff : r = null ↔ v = null
  resolve : Object.resolve V'.memory v = r
  settled : r ≠ null → V'.Relocating r → Object.isSelfForwarded V'.memory r = true
  contents : V.Makes v r → Object.SameContents V.memory v V'.memory r
  slot_eq : ∀ a, slot = some a → V'.memory.read a = V.healedRead a v r
  /-- No other slot changes. -/
  slots : ∀ a, V.HasSlot a → slot ≠ some a → V'.memory.read a = V.memory.read a
  /-- No word of another object changes, but for the slot. -/
  words : ∀ o b, V.Published o → o ≤ b → b < o + Object.size V.memory o → b ≠ v →
    slot ≠ some b → V'.memory.read b = V.memory.read b

section
variable {V V' V₁ : HeapView} {W W' : World} {st : Stage} {ts : List MarkTask} {slot : Option Nat}
  {v r : Nat}

/-- What a reference resolves to when the barrier has given its copy. -/
theorem Resolved.resolve_eq (R : V.Resolved W v V' W' r st ts) (F : V.Faithful W st)
    (hv : V.Refers W v) : Object.resolve V'.memory v = r := by
  have F' := R.inv.faithful
  obtain ⟨hm, hn⟩ := F'.resolve_refers R.inv.layout (R.evolves.refers hv).1
  exact F'.name_inj hm (R.current F hv).1 ((hn.trans (R.evolves.name hv)).trans R.name.symm)

/-- Nothing is done for null. -/
theorem Loaded.null : V.Loaded slot null null V where
  toConfined := .refl fun h => h.2 rfl
  null_iff := Iff.rfl
  resolve := rfl
  settled h := absurd rfl h
  contents h := absurd rfl h.2
  slot_eq _ _ := (if_neg fun h => h.2.2 rfl).symm
  slots _ _ _ := rfl
  words _ _ _ _ _ _ _ := rfl

theorem Settling.loaded (S : V.Settling v r V₁) (I : V.Inv W st ts) (hv : V.Refers W v)
    (R : V.Resolved W v (V₁.healed slot v r) W' r st ts)
    (hslot : ∀ a, slot = some a → V.HasSlot a) : V.Loaded slot v r (V₁.healed slot v r) := by
  have L := I.layout
  have hp := I.faithful.refers_published hv
  have hcur := R.current I.faithful hv
  have hpos := (R.inv.layout.bounds (R.inv.faithful.published hcur.1))
  have C₁ := S.confined L hp
  obtain ⟨C, hat, hother⟩ := C₁.healed L hp hslot
  exact
    { C with
      null_iff := ⟨fun h => absurd h (Nat.ne_of_gt hpos.pos),
        fun h => absurd h (Nat.ne_of_gt (L.bounds hp).pos)⟩
      resolve := R.resolve_eq I.faithful hv
      settled := fun _ hr => by
        simp [Object.isSelfForwarded, Object.forwardee?_of_tagged (hcur.2 hr) hpos.aligned]
      contents := fun hm => .of_words (L.objects.fits hp) fun k hk hlt => by
        obtain ⟨hw, hu⟩ := S.word L hp hm hk hlt
        rw [hother _ fun hs => (hslot _ hs).not_untouched L hu, hw]
      slot_eq := hat
      slots := fun _ ha hs => C.read_slot L hp ha hs
      words := fun _ _ ho h1 h2 hne hs => C.read_word L ho h1 h2 hne hs }

end

end HeapView

namespace RegionHeap

open HeapView

variable {h : RegionHeap} {W : World} {st : Stage} {ts : List MarkTask} {slot : Option Nat} {v r : Nat}

/-- **The load barrier**, while there may be copies. -/
theorem ends_loadBarrier_loaded (I : h.view.Inv W st ts) (hs : h.view.InStage st)
    (hf : h.gcState.hasForwarded = true) (hv : v = 0 ∨ h.view.Refers W v)
    (hslot : ∀ a, slot = some a → h.view.HasSlot a) :
    Ends (loadBarrier slot v) h fun r h' => h.view.Loaded slot v r h'.view ∧
      ∃ W', h.view.Resolved W v h'.view W' r st ts := by
  have F := I.faithful
  refine ((ends_loadBarrier I hs hv hslot).and_after (after_loadBarrier I.layout
    (fun h0 => F.refers_published (hv.resolve_left h0)) fun h0 hnone => ?_)).mono ?_
  · rcases F.forwardee I.layout (hv.resolve_left h0) with ⟨hz, -⟩ | ⟨c, -, hc, -⟩
    · exact hz
    · rw [hc] at hnone
      cases hnone
  · rintro r h' ⟨⟨W', R, -⟩, ⟨hc, rfl, hv'⟩ | ⟨h0, -, V₁, S, hv'⟩⟩
    · obtain rfl : r = null := hc.resolve_right (by simp [hf])
      exact ⟨hv' ▸ .null, W', R⟩
    · rw [hv'] at R ⊢
      exact ⟨S.loaded I (hv.resolve_left h0) R hslot, W', R⟩

end RegionHeap

/-! ## 4. The copies of an object -/

namespace HeapView

/-- The addresses are those of copies of one object, or both null. -/
def Aliases (V : HeapView) (v w : Nat) : Prop :=
  Object.resolve V.memory w = Object.resolve V.memory v ∧ (w = null ∨ V.Published w)

/-- The address is that of a copy of an object that the last marking found live, or that was published
since it began. -/
def Denotes (V : HeapView) (v : Nat) : Prop :=
  V.Published v ∧ ∃ w, V.Aliases v w ∧ V.Published w ∧ V.Live w

section
variable {V V' : HeapView} {W W' : World} {st : Stage} {ts : List MarkTask} {v w r : Nat}

/-- What resolves to an object refers to it. -/
theorem Faithful.refers_of_resolve (F : V.Faithful W st) (hw : V.Published w)
    (hm : Object.resolve V.memory w ∈ W.objects) : V.Refers W w := by
  rcases F.status hw with h0 | ⟨-, -, h, -⟩ | ⟨c, h⟩
  · exact .inl (Object.resolve_of_zero h0 ▸ hm)
  · exact .inl h
  · exact h.refers

theorem Faithful.resolve_pos (F : V.Faithful W st) (L : V.Layout) (hw : V.Published w) :
    Object.resolve V.memory w ≠ null := by
  have hB := L.bounds hw
  rcases F.status hw with h0 | ⟨-, -, -, hs⟩ | ⟨c, h⟩
  · rw [Object.resolve_of_zero h0]
    exact Nat.ne_of_gt hB.pos
  · rw [Object.resolve_of_tagged hs hB.aligned hB.pos]
    exact Nat.ne_of_gt hB.pos
  · rw [h.resolve F L]
    exact Nat.ne_of_gt (L.bounds (F.published h.mem)).pos

theorem Denotes.refers (h : V.Denotes v) (I : V.Inv W st ts) (hst : st ≠ .marking) :
    V.Refers W v := by
  obtain ⟨hp, w, ⟨he, -⟩, hw, hl⟩ := h
  refine I.faithful.refers_of_resolve hp ?_
  rw [← he]
  exact (I.faithful.resolve_refers I.layout (I.faithful.survivors hst hw hl)).1

/-- All copies of an object have one identity. -/
theorem Aliases.names (h : V.Aliases v w) (I : V.Inv W st ts) (hv : v = 0 ∨ V.Refers W v) :
    V.Names W w (W.name v) := by
  have F := I.faithful
  obtain ⟨he, hw⟩ := h
  rcases hv with rfl | hv
  · have h0 : w = 0 := hw.resolve_right fun hp => F.resolve_pos I.layout hp he
    exact ⟨.inl h0, by rw [h0]⟩
  · obtain ⟨hm, hn⟩ := F.resolve_refers I.layout hv
    rcases hw with rfl | hw
    · exact absurd he.symm (F.resolve_pos I.layout (F.refers_published hv))
    · have hr := F.refers_of_resolve hw (he ▸ hm)
      exact ⟨.inr hr, ((F.resolve_eq_iff I.layout hr hv).1 he)⟩

/-- There is one reference to an object that barriers give. -/
theorem Clean.eq_of_name (hv : V.Clean W v) (hw : V.Clean W w) (F : V.Faithful W st)
    (he : W.name v = W.name w) : v = w := by
  rcases hv with rfl | hv <;> rcases hw with rfl | hw
  · rfl
  · exact absurd (he.symm.trans F.name_zero) (Nat.ne_of_gt (F.name_pos hw.1))
  · exact absurd (he.trans F.name_zero) (Nat.ne_of_gt (F.name_pos hv.1))
  · exact F.name_inj hv.1 hw.1 he

theorem Follows.clean (E : V.Follows W V' W') (h : V.Clean W v) : V'.Clean W' v :=
  h.imp_right E.current

end

end HeapView

/-! ## 5. The copy stays the one that is given -/

namespace Session

open HeapView

variable {place : Place} {o : Options} {h h' : RegionHeap} {s : Session} {W W' : World} {r v : Nat}
  {C : Set Nat} {cs : List Command} {k : Command} {slot : Option Nat}

/-- While a cycle relocates, the barriers give `r` for each reference in `C`. -/
structure Settled (s : Session) (W : World) (r : Nat) (C : Set Nat) : Prop where
  sound : s.Sound W
  relocates : s.stage.relocates = true
  clean : s.heap.view.Clean W r
  names : ∀ w ∈ C, s.heap.view.Names W w (W.name r)

/-- **Any of the copies** is resolved to the same. -/
theorem Settled.ends_loadBarrier (S : s.Settled W r C) (hv : v ∈ C)
    (hslot : ∀ a, slot = some a → s.heap.view.HasSlot a) :
    ∃ h', RegionHeap.loadBarrier slot v s.heap = .ok r h' := by
  have I := S.sound.inv
  obtain ⟨x, h', hx, W', R, -⟩ := RegionHeap.ends_loadBarrier I S.sound.inStage (S.names v hv).1 hslot
  have hr := R.evolves.names I.faithful R.inv.faithful S.clean.names
  have he : x = r := R.result.eq_of_name (R.evolves.clean S.clean) R.inv.faithful
    ((R.name.trans (S.names v hv).2).trans hr.2.symm)
  exact ⟨h', he ▸ hx⟩

theorem Settled.follows {s' : Session} (S : s.Settled W r C) (S' : s'.Sound W')
    (hst : s'.stage.relocates = true) (E : s.heap.view.Follows W s'.heap.view W') :
    s'.Settled W' r C := by
  have F := S.sound.inv.faithful
  have F' := S'.inv.faithful
  have hr := E.names F F' S.clean.names
  exact ⟨S', hst, E.clean S.clean, fun w hw => hr.2.symm ▸ E.names F F' (S.names w hw)⟩

/-- **No command but the last step of a cycle** changes which copy is given. -/
theorem Settled.ends_execute (S : s.Settled W r C) (ha : s.Allows k) (hk : k ≠ .step .recycle) :
    Ends (execute k) s fun _ s' => ∃ W', s'.Settled W' r C := by
  have T := S.sound
  cases k with
  | operation op =>
    refine (T.ends_perform ha).mono ?_
    rintro a _ ⟨h', W', b, I, rfl, -, P⟩
    exact ⟨W', S.follows (T.record P).1 S.relocates P.persists.follows⟩
  | step c =>
    have hst : s.stage = c.stage := ha
    simp only [execute, ends_bind, ends_pure]
    refine (T.ends_advance ha).mono ?_
    rintro b _ ⟨h', W', rfl, A, hf, -⟩
    have hrel := S.relocates
    rw [hst] at hrel
    have hstale : c.stage.stale = true ∧ (c.next true).relocates = true := by
      cases c <;> first | exact absurd rfl hk | exact ⟨rfl, rfl⟩ | cases hrel
    obtain ⟨rfl, E⟩ := hf hstale.1
    exact ⟨W', S.follows (T.enter A).1 hstale.2 E⟩
  | cancel =>
    simp only [execute, ends_bind, ends_pure]
    refine T.ends_cancel.mono ?_
    rintro b _ ⟨T', -, h', d, rfl, hv⟩
    refine ⟨W, S.follows T' S.relocates ?_⟩
    show s.heap.view.Follows W h'.view W
    rw [hv]
    exact .of_eq rfl rfl rfl rfl

/-- The session of a heap that has changed as a barrier may change it. -/
theorem Sound.of_transparent (S : s.Sound W)
    (T : s.heap.view.Transparent W h'.view W' s.stage []) :
    ({ s with heap := h' } : Session).Sound W' where
  inv := T.inv
  inStage := T.evolves.inStage S.inStage
  loose := T.evolves.loose.trans S.loose
  joined := T.evolves.joined S.joined
  pending := T.evolves.pending.trans S.pending
  balanced := T.evolves.fills.balanced S.balanced
  mutators m hm := T.evolves.bound (S.mutators m hm)
  handles slot hm := T.evolves.hasRoot (S.handles slot hm)
  held v hv := (S.held v hv).imp_right fun h => (T.evolves.refers h).1
  counted := T.evolves.counted S.counted

/-- Without the last step of a cycle, a run keeps what barriers give. -/
theorem Settled.ends_runAll (S : s.Settled W r C) (hp : Permitted execute Allows cs s)
    (hcs : .step .recycle ∉ cs) :
    Ends (Action.runAll execute cs) s fun _ t => ∃ W', t.Settled W' r C := by
  refine ends_runAll_inv (R := fun s => ∃ W, Settled s W r C) ?_ ⟨W, S⟩
    (hp.only (p := fun c => c ≠ .step .recycle) fun _ hc he => hcs (he ▸ hc))
  rintro s c ⟨W, S⟩ ha
  exact S.ends_execute ha.1 ha.2

/-- **The load barrier**, at any time of any permitted program at which there may be copies, for a
reference that is null or denotes an object, and any slot: it gives null exactly for null, and otherwise
the copy that the program may use; what it makes is a copy, it heals the slot, and leaves everything
else alone (`HeapView.Loaded`).  Until the regions are recycled, whatever the program does, the barrier
gives the same for each copy of the object. -/
theorem loads_one_copy (hb : AnyHeap.build place o = .ok (.ok (.region h)))
    (hp : Permitted execute Allows cs (start h)) :
    ∃ as s, Action.runAll execute cs (start h) = .ok as s ∧
      (s.heap.gcState.hasForwarded = true →
        ∀ slot v, (v = null ∨ s.heap.view.Denotes v) →
          (∀ a, slot = some a → s.heap.view.HasSlot a) →
          ∃ r h', RegionHeap.loadBarrier slot v s.heap = .ok r h' ∧
            s.heap.view.Loaded slot v r h'.view ∧
            ∀ ds, .step .recycle ∉ ds → Permitted execute Allows ds { s with heap := h' } →
              ∃ bs t, Action.runAll execute ds { s with heap := h' } = .ok bs t ∧
                ∀ w, w = r ∨ s.heap.view.Aliases v w →
                  ∀ slot', (∀ a, slot' = some a → t.heap.view.HasSlot a) →
                    ∃ h'', RegionHeap.loadBarrier slot' w t.heap = .ok r h'') := by
  obtain ⟨as, s, hrun, W, S, -⟩ := ends_program hb hp
  refine ⟨as, s, hrun, fun hf slot v hv hslot => ?_⟩
  have I := S.inv
  have hrel : s.stage.relocates = true := by
    have hg : s.heap.gcState = s.stage.flags := S.inStage.1
    rw [hg] at hf
    cases hst : s.stage <;> rw [hst] at hf <;> first | rfl | cases hf
  have hv : v = 0 ∨ s.heap.view.Refers W v :=
    hv.imp_right fun h => h.refers I (s.stage.ne_marking_of_relocates hrel)
  obtain ⟨r, h', hr, hloaded, W', R⟩ :=
    RegionHeap.ends_loadBarrier_loaded I S.inStage hf hv hslot
  refine ⟨r, h', hr, hloaded, fun ds hds hpd => ?_⟩
  have S' : ({ s with heap := h' } : Session).Settled W' r
      { w | w = r ∨ s.heap.view.Aliases v w } := by
    refine ⟨S.of_transparent R.toTransparent, hrel, R.result, fun w hw => ?_⟩
    rcases hw with rfl | hw
    · exact R.result.names
    · exact R.name ▸ R.evolves.names I.faithful R.inv.faithful (hw.names I hv)
  obtain ⟨bs, t, hbs, W'', T⟩ := S'.ends_runAll hpd hds
  exact ⟨bs, t, hbs, fun w hw slot' hs => T.ends_loadBarrier hw hs⟩

/-- The rest of a cycle up to its last step, and a load. -/
def restOfCycle : List Command := [
  .step .evacuate, .step .updateRefs, .operation (.loadRoot rootBase)]

/-- The object of a root is copied when the barrier is asked for it, and the root is healed.  The barrier
gives that copy for the old reference when the rest of the cycle is done. -/
theorem loads_one_copy_relocation : ∃ h, AnyHeap.build Place.first smallHeap = .ok (.ok (.region h)) ∧
    Permitted execute Allows (relocation.take 12) (start h) ∧
    ∃ as s v r h', Action.runAll execute (relocation.take 12) (start h) = .ok as s ∧
      s.heap.gcState.hasForwarded = true ∧ v = s.heap.view.memory.read rootBase ∧
      s.heap.view.Denotes v ∧ RegionHeap.loadBarrier (some rootBase) v s.heap = .ok r h' ∧ r ≠ v ∧
      s.heap.view.Loaded (some rootBase) v r h'.view ∧
      Permitted execute Allows restOfCycle { s with heap := h' } ∧
      ∃ bs t h'', Action.runAll execute restOfCycle { s with heap := h' } = .ok bs t ∧
        RegionHeap.loadBarrier none v t.heap = .ok r h'' := by
  obtain ⟨h, hb, hd⟩ := builds_iff.1 (show builds Place.first smallHeap (fun h =>
    decide (Permitted execute Allows (relocation.take 12) (start h)) &&
    decide (Ends (Action.runAll execute (relocation.take 12)) (start h) fun _ s =>
      s.heap.gcState.hasForwarded = true ∧
      (s.heap.view.Published (s.heap.view.memory.read rootBase) ∧
        s.heap.view.Live (s.heap.view.memory.read rootBase)) ∧
      Ends (RegionHeap.loadBarrier (some rootBase) (s.heap.view.memory.read rootBase)) s.heap
        fun r h' => r ≠ s.heap.view.memory.read rootBase ∧
          Permitted execute Allows restOfCycle { s with heap := h' })) = true by decide +kernel)
  rw [Bool.and_eq_true, decide_eq_true_eq, decide_eq_true_eq] at hd
  obtain ⟨hp, hends⟩ := hd
  obtain ⟨as, s, hrun, hall⟩ := loads_one_copy hb hp
  obtain ⟨hf, ⟨hv, hl⟩, hload⟩ := hends.of_ok hrun
  have hown : s.heap.view.Aliases (s.heap.view.memory.read rootBase)
      (s.heap.view.memory.read rootBase) := ⟨rfl, .inr hv⟩
  have hden : s.heap.view.Denotes (s.heap.view.memory.read rootBase) := ⟨hv, _, hown, hv, hl⟩
  have hroot : ∀ a, some rootBase = some a → s.heap.view.HasSlot a := by
    rintro _ ⟨⟩
    exact .inr (Nat.le_refl _)
  obtain ⟨r, h', hr, hloaded, hlater⟩ := hall hf (some rootBase) _ (.inr hden) hroot
  obtain ⟨hne, hds⟩ := hload.of_ok hr
  obtain ⟨bs, t, hbs, hagain⟩ := hlater restOfCycle (by decide) hds
  obtain ⟨h'', hr'⟩ := hagain _ (.inr hown) none (by simp)
  exact ⟨h, hb, hp, as, s, _, r, h', hrun, hf, rfl, hden, hr, hne, hloaded, hds, bs, t, h'', hbs, hr'⟩

end Session

end ManagedHeap
