/-
# Allocation

Allocation keeps the layout, and what it gives is a claim.  It changes tops, takes empty regions and
replaces buffers, but it touches no object: `Grows` says what it leaves alone, and with it that the
published objects, their liveness and the roles of their regions are as before.

The module goes through the code from the inside out.

* A region gives a `Chunk`, a claim above its old top (section 2).
* The heap of regions takes new regions until one has room, or gives nothing (section 3).
* A mutator allocates from its buffer, from a new one or outside of buffers (sections 4 and 5).

None of these can fault.  Whether there is room is left open.
-/
import ManagedHeap.Proofs.Layout
import ManagedHeap.Proofs.Ledger
import Mathlib.Algebra.BigOperators.Group.Finset.Basic

namespace ManagedHeap

namespace HeapView

/-! ## 1. What allocation leaves alone -/

/-- The regions have the marks and the snapshots they had, and count the same bytes as marked. -/
structure SameTally (V V' : HeapView) : Prop where
  marks : ∀ i, (V'.region i).marks = (V.region i).marks
  markedBytes : ∀ i, (V'.region i).markedBytes = (V.region i).markedBytes
  markLimit : ∀ i, (V'.region i).markLimit = (V.region i).markLimit

/-- `V'` comes from `V` by allocation. -/
structure Grows (V V' : HeapView) : Prop extends SameTally V V' where
  frame : V' = { V with
    high := V'.high, committed := V'.committed, used := V'.used, region := V'.region,
    mutators := V'.mutators, mutatorRegion := V'.mutatorRegion, evacRegion := V'.evacRegion }
  starts : ∀ i, (V'.region i).starts = (V.region i).starts
  kept : ∀ i, (V'.region i).evacFailed = (V.region i).evacFailed
  state : ∀ i, (V'.region i).state = (V.region i).state ∨
    ((V.region i).state = .empty ∧ (V'.region i).state = .allocating)
  buffers : V'.mutators.map (·.map Mutator.buffer) = V.mutators.map (·.map Mutator.buffer)

section
variable {V V' V'' : HeapView} {o : Nat}

theorem SameTally.refl (V : HeapView) : SameTally V V := ⟨fun _ => rfl, fun _ => rfl, fun _ => rfl⟩

theorem SameTally.trans (T : SameTally V V') (T' : SameTally V' V'') : SameTally V V'' :=
  ⟨fun i => (T'.marks i).trans (T.marks i), fun i => (T'.markedBytes i).trans (T.markedBytes i),
    fun i => (T'.markLimit i).trans (T.markLimit i)⟩

theorem SameTally.setRegion {i : Nat} {r : RegionView} (hm : r.marks = (V.region i).marks)
    (hb : r.markedBytes = (V.region i).markedBytes) (hl : r.markLimit = (V.region i).markLimit) :
    SameTally V (V.setRegion i r) :=
  ⟨setRegion_congr (·.marks) hm, setRegion_congr (·.markedBytes) hb,
    setRegion_congr (·.markLimit) hl⟩

theorem Grows.refl (V : HeapView) : Grows V V :=
  ⟨.refl V, rfl, fun _ => rfl, fun _ => rfl, fun _ => .inl rfl, rfl⟩

theorem Grows.trans (h : Grows V V') (h' : Grows V' V'') : Grows V V'' where
  toSameTally := h.toSameTally.trans h'.toSameTally
  frame := by rw [h'.frame, h.frame]
  starts i := (h'.starts i).trans (h.starts i)
  kept i := (h'.kept i).trans (h.kept i)
  state i := by
    rcases h.state i with e | ⟨e, e'⟩ <;> rcases h'.state i with g | ⟨g, g'⟩
    · exact .inl (g.trans e)
    · exact .inr ⟨e ▸ g, g'⟩
    · exact .inr ⟨e, g.trans e'⟩
    · rw [e'] at g
      cases g
  buffers := h'.buffers.trans h.buffers

theorem Grows.memory (h : Grows V V') : V'.memory = V.memory := by
  rw [h.frame]

theorem Grows.index (h : Grows V V') (a : Nat) : V'.index a = V.index a := by
  rw [h.frame]
  rfl

theorem Grows.published (h : Grows V V') : V'.Published o ↔ V.Published o := by
  simp only [Published, regionOf, h.index, h.starts]

theorem Grows.relocating (h : Grows V V') : V'.Relocating o ↔ V.Relocating o := by
  simp only [Relocating, regionOf, h.index]
  rcases h.state (V.index o) with e | ⟨e, e'⟩
  · rw [e]
  · rw [e, e']
    simp

theorem Grows.live (h : Grows V V') : V'.Live o ↔ V.Live o := by
  simp only [Live, regionOf, h.index, h.marks, h.markLimit]

/-- The bound mutators are the same, and record in the same buffers. -/
theorem Grows.mutator (h : Grows V V') {m : Nat} :
    (V'.mutator? m).map Mutator.buffer = (V.mutator? m).map Mutator.buffer := by
  have hm := congrArg (fun a : Array (Option Nat) => a[m]?.join) h.buffers
  simp only [Array.getElem?_map] at hm
  unfold mutator?
  cases h1 : V'.mutators[m]? <;> cases h2 : V.mutators[m]? <;> simp [h1, h2] at hm ⊢ <;> exact hm

theorem Grows.bound (h : Grows V V') {m : Nat} {t : Mutator} (hm : V.mutator? m = some t) :
    ∃ t', V'.mutator? m = some t' ∧ t'.buffer = t.buffer := by
  have := h.mutator (m := m)
  rw [hm] at this
  simpa using this

/-- A region that is in use may grow. -/
theorem Grows.setRegion {i : Nat} {r : RegionView} (T : SameTally V (V.setRegion i r))
    (hs : r.starts = (V.region i).starts) (hk : r.evacFailed = (V.region i).evacFailed)
    (hst : r.state = (V.region i).state ∨
      ((V.region i).state = .empty ∧ r.state = .allocating)) :
    Grows V (V.setRegion i r) := by
  refine ⟨T, rfl, setRegion_congr (·.starts) hs, setRegion_congr (·.evacFailed) hk, fun j => ?_, rfl⟩
  rw [setRegion_region]
  split
  · rename_i he
    exact he ▸ hst
  · exact .inl rfl

/-- The count of the allocated bytes may change. -/
theorem Grows.setUsed {u : Nat} (h : Grows V V') : Grows V { V' with used := u } :=
  { h with frame := by rw [h.frame] }

/-- A mutator may change all but its buffer of records. -/
theorem Grows.setMutator {m : Nat} {t t' : Mutator} (hm : V.mutator? m = some t)
    (hb : t'.buffer = t.buffer) : Grows V (V.setMutator m (some t')) := by
  refine ⟨⟨fun _ => rfl, fun _ => rfl, fun _ => rfl⟩, rfl, fun _ => rfl, fun _ => rfl,
    fun _ => .inl rfl, ?_⟩
  have hget : V.mutators[m]?.join = some t := hm
  have hlt := lt_size_of_mutator? hm
  rw [Array.getElem?_eq_getElem hlt, Option.join_some] at hget
  refine Array.ext (by simp [HeapView.setMutator]) fun j h1 h2 => ?_
  have hj : j < V.mutators.size := by simpa using h2
  simp only [HeapView.setMutator, Array.getElem_map, Array.getElem_setIfInBounds hj]
  split
  · rename_i he
    subst he
    rw [hget, Option.map_some, Option.map_some, hb]
  · rfl

end

/-! ## 2. What was handed out

An allocation gives memory that was free before.  This is what keeps the ranges apart that are
handed out one after the other: no byte becomes free again but by the recycling of its region. -/

/-- The regions are where they were. -/
structure SameRange (V V' : HeapView) : Prop where
  low : V'.low = V.low
  boundary : V'.boundary = V.boundary
  regionSize : V'.regionSize = V.regionSize

/-- The regions are as full as they were, and the mutators have the buffers they had. -/
structure SameSpace (V V' : HeapView) : Prop extends SameRange V V' where
  used : V'.used = V.used
  mutators : V'.mutators = V.mutators
  bottom : ∀ i, (V'.region i).bottom = (V.region i).bottom
  top : ∀ i, (V'.region i).top = (V.region i).top
  limit : ∀ i, (V'.region i).limit = (V.region i).limit
  tlabs : ∀ i, (V'.region i).activeTlabs = (V.region i).activeTlabs

/-- The count of the allocated bytes is right. -/
def Balanced (V : HeapView) : Prop :=
  V.used = ∑ i ∈ Finset.range V.maxRegions, ((V.region i).top - (V.region i).bottom)

/-- The counts of the buffers are right, with one more in the region `x` that no mutator has. -/
def Counted (V : HeapView) (x : Option Nat) : Prop :=
  ∀ i, (V.region i).activeTlabs = V.tlabCount i + if x = some i then 1 else 0

/-- What matters of the heap for what it hands out. -/
def arena (V : HeapView) : Arena where
  untouched := V.Untouched
  buffer := buffersOf V.mutators
  region := V.index

/-- What is handed out from `V` to `V'` was free in `V`, and is counted. -/
structure Fills (V V' : HeapView) : Prop extends SameRange V V' where
  arena : V.arena.Fills V'.arena
  balanced : V.Balanced → V'.Balanced

section
variable {V V' V'' : HeapView} {a n m i : Nat} {t t' : Mutator} {x : Option Nat}

theorem SameRange.refl (V : HeapView) : SameRange V V := ⟨rfl, rfl, rfl⟩

theorem SameRange.trans (S : SameRange V V') (S' : SameRange V' V'') : SameRange V V'' :=
  ⟨S'.low.trans S.low, S'.boundary.trans S.boundary, S'.regionSize.trans S.regionSize⟩

theorem SameRange.maxRegions (S : SameRange V V') : V'.maxRegions = V.maxRegions := by
  simp only [HeapView.maxRegions, S.low, S.boundary, S.regionSize]

theorem SameRange.index (S : SameRange V V') (b : Nat) : V'.index b = V.index b := by
  simp only [HeapView.index, S.low, S.regionSize]

theorem SameSpace.refl (V : HeapView) : SameSpace V V :=
  ⟨.refl V, rfl, rfl, fun _ => rfl, fun _ => rfl, fun _ => rfl, fun _ => rfl⟩

theorem SameSpace.trans (S : SameSpace V V') (S' : SameSpace V' V'') : SameSpace V V'' where
  toSameRange := S.toSameRange.trans S'.toSameRange
  used := S'.used.trans S.used
  mutators := S'.mutators.trans S.mutators
  bottom i := (S'.bottom i).trans (S.bottom i)
  top i := (S'.top i).trans (S.top i)
  limit i := (S'.limit i).trans (S.limit i)
  tlabs i := (S'.tlabs i).trans (S.tlabs i)

theorem SameSpace.setRegion {r : RegionView} (hb : r.bottom = (V.region i).bottom)
    (ht : r.top = (V.region i).top) (hl : r.limit = (V.region i).limit)
    (hc : r.activeTlabs = (V.region i).activeTlabs) : SameSpace V (V.setRegion i r) :=
  ⟨⟨rfl, rfl, rfl⟩, rfl, rfl, setRegion_congr (·.bottom) hb, setRegion_congr (·.top) ht,
    setRegion_congr (·.limit) hl, setRegion_congr (·.activeTlabs) hc⟩

theorem SameSpace.tlabCount (S : SameSpace V V') (i : Nat) : V'.tlabCount i = V.tlabCount i := by
  have hin : V'.hasTlabIn i = V.hasTlabIn i := by
    funext t
    simp only [hasTlabIn, S.index]
  simp only [HeapView.tlabCount, S.mutators, hin]

theorem SameSpace.counted (S : SameSpace V V') (h : V.Counted x) : V'.Counted x := fun i => by
  rw [S.tlabs, S.tlabCount]
  exact h i

theorem buffer_eq_some {b : Tlab} : V.arena.buffer m = some b ↔
    ∃ t, V.mutator? m = some t ∧ t.tlab = b ∧ b.start < b.limit := buffersOf_eq_some

theorem SameSpace.arena (S : SameSpace V V') : V'.arena = V.arena := by
  have h1 : V'.Untouched = V.Untouched := funext fun b => by
    simp only [Untouched, S.maxRegions, S.top, S.limit]
  have h2 : V'.index = V.index := funext S.index
  simp only [HeapView.arena, h1, h2, S.mutators]

theorem SameSpace.fills (S : SameSpace V V') : Fills V V' where
  toSameRange := S.toSameRange
  arena := S.arena ▸ .refl _
  balanced h := by
    simpa only [Balanced, S.maxRegions, S.top, S.bottom, S.used] using h

theorem Fills.refl (V : HeapView) : Fills V V := (SameSpace.refl V).fills

theorem Fills.trans (F : Fills V V') (F' : Fills V' V'') : Fills V V'' where
  toSameRange := F.toSameRange.trans F'.toSameRange
  arena := F.arena.trans F'.arena
  balanced h := F'.balanced (F.balanced h)

/-- Fewer buffers than before hold nothing that was not free. -/
theorem Fills.of_buffers (S : SameRange V V') (hu : V'.Untouched = V.Untouched)
    (hb : ∀ {m t}, V'.mutator? m = some t → t.tlab.start < t.tlab.limit → V.mutator? m = some t)
    (h : V.Balanced → V'.Balanced) : Fills V V' where
  toSameRange := S
  arena := by
    refine ⟨fun {b} hx => (congrFun hu b).mp hx, fun {m t} ht => ?_, funext S.index⟩
    obtain ⟨u, hm, rfl, h0⟩ := buffer_eq_some.1 ht
    exact .inl ⟨_, buffer_eq_some.2 ⟨u, hb hm h0, rfl, h0⟩, rfl, rfl, Nat.le_refl _⟩
  balanced := h

/-- A mutator may get a buffer that continues what was free. -/
theorem Fills.setMutator (F : Fills V V') (hm : V'.mutator? m = some t)
    (h : t'.tlab.start < t'.tlab.limit → V.arena.Continues m t'.tlab) :
    Fills V (V'.setMutator m (some t')) where
  toSameRange := { F.toSameRange with }
  arena := by
    refine ⟨F.arena.untouched, fun {k b} hb => ?_, F.arena.region⟩
    obtain ⟨u, hu, rfl, h0⟩ := buffer_eq_some.1 hb
    rw [mutator?_setMutator hm] at hu
    split at hu
    · rename_i he
      cases hu
      exact he ▸ h h0
    · exact F.arena.buffers (buffer_eq_some.2 ⟨u, hu, rfl, h0⟩)
  balanced := F.balanced

/-- A region may change in everything but its extent. -/
theorem Fills.setRegion {r : RegionView} (F : Fills V V') (hb : r.bottom = (V'.region i).bottom)
    (ht : r.top = (V'.region i).top) (hl : r.limit = (V'.region i).limit) :
    Fills V (V'.setRegion i r) := by
  have hb' := setRegion_congr (·.bottom) hb
  have ht' := setRegion_congr (·.top) ht
  have hl' := setRegion_congr (·.limit) hl
  refine ⟨{ F.toSameRange with }, ⟨fun {b} h => F.arena.untouched ?_, F.arena.buffers,
    F.arena.region⟩, fun h => ?_⟩
  · obtain ⟨j, hj, h1, h2⟩ := h
    exact ⟨j, hj, ht' j ▸ h1, hl' j ▸ h2⟩
  · have h1 : V'.used = _ := F.balanced h
    show V'.used = _
    rw [h1]
    exact Finset.sum_congr rfl fun j _ => by rw [hb' j, ht' j]

/-- A region changes, and the count with it. -/
theorem Balanced.setRegion {r : RegionView} {u : Nat} (h : V.Balanced) (hi : i < V.maxRegions)
    (hu : u + ((V.region i).top - (V.region i).bottom) = V.used + (r.top - r.bottom)) :
    ({ V.setRegion i r with used := u }).Balanced := by
  have hmem : i ∈ Finset.range V.maxRegions := Finset.mem_range.2 hi
  have hrest : ∀ j ∈ (Finset.range V.maxRegions).erase i,
      ((V.setRegion i r).region j).top - ((V.setRegion i r).region j).bottom =
        (V.region j).top - (V.region j).bottom := fun j hj => by
    rw [setRegion_region_of_ne (Finset.ne_of_mem_erase hj)]
  have h1 : V.used = _ := h
  rw [← Finset.add_sum_erase _ _ hmem] at h1
  show u = ∑ j ∈ Finset.range V.maxRegions,
    (((V.setRegion i r).region j).top - ((V.setRegion i r).region j).bottom)
  rw [← Finset.add_sum_erase _ _ hmem, Finset.sum_congr rfl hrest, setRegion_region_self]
  omega

/-- A region holds no more than what is counted. -/
theorem Balanced.region_le (h : V.Balanced) (hi : i < V.maxRegions) :
    (V.region i).top - (V.region i).bottom ≤ V.used := by
  have h1 : V.used = _ := h
  rw [← Finset.add_sum_erase _ _ (Finset.mem_range.2 hi)] at h1
  omega

/-- Each buffer counts for its region. -/
theorem Counted.setMutator {y : Option Nat} (h : V.Counted x) (hm : V.mutator? m = some t)
    (hc : ∀ i, (if V.hasTlabIn i (some t) then 1 else 0) + (if x = some i then 1 else 0) =
      (if V.hasTlabIn i (some t') then 1 else 0) + if y = some i then 1 else 0) :
    (V.setMutator m (some t')).Counted y := fun i => by
  have h1 := tlabCount_setMutator (i := i) (x := some t') hm
  have h2 := h i
  have h3 := hc i
  show (V.region i).activeTlabs = _
  omega

end

/-! ## 3. Allocation in a region -/

/-- A claim that was cut from above the top of its region. -/
structure Chunk (V : HeapView) (a n : Nat) : Prop extends V.Claim a n where
  above : (V.regionOf a).markLimit ≤ a
  buffers : ∀ {m t}, V.mutator? m = some t → t.tlab.limit ≤ a ∨ a + n ≤ t.tlab.start

section
variable {V V' : HeapView} {a n i j : Nat}

theorem Layout.claim_proper (L : V.Layout) (C : V.Claim a n) : V.arena.Proper a n :=
  ⟨C.pos, C.aligned, L.claim_index C⟩

/-- A chunk of what was untouched is handed out, and is no buffer yet. -/
theorem Layout.chunk_fresh (L : V'.Layout) (C : V'.Chunk a n) (hi : V'.index = V.index)
    (h : ∀ b, a ≤ b → b < a + n → V.Untouched b) : V.arena.Fresh V'.arena a n where
  proper := (L.claim_proper C.toClaim).congr hi.symm
  unused := h
  taken _ h1 h2 := L.claim_not_untouched C.toClaim h1 h2
  clear ht _ := by
    obtain ⟨u, hu, rfl, -⟩ := buffer_eq_some.1 ht
    exact C.buffers hu

/-- A buffer that has bytes is one. -/
theorem Layout.tlab_start (L : V.Layout) {m : Nat} {t : Mutator} (hm : V.mutator? m = some t)
    (hlt : t.tlab.start < t.tlab.limit) : t.tlab.start ≠ 0 := fun h0 => by
  have := (L.tlabs.none hm h0).2
  omega

/-- The buffers are where they may be. -/
theorem Layout.orderly (L : V.Layout) : V.arena.Orderly where
  bounds {m t} ht := by
    obtain ⟨u, hu, rfl, hlt⟩ := buffer_eq_some.1 ht
    have hb := L.tlabs.ok hu (L.tlab_start hu hlt)
    exact ⟨hb.start_le, hb.cursor_le⟩
  proper {m t} ht := by
    obtain ⟨u, hu, rfl, hlt⟩ := buffer_eq_some.1 ht
    have h0 := L.tlab_start hu hlt
    have hb := L.tlabs.ok hu h0
    exact ⟨Nat.sub_pos_of_lt hb.nonempty, hb.start_aligned,
      fun h1 h2 => L.tlab_index hu h0 h1 (by omega)⟩
  apart {m m' t t'} hne ht ht' := by
    obtain ⟨u, hu, rfl, -⟩ := buffer_eq_some.1 ht
    obtain ⟨u', hu', rfl, -⟩ := buffer_eq_some.1 ht'
    exact L.tlabs.apart hne hu hu'
  taken {m t b} ht h1 h2 hb := by
    obtain ⟨u, hu, rfl, hlt⟩ := buffer_eq_some.1 ht
    have h0 := L.tlab_start hu hlt
    have h3 := (L.of_untouched hb).2.2
    have h4 := (L.tlabs.ok hu h0).below
    rw [regionOf, L.tlab_index hu h0 h1 h2] at h3
    simp only [regionOf] at h4
    omega

/-- Two regions are apart. -/
theorem region_apart (size low : Nat) (h : i < j) : low + i * size + size ≤ low + j * size := by
  have : (i + 1) * size ≤ j * size := Nat.mul_le_mul_right _ h
  rw [Nat.succ_mul] at this
  omega

/-- What lies inside of one region is above the top of another, or below its bottom. -/
theorem Layout.apart_of_region (L : V.Layout) {b e : Nat} (hb : (V.region j).bottom ≤ b)
    (he : e ≤ (V.region j).top) (ha : (V.region i).top = a) (hn : a + n ≤ (V.region i).limit) :
    e ≤ a ∨ a + n ≤ b := by
  have hi := L.regions i
  have hj := L.regions j
  have h1 := hi.bottom_eq
  have h2 := hj.bottom_eq
  have h3 := hi.limit_eq
  have h4 := hj.limit_eq
  have h5 := hi.bottom_le
  have h6 := hi.markLimit_le
  have h7 := hj.top_le
  rcases Nat.lt_trichotomy i j with h | h | h
  · have := region_apart V.regionSize V.low h
    omega
  · subst h
    omega
  · have := region_apart V.regionSize V.low h
    omega

/-- The view in which `n` bytes were cut from a region, and `k` buffers more are counted. -/
def cut (V : HeapView) (i n k : Nat) : HeapView :=
  { V.setRegion i { V.region i with
      top := (V.region i).top + n, activeTlabs := (V.region i).activeTlabs + k } with
    used := V.used + n }

theorem cut_region {k : Nat} : (V.cut i n k).region j = if j = i then { V.region i with
    top := (V.region i).top + n, activeTlabs := (V.region i).activeTlabs + k } else V.region j := rfl

/-- A region that has room may be cut. -/
theorem Layout.cut {k : Nat} (L : V.Layout) (hu : (V.region i).InUse) (hn : 8 ∣ n)
    (hroom : (V.region i).top + n ≤ (V.region i).limit) (hk : k ≤ n) :
    (V.cut i n k).Layout ∧ Grows V (V.cut i n k) := by
  have hr := L.regions i
  obtain ⟨r, hrdef⟩ : ∃ r : RegionView, r = { V.region i with
      top := (V.region i).top + n, activeTlabs := (V.region i).activeTlabs + k } := ⟨_, rfl⟩
  have hcut : V.cut i n k = { V.setRegion i r with used := V.used + n } := by rw [hrdef]; rfl
  have L₁ : (V.setRegion i r).Layout := by
    rw [hrdef]
    refine L.setRegion { hr with
      markLimit_le := Nat.le_trans hr.markLimit_le (Nat.le_add_right _ _)
      top_le := hroom
      top_aligned := Nat.dvd_add hr.top_aligned hn
      tlabs_le := ?_
      empty := fun h => absurd h hu.1
      relocating := fun h => absurd h hu.2 } rfl (Nat.le_add_right _ _)
      (Nat.le_trans (L.tlabs.counted i) (Nat.le_add_right _ _)) fun _ => hu
    have := hr.tlabs_le
    have := hr.bottom_le
    have := hr.markLimit_le
    dsimp only
    omega
  have G₁ : Grows V (V.setRegion i r) := by
    rw [hrdef]
    exact Grows.setRegion (.setRegion rfl rfl rfl) rfl rfl (.inl rfl)
  exact ⟨hcut ▸ L₁.setUsed, hcut ▸ G₁.setUsed⟩

/-- **A region gives a chunk** when it has room. -/
theorem Layout.chunk_cut {k : Nat} (L : V.Layout) (hu : (V.region i).InUse) (hn : 8 ∣ n)
    (hpos : 0 < n) (hroom : (V.region i).top + n ≤ (V.region i).limit) :
    (V.cut i n k).Chunk (V.region i).top n ∧ V.index (V.region i).top = i := by
  have hr := L.regions i
  obtain ⟨a, ha⟩ : ∃ a, (V.region i).top = a := ⟨_, rfl⟩
  have hidx : V.index a = i := by
    have := hr.bottom_eq
    have := hr.bottom_le
    have := hr.markLimit_le
    have := hr.limit_eq
    exact index_eq (by omega) (by omega)
  have hreg : (V.cut i n k).regionOf a = { V.region i with
      top := (V.region i).top + n, activeTlabs := (V.region i).activeTlabs + k } := by
    show (V.cut i n k).region (V.index a) = _
    rw [hidx, cut_region, if_pos rfl]
  have hpub {o : Nat} : (V.cut i n k).Published o ↔ V.Published o :=
    published_setRegion (V := V) rfl
  have htlab {m : Nat} {t : Mutator} (hm : V.mutator? m = some t) :
      t.tlab.limit ≤ a ∨ a + n ≤ t.tlab.start := by
    by_cases h0 : t.tlab.start = 0
    · exact .inl (by have := L.tlabs.none hm h0; omega)
    · have ht := L.tlabs.ok hm h0
      have hb := (L.geometry.index_bounds ht.low_le).1
      rw [← (L.regions _).bottom_eq] at hb
      exact L.apart_of_region hb ht.below ha (ha ▸ hroom)
  rw [ha]
  refine ⟨⟨⟨?_, hpos, ?_, hn, ?_, ?_, ?_, ?_, ?_⟩, ?_, fun hm => htlab hm⟩, hidx⟩
  · have := hr.bottom_eq
    have := hr.bottom_le
    have := hr.markLimit_le
    show V.low ≤ a
    omega
  · exact ha ▸ hr.top_aligned
  · rw [hreg]
    exact ha ▸ Nat.le_refl _
  · rw [hreg]
    exact hu
  · intro o ho
    have hB := L.bounds (hpub.1 ho)
    exact L.apart_of_region hB.bottom_le (L.objects.below (hpub.1 ho)) ha (ha ▸ hroom)
  · intro m t hm
    rcases htlab hm with h | h
    · exact .inr (.inl h)
    · exact .inl h
  · intro b hb hlt
    refine L.spare b (.inl ⟨i, L.lt_maxRegions hu.1, ha.symm ▸ hb, ?_⟩)
    exact Nat.lt_of_lt_of_le hlt (ha ▸ hroom)
  · rw [hreg]
    exact ha ▸ hr.markLimit_le

/-- What was cut from a region was free. -/
theorem Layout.fills_cut {k : Nat} (L : V.Layout) (hi : i < V.maxRegions) :
    Fills V (V.cut i n k) where
  toSameRange := ⟨rfl, rfl, rfl⟩
  arena := by
    refine ⟨fun {b} h => ?_, fun h => .inl ⟨_, h, rfl, rfl, Nat.le_refl _⟩, rfl⟩
    obtain ⟨j, hj, hle, hlt⟩ := h
    rw [cut_region] at hle hlt
    by_cases he : j = i
    · rw [if_pos he] at hle hlt
      exact ⟨i, hi, Nat.le_trans (Nat.le_add_right _ _) hle, hlt⟩
    · rw [if_neg he] at hle hlt
      exact ⟨j, hj, hle, hlt⟩
  balanced h := h.setRegion hi (by
    have hb : (V.region i).bottom ≤ (V.region i).top :=
      Nat.le_trans (L.regions i).bottom_le (L.regions i).markLimit_le
    dsimp only
    omega)

theorem Counted.cut {k : Nat} {x : Option Nat} (h : V.Counted none)
    (hx : ∀ j, k * (if j = i then 1 else 0) = if x = some j then 1 else 0) :
    (V.cut i n k).Counted x := fun j => by
  have h1 := h j
  have h2 := hx j
  show ((V.cut i n k).region j).activeTlabs = V.tlabCount j + _
  rw [cut_region]
  split <;> rename_i he
  · subst he
    simp only [if_true, reduceCtorEq, if_false] at h1 h2
    dsimp only
    omega
  · simp only [he, reduceCtorEq, if_false] at h1 h2
    omega

end

/-! ## 4. Allocation in the heap of regions -/

/-- `V'` comes from `V` by taking regions that are not in use. -/
structure Takes (V V' : HeapView) : Prop extends SameSpace V V' where
  layout : V'.Layout
  grows : Grows V V'

/-- What an allocation of `n` bytes may give. -/
structure Allocated (V : HeapView) (n : Nat) (kind : AllocKind) (r : Option Nat)
    (V' : HeapView) : Prop where
  layout : V'.Layout
  grows : Grows V V'
  fills : Fills V V'
  mutators : V'.mutators = V.mutators
  counted : V.Counted none → V'.Counted (if kind = .tlab then r.map V'.index else none)
  chunk : ∀ a, r = some a → 0 < n → V'.Chunk a n ∧ n ≤ V'.regionSize ∧
    (kind = .tlab → V'.tlabCount (V'.index a) < (V'.regionOf a).activeTlabs)
  fresh : ∀ a, r = some a → 0 < n → V.arena.Fresh V'.arena a n

section
variable {V V' V'' : HeapView} {k n i : Nat} {kind : AllocKind} {r : Option Nat}

theorem Takes.refl (L : V.Layout) : Takes V V :=
  { SameSpace.refl V with layout := L, grows := Grows.refl V }

theorem Takes.trans (T : Takes V V') (T' : Takes V' V'') : Takes V V'' :=
  { T.toSameSpace.trans T'.toSameSpace with
    layout := T'.layout, grows := T.grows.trans T'.grows }

/-- Regions were taken, and none had room. -/
theorem Takes.allocated (T : Takes V V') : Allocated V n kind none V' where
  layout := T.layout
  grows := T.grows
  fills := T.toSameSpace.fills
  mutators := T.mutators
  counted h := by
    rw [Option.map_none, ite_self]
    exact T.toSameSpace.counted h
  chunk _ ha := by cases ha
  fresh _ ha := by cases ha

theorem Allocated.trans (A : Allocated V k kind none V') (A' : Allocated V' n kind r V'') :
    Allocated V n kind r V'' where
  layout := A'.layout
  grows := A.grows.trans A'.grows
  fills := A.fills.trans A'.fills
  mutators := A'.mutators.trans A.mutators
  counted h := A'.counted (by simpa using A.counted h)
  chunk := A'.chunk
  fresh a ha hn := (A'.fresh a ha hn).of_fills A.fills.arena

/-- A buffer is counted, and an allocation that is none is not. -/
theorem Layout.allocated_cut (L : V.Layout) (kind : AllocKind) (hu : (V.region i).InUse)
    (hn : 8 ∣ n) (hpos : kind = .tlab → 0 < n)
    (hroom : (V.region i).top + n ≤ (V.region i).limit) :
    Allocated V n kind (some (V.region i).top) (V.cut i n (if kind = .tlab then 1 else 0)) := by
  obtain ⟨L₁, G₁⟩ := L.cut hu hn hroom (k := if kind = .tlab then 1 else 0) (by
    split
    · exact hpos ‹_›
    · exact Nat.zero_le _)
  have C₁ (hpos : 0 < n) := L.chunk_cut hu hn hpos hroom (k := if kind = .tlab then 1 else 0)
  have hr := L.regions i
  have hidx₁ (hpos : 0 < n) : (V.cut i n (if kind = .tlab then 1 else 0)).index (V.region i).top = i :=
    (C₁ hpos).2
  refine ⟨L₁, G₁, L.fills_cut (L.lt_maxRegions hu.1), rfl, fun h => h.cut fun j => ?_,
    fun a ha hpos => ?_, fun a ha hpos => ?_⟩
  · rw [Option.map_some]
    by_cases hk : kind = .tlab
    · rw [hidx₁ (hpos hk)]
      simp [hk, eq_comm]
    · simp [hk]
  · cases ha
    refine ⟨(C₁ hpos).1, ?_, fun hk => ?_⟩
    · have := hr.limit_eq
      have := hr.bottom_le
      have := hr.markLimit_le
      show n ≤ V.regionSize
      omega
    · rw [regionOf, hidx₁ hpos, cut_region, if_pos rfl, if_pos hk]
      exact Nat.lt_succ_of_le (L.tlabs.counted i)
  · cases ha
    exact L₁.chunk_fresh (C₁ hpos).1 rfl fun b h1 h2 =>
      ⟨i, L.lt_maxRegions hu.1, h1, Nat.lt_of_lt_of_le h2 hroom⟩

end

/-- The next region is committed. -/
theorem Layout.commit {V : HeapView} (L : V.Layout) (h : V.committed < V.maxRegions) :
    Takes V { V with high := V.high + V.regionSize, committed := V.committed + 1 } := by
  have hhigh : V.high + V.regionSize = V.low + (V.committed + 1) * V.regionSize := by
    rw [L.geometry.high_eq, Nat.succ_mul, Nat.add_assoc]
  refine { SameSpace.refl V with layout := ?_, grows := ?_ }
  · exact { L with
      geometry := { L.geometry with
        high_eq := hhigh
        committed_le := h }
      regions := fun i => { L.regions i with
        uncommitted := fun hi => (L.regions i).uncommitted (Nat.le_of_succ_le hi) }
      objects := { L.objects with }
      tlabs := { L.tlabs with ok := fun h h0 => { L.tlabs.ok h h0 with } }
      buffers := { L.buffers with } }
  · exact ⟨⟨fun _ => rfl, fun _ => rfl, fun _ => rfl⟩, rfl, fun _ => rfl, fun _ => rfl,
      fun _ => .inl rfl, rfl⟩

/-- An empty region is taken into use. -/
theorem Layout.takeRegion {V : HeapView} {i : Nat} (L : V.Layout)
    (he : (V.region i).state = .empty) (hi : i < V.committed) :
    Takes V (V.setRegion i
      { V.region i with markLimit := (V.region i).top, state := .allocating }) := by
  have hr := L.regions i
  have hempty := hr.empty he
  obtain ⟨r, hrdef⟩ : ∃ r : RegionView,
    r = { V.region i with markLimit := (V.region i).top, state := .allocating } := ⟨_, rfl⟩
  have huse : r.InUse := by
    rw [hrdef]
    exact ⟨by simp, by simp⟩
  have L₁ : (V.setRegion i r).Layout := by
    rw [hrdef] at huse ⊢
    exact L.setRegion { hr with
      bottom_le := Nat.le_trans hr.bottom_le hr.markLimit_le
      markLimit_le := Nat.le_refl _
      empty := fun h => absurd h huse.1
      unmarked := fun h => absurd h huse.1
      relocating := fun h => absurd h huse.2
      kept := fun h => absurd h (by show (V.region i).evacFailed ≠ true; simp [hempty.2.1])
      uncommitted := fun h => absurd hi (Nat.not_lt.2 h) } rfl (Nat.le_refl _)
      (L.tlabs.counted i) fun _ => huse
  have G₁ : Grows V (V.setRegion i r) := by
    rw [hrdef]
    refine Grows.setRegion (.setRegion rfl rfl ?_) rfl rfl (.inr ⟨he, rfl⟩)
    exact Nat.le_antisymm (hempty.1 ▸ hr.bottom_le) hr.markLimit_le
  rw [← hrdef]
  exact ⟨SameSpace.setRegion (by rw [hrdef]) (by rw [hrdef]) (by rw [hrdef]) (by rw [hrdef]), L₁, G₁⟩

end HeapView

namespace RegionHeap

open HeapView RegionSpace

section
variable {h : RegionHeap} {s : RegionSpace} {n i : Nat} {kind : AllocKind}

/-- The region that allocations come from is in use. -/
theorem inUse_of_current (L : (putSpace s h).view.Layout) (hc : s.current kind = some i) :
    ((putSpace s h).view.region i).InUse := by
  cases kind with
  | evacuation => exact L.evacRegion i hc
  | tlab => exact L.mutatorRegion i hc
  | shared => exact L.mutatorRegion i hc

theorem ends_allocateInCurrent (L : (putSpace s h).view.Layout) (hn : 8 ∣ n)
    (hpos : kind = .tlab → 0 < n) :
    Ends (allocateInCurrent n kind) s fun r s' =>
      Allocated (putSpace s h).view n kind r (putSpace s' h).view := by
  simp only [allocateInCurrent, ends_bind, ends_get]
  cases hc : s.current kind with
  | none => exact ends_pure.2 (Takes.refl L).allocated
  | some i =>
    have hu := inUse_of_current L hc
    have hr := L.regions i
    simp only [ends_bind]
    refine (ends_onRegionOf (s := s) (L.lt_maxRegions hu.1)
      (Region.acts_allocate hn hr.top_le)).mono fun a s₁ h₁ => ?_
    obtain ⟨r, ⟨rfl, rfl⟩ | ⟨hroom, rfl, rfl⟩, hv⟩ := h₁
    · rw [setRegion_self] at hv
      simp only [ends_pure, hv]
      exact (Takes.refl L).allocated
    · have A := L.allocated_cut kind hu hn hpos hroom
      by_cases hk : kind = .tlab
      · -- The region counts the buffer, which no mutator has yet.
        simp only [hk, if_true, ends_bind]
        have hreg : (putSpace s₁ h).view.region i = { (putSpace s h).view.region i with
            top := ((putSpace s h).view.region i).top + n } := by
          rw [hv, setRegion_region_self]
        have hmax : i < (putSpace s₁ h).view.maxRegions := by
          rw [hv]
          exact L.lt_maxRegions hu.1
        have hlt : ((putSpace s₁ h).view.region i).activeTlabs + 1 < wordLimit := by
          have h1 := hr.tlabs_le
          have h2 := hr.limit_eq
          have h3 := hr.top_le
          have h4 := L.geometry.size_lt
          have h5 : 0 < (putSpace s h).view.regionSize := L.geometry.size_pos
          rw [hreg]
          dsimp only
          omega
        refine (ends_onRegionOf (s := s₁) hmax (Region.acts_tlabAllocated hlt)).mono
          fun _ s₂ h₂ => ?_
        obtain ⟨r, rfl, hv₂⟩ := h₂
        simp only [ends_modify, ends_pure]
        have hcut : (putSpace { s₂ with used := s₂.used + n } h).view =
            (putSpace s h).view.cut i n 1 := by
          show { (putSpace s₂ h).view with used := (putSpace s₂ h).view.used + n } = _
          rw [hv₂, hreg, hv, setRegion_setRegion]
          rfl
        rw [hcut]
        rwa [if_pos hk, hk] at A
      · simp only [hk, if_false, ends_bind, ends_pure, ends_modify]
        have hcut : (putSpace { s₁ with used := s₁.used + n } h).view =
            (putSpace s h).view.cut i n 0 := by
          show { (putSpace s₁ h).view with used := (putSpace s₁ h).view.used + n } = _
          rw [hv]
          rfl
        rw [hcut]
        rwa [if_neg hk] at A

/-- The number of the first region that may be taken. -/
theorem state_of_firstEmpty? (hi : s.firstEmpty? = some i) :
    ((putSpace s h).view.region i).state = .empty ∧ i < s.committed := by
  simp only [firstEmpty?] at hi
  split at hi
  · rename_i hlt
    cases hi
    have he := s.isEmptyAt_firstUnused
    refine ⟨?_, hlt⟩
    show (s.changed.getD _ (s.freshRegion _)).state = .empty
    unfold isEmptyAt at he
    rw [Std.TreeMap.getD_eq_getD_getElem?]
    cases hg : s.changed[firstUnused s.changed]? with
    | none => rfl
    | some r => simpa [hg, Region.isEmpty] using he
  · cases hi

/-- The next region is committed, if there is one. -/
theorem ends_commitNext (L : (putSpace s h).view.Layout) :
    Ends commitNext s fun r s' => Takes (putSpace s h).view (putSpace s' h).view ∧
      ∀ i, r = some i → ((putSpace s' h).view.region i).state = .empty ∧ i < s'.committed := by
  have G := L.geometry
  simp only [commitNext, ends_bind, ends_get, ends_ite, ends_pure]
  refine ⟨fun _ => ⟨Takes.refl L, fun i hi => by cases hi⟩, fun hne => ?_⟩
  have hlt : s.committed < s.maxRegions := Nat.lt_of_le_of_ne G.committed_le hne
  have hroom : s.range.high + s.regionSize ≤ s.range.boundary := by
    have h1 : (s.committed + 1) * s.regionSize ≤ s.maxRegions * s.regionSize :=
      Nat.mul_le_mul_right _ hlt
    have h2 : s.range.high = s.range.low + s.committed * s.regionSize := G.high_eq
    have h3 : s.range.boundary = s.range.low + s.maxRegions * s.regionSize := G.boundary_eq
    rw [Nat.succ_mul] at h1
    omega
  have hpage : isAligned s.regionSize pageBytes = true := isAligned_pageBytes.2 G.page
  have hleft : distance s.range.boundary s.range.high = .ok (s.range.boundary - s.range.high) :=
    distance_eq_ok.2 ⟨by omega, rfl⟩
  have hnot : ¬ s.range.boundary - s.range.high < s.regionSize := by omega
  simp only [Reservation.expand, ends_onPart, ends_bind, ends_get, ends_lift, require_eq_ok, hpage]
  refine ⟨(), trivial, _, hleft, ?_⟩
  simp only [hnot, if_false, ends_bind, ends_get, ends_set, ends_pure, ends_modify, report]
  refine ⟨L.commit hlt, fun i hi => ?_⟩
  cases hi
  exact ⟨(L.regions s.committed).uncommitted (Nat.le_refl _), Nat.lt_succ_self _⟩

/-- An empty region starts to allocate. -/
theorem ends_makeAllocating (L : (putSpace s h).view.Layout)
    (hs : ((putSpace s h).view.region i).state = .empty) (hi : i < s.committed) :
    Ends (RegionSpace.onRegion i Region.makeAllocating) s fun _ s' =>
      Takes (putSpace s h).view (putSpace s' h).view ∧
        ((putSpace s' h).view.region i).InUse := by
  refine (ends_onRegionOf (s := s) (Nat.lt_of_lt_of_le hi L.geometry.committed_le)
    (Region.acts_makeAllocating hs)).mono fun _ s₁ h₁ => ?_
  obtain ⟨r, rfl, hv⟩ := h₁
  rw [hv]
  refine ⟨L.takeRegion hs hi, ?_⟩
  rw [setRegion_region_self]
  exact ⟨by simp, by simp⟩

/-- **An empty region is taken**, a committed one if there is one. -/
theorem ends_takeEmpty (L : (putSpace s h).view.Layout) :
    Ends (takeEmpty kind) s fun r s' => Takes (putSpace s h).view (putSpace s' h).view ∧
      ∀ i, r = some i → ((putSpace s' h).view.region i).InUse := by
  simp only [takeEmpty, ends_bind, ends_get, ends_ite]
  refine ⟨fun _ => ?_, fun _ => ?_⟩
  · simp only [report, ends_modify, ends_pure]
    exact ⟨Takes.refl L, fun i hi => by cases hi⟩
  cases hf : s.firstEmpty? with
  | some i =>
    obtain ⟨hs, hi⟩ := state_of_firstEmpty? (h := h) hf
    simp only [ends_bind, ends_pure]
    refine (ends_makeAllocating L hs hi).mono fun _ s₁ h₁ => ⟨h₁.1, fun j hj => ?_⟩
    cases hj
    exact h₁.2
  | none =>
    simp only [ends_bind]
    refine (ends_commitNext L).mono fun r s₁ h₁ => ?_
    obtain ⟨T₁, hr⟩ := h₁
    cases r with
    | none => exact ends_pure.2 ⟨T₁, fun i hi => by cases hi⟩
    | some i =>
      obtain ⟨hs, hi⟩ := hr i rfl
      simp only [ends_bind, ends_pure]
      refine (ends_makeAllocating T₁.layout hs hi).mono fun _ s₂ h₂ =>
        ⟨T₁.trans h₂.1, fun j hj => ?_⟩
      cases hj
      exact h₂.2

/-- Another region in use becomes the one that allocations come from. -/
theorem ends_setCurrent (L : (putSpace s h).view.Layout)
    (hu : ((putSpace s h).view.region i).InUse) :
    Ends (setCurrent kind i) s fun _ s' => Takes (putSpace s h).view (putSpace s' h).view := by
  simp only [setCurrent, ends_modify]
  have G (s' : RegionSpace) (h1 : (putSpace s' h).view.region = (putSpace s h).view.region)
      (h2 : (putSpace s' h).view = { (putSpace s h).view with
        mutatorRegion := s'.mutatorRegion, evacRegion := s'.evacRegion }) :
      Grows (putSpace s h).view (putSpace s' h).view :=
    ⟨⟨fun _ => by rw [h1], fun _ => by rw [h1], fun _ => by rw [h1]⟩, by rw [h2],
      fun _ => by rw [h1], fun _ => by rw [h1], fun _ => .inl (by rw [h1]), by rw [h2]⟩
  cases kind with
  | evacuation =>
    refine { SameSpace.refl (putSpace s h).view with
      layout := { L with
        geometry := { L.geometry with }
        regions := fun j => { L.regions j with }
        evacRegion := fun j hj => ?_
        objects := { L.objects with }
        tlabs := { L.tlabs with ok := fun h h0 => { L.tlabs.ok h h0 with } }
        buffers := { L.buffers with } }
      grows := G _ rfl rfl }
    cases hj
    exact hu
  | tlab | shared =>
    refine { SameSpace.refl (putSpace s h).view with
      layout := { L with
        geometry := { L.geometry with }
        regions := fun j => { L.regions j with }
        mutatorRegion := fun j hj => ?_
        objects := { L.objects with }
        tlabs := { L.tlabs with ok := fun h h0 => { L.tlabs.ok h h0 with } }
        buffers := { L.buffers with } }
      grows := G _ rfl rfl }
    cases hj
    exact hu

theorem ends_allocateRounds (L : (putSpace s h).view.Layout) (hn : 8 ∣ n)
    (hpos : kind = .tlab → 0 < n) {rounds : Nat} :
    Ends (allocateRounds n kind rounds) s fun r s' =>
      Allocated (putSpace s h).view n kind r (putSpace s' h).view := by
  induction rounds generalizing s with
  | zero => exact ends_pure.2 (Takes.refl L).allocated
  | succ rounds ih =>
    simp only [allocateRounds, ends_bind]
    refine (ends_allocateInCurrent L hn hpos).mono fun r s₁ A₁ => ?_
    cases r with
    | some a => exact ends_pure.2 A₁
    | none =>
      simp only [ends_bind]
      refine (ends_takeEmpty A₁.layout).mono fun r s₂ h₂ => ?_
      obtain ⟨T₂, hr⟩ := h₂
      cases r with
      | none => exact ends_pure.2 (A₁.trans T₂.allocated)
      | some i =>
        simp only [ends_bind]
        refine (ends_setCurrent T₂.layout (hr i rfl)).mono fun _ s₃ T₃ => ?_
        exact (ih T₃.layout).mono fun r s₄ A₄ =>
          (A₁.trans (n := n) (T₂.trans T₃).allocated).trans A₄

end

section
variable {h : RegionHeap} {n : Nat} {kind : AllocKind}

/-- **Allocation in the regions** gives a chunk or nothing. -/
theorem ends_allocateIn (L : h.view.Layout) (hn : 8 ∣ n) (hpos : kind = .tlab → 0 < n) :
    Ends (allocateIn n kind) h fun r h' => Allocated h.view n kind r h'.view := by
  simp only [allocateIn, onSpace, ends_onPart, RegionSpace.allocate, ends_bind, ends_get, ends_ite]
  refine ⟨fun _ => ?_, fun _ => ?_⟩
  · simp only [report, ends_modify, ends_pure]
    exact (Takes.refl L).allocated
  · exact (ends_allocateRounds (s := h.space) L hn hpos).mono fun _ _ A => A

/-- A request for a cycle changes nothing that is seen. -/
theorem ends_requestCycle {c : Cause} :
    Ends (requestCycle c) h fun _ h' => h'.view = h.view := by
  simp only [requestCycle, ends_bind, ends_get]
  cases h.controller with
  | none => exact ends_pure.2 rfl
  | some k =>
    simp only [ends_ite, ends_bind, ends_set, note, noteAll, ends_modify, ends_pure]
    exact ⟨fun _ => ⟨fun _ => rfl, fun _ => rfl⟩, fun _ => trivial⟩

/-- Allocation outside of buffers. -/
theorem ends_allocate (L : h.view.Layout) (hn : 8 ∣ n) :
    Ends (allocate n) h fun r h' => Allocated h.view n .shared r h'.view := by
  have hn' : n % objectAlignment = 0 := by
    simp only [objectAlignment, wordBytes]
    omega
  simp only [allocate, ends_bind, ends_lift, require_eq_ok, hn']
  refine ⟨(), trivial, (ends_allocateIn L hn fun h => by cases h).mono fun r h₁ A => ?_⟩
  cases r with
  | some a => exact ends_pure.2 A
  | none =>
    simp only [ends_bind, ends_pure]
    exact ends_requestCycle.mono fun _ h₂ hv => by rw [hv]; exact A

/-- A buffer's sizing, and what is handed out. -/
structure BufferGiven (V : HeapView) (least : Nat) (z : TlabSizing) (r : Option (Nat × Nat))
    (V' : HeapView) : Prop where
  layout : V'.Layout
  grows : Grows V V'
  fills : Fills V V'
  mutators : V'.mutators = V.mutators
  counted : V.Counted none → V'.Counted (r.map fun x => V'.index x.1)
  sizing : z.size ≤ V'.regionSize
  chunk : ∀ a n, r = some (a, n) → V'.Chunk a n ∧ least ≤ n ∧
    V'.tlabCount (V'.index a) < (V'.regionOf a).activeTlabs
  fresh : ∀ a n, r = some (a, n) → V.arena.Fresh V'.arena a n

theorem BufferGiven.of_none {V V' : HeapView} {least : Nat} {z : TlabSizing}
    (A : Allocated V n .tlab none V') (hz : z.size ≤ V.regionSize) :
    BufferGiven V least z none V' where
  layout := A.layout
  grows := A.grows
  fills := A.fills
  mutators := A.mutators
  counted h := by simpa using A.counted h
  sizing := by
    rw [A.grows.frame]
    exact hz
  chunk _ _ hk := by cases hk
  fresh _ _ hk := by cases hk

/-- The next size fits into a region, and is large enough. -/
theorem next_eq_ok {t : TlabSizing} {o : Options} {least most size now : Nat}
    (hs : 8 ∣ size) (hlt : 2 * size < wordLimit) (ht : t.size ≤ size) (hm : most ≤ size)
    (hmin : o.minTlabSize ≤ TlabSizing.most o most) :
    ∃ z k, t.next least most o now = .ok (z, k) ∧ z.size ≤ size ∧
      ∀ n, k = some n → 8 ∣ n ∧ max least o.minTlabSize ≤ n ∧ n ≤ size := by
  have hup {k : Nat} (hk : k ≤ size) : alignUp k objectAlignment = (k + 7) / 8 * 8 := by
    refine alignUp_wordBytes ?_
    simp only [Object.wordLimit_eq] at *
    omega
  have hmost : TlabSizing.most o most ≤ size := Nat.le_trans (Nat.min_le_left _ _) hm
  unfold TlabSizing.next
  by_cases h1 : TlabSizing.most o most < least
  · exact ⟨t, none, by rw [if_pos h1], ht, fun n hn => by cases hn⟩
  · rw [if_neg h1]
    have hle : TlabSizing.least o least most ≤ TlabSizing.most o most := Nat.min_le_right _ _
    have hge : max least o.minTlabSize ≤ TlabSizing.least o least most := by
      unfold TlabSizing.least
      omega
    by_cases h2 : (!o.elasticTlab) = true
    · refine ⟨t, some _, by rw [if_pos h2], ht, fun n hn => ?_⟩
      cases hn
      rw [hup (by omega)]
      omega
    · rw [if_neg h2]
      have hdec : (t.decayed o now).size ≤ size := by
        unfold TlabSizing.decayed
        split
        · exact Nat.zero_le _
        · exact ht
      have hw : product (t.decayed o now).size TlabSizing.growth =
          .ok ((t.decayed o now).size * TlabSizing.growth) :=
        product_eq_ok.2 ⟨by simp only [TlabSizing.growth]; omega, rfl⟩
      refine ⟨t.decayed o now, some (alignUp (min (max ((t.decayed o now).size * TlabSizing.growth)
        (TlabSizing.least o least most)) (TlabSizing.most o most)) objectAlignment),
        by simp only [hw]; rfl, hdec, fun n hn => ?_⟩
      cases hn
      rw [hup (Nat.le_trans (Nat.min_le_right _ _) hmost)]
      omega

/-- A buffer of some size, or else of the least size that serves. -/
theorem ends_allocateTlabOf {smallest : Nat} (L : h.view.Layout) (hn : 8 ∣ n) (hpos : 0 < n)
    (hs : 8 ∣ smallest) (hspos : 0 < smallest) :
    Ends (allocateTlabOf n smallest) h fun r h' =>
      (r = none ∧ Allocated h.view n .tlab none h'.view) ∨
        ∃ a k, r = some (a, k) ∧ (k = n ∨ k = smallest) ∧
          Allocated h.view k .tlab (some a) h'.view := by
  simp only [allocateTlabOf, ends_bind]
  refine (ends_allocateIn L hn fun _ => hpos).mono fun r h₁ A => ?_
  cases r with
  | some a => exact ends_pure.2 (.inr ⟨a, n, rfl, .inl rfl, A⟩)
  | none =>
    simp only [ends_ite, ends_bind, ends_pure]
    refine ⟨fun _ => ?_, fun _ => .inl ⟨trivial, A⟩⟩
    refine (ends_allocateIn A.layout hs fun _ => hspos).mono fun r h₂ A₂ => ?_
    cases r with
    | none => exact .inl ⟨rfl, A.trans (Allocated.trans (k := smallest) A₂
        (Takes.refl A₂.layout).allocated)⟩
    | some a => exact .inr ⟨a, smallest, rfl, .inr rfl, A.trans A₂⟩

/-- **A buffer** holds at least what is asked for, and its region counts it. -/
theorem ends_allocateTlab {z : TlabSizing} (L : h.view.Layout) (hz : z.size ≤ h.view.regionSize)
    (hn : 8 ∣ n) (hpos : 0 < max n h.view.options.minTlabSize) :
    Ends (allocateTlab z n) h fun r h' => BufferGiven h.view n r.1 r.2 h'.view := by
  have G := L.geometry
  obtain ⟨z', k, hnext, hz', hk⟩ := @next_eq_ok z h.core.options n h.maxTlab
    h.view.regionSize h.core.clock G.size_aligned G.size_lt hz G.maxTlab_le G.minTlab_le
  simp only [allocateTlab, ends_bind, ends_get, ends_lift]
  refine ⟨_, hnext, ?_⟩
  cases k with
  | none => exact ends_pure.2 (BufferGiven.of_none (n := n) (Takes.refl L).allocated hz')
  | some k =>
    obtain ⟨h8, hle, hsize⟩ := hk k rfl
    have hpos : 0 < max n h.core.options.minTlabSize := hpos
    have hmin : 8 ∣ max n h.core.options.minTlabSize := by
      have : 8 ∣ h.core.options.minTlabSize := G.minTlab_aligned
      rcases Nat.le_total n h.core.options.minTlabSize with hle | hle
      · rwa [Nat.max_eq_right hle]
      · rwa [Nat.max_eq_left hle]
    simp only [ends_bind]
    refine (ends_allocateTlabOf L h8 (by omega) hmin hpos).mono fun r h₁ hr => ?_
    rcases hr with ⟨rfl, A⟩ | ⟨a, bytes, rfl, hb, A⟩
    · simp only [ends_bind, ends_pure]
      refine ends_requestCycle.mono fun _ h₂ hv => ?_
      rw [hv]
      exact BufferGiven.of_none A hz'
    · have hbytes : 0 < bytes := by omega
      obtain ⟨C, hle', hcount⟩ := A.chunk a rfl hbytes
      refine ends_pure.2 ⟨A.layout, A.grows, A.fills, A.mutators, ?_, hle', fun b k hk => ?_,
        fun b k hk => ?_⟩
      · simpa using A.counted
      · cases hk
        exact ⟨C, by rcases hb with rfl | rfl <;> omega, hcount rfl⟩
      · cases hk
        exact A.fresh a rfl hbytes

end

end RegionHeap

end ManagedHeap
