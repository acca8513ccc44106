/-
# A heap that was built

Options that are accepted give a heap in which nothing is in use: its regions are empty, no object
is published, and the ideal heap it stands for has no objects.  The reservation has the alignment
of a region, which is a power of two and no less than a page, and ends below the root cells.
-/
import ManagedHeap.Proofs.Recycling
import ManagedHeap.Proofs.Settings
import ManagedHeap.Builder

namespace ManagedHeap

/-! ## 1. The reservation -/

/-- A power of two that is no less than a page is a multiple of one. -/
theorem page_dvd {n : Nat} (h : n.isPowerOfTwo) (hle : 4096 ≤ n) : 4096 ∣ n := by
  obtain ⟨k, rfl⟩ := h
  have hk : 12 ≤ k := by
    by_contra hlt
    have : 2 ^ k ≤ 2 ^ 11 := Nat.pow_le_pow_right (by decide) (by omega)
    omega
  exact (Nat.pow_dvd_pow 2 hk : 2 ^ 12 ∣ 2 ^ k)

/-- What is aligned to a power of two is a multiple of it, wrapped around or not. -/
theorem dvd_alignUp {n align : Nat} (h : align.isPowerOfTwo) (hlt : align < wordLimit) :
    align ∣ alignUp n align := by
  rw [alignUp, alignDown_of_isPowerOfTwo h hlt]
  exact Nat.dvd_mul_left _ _

/-- What is known of a reservation that the system granted. -/
structure Reservation.Granted (r : Reservation) (reserved committed alignment : Nat) : Prop where
  power : alignment.isPowerOfTwo
  page_le : 4096 ≤ alignment
  low_pos : 0 < r.low
  low_aligned : alignment ∣ r.low
  high_eq : r.high = r.low + committed
  boundary_eq : r.boundary = r.low + reserved
  committed_le : committed ≤ reserved
  size_lt : reserved + alignment < reservationLimit
  boundary_le : r.boundary ≤ rootBase

theorem Reservation.granted_of_make {place : Place} {reserved committed alignment : Nat}
    {r : Reservation} (h : Reservation.make place reserved committed alignment = .ok (.ok r)) :
    r.Granted reserved committed alignment := by
  simp only [Reservation.make, Except.bind_eq_ok, require_eq_ok, sum_eq_ok] at h
  obtain ⟨-, ⟨hpow, hpage⟩, -, -, -, hcom, n, ⟨-, rfl⟩, h⟩ := h
  split at h
  · cases h
  · rename_i hlt
    obtain ⟨-, -, h⟩ := Except.bind_eq_ok.1 h
    cases h
    have hpow' := isPowerOfTwo_of_eq_true hpow
    have hlimit : reservationLimit = 140737488355328 := rfl
    have hword : wordLimit = 18446744073709551616 := rfl
    have hbase : rootBase = 4503599627370496 := rfl
    have hpl := place.address_lt
    have hpos := place.address_pos
    have hal : alignment < wordLimit := by omega
    have hlow : alignUp place.address alignment =
        (place.address + (alignment - 1)) / alignment * alignment :=
      alignUp_of_isPowerOfTwo hpow' hal (by omega)
    have hge : place.address ≤ alignUp place.address alignment := by
      have h1 := Nat.div_add_mod (place.address + (alignment - 1)) alignment
      have h2 := Nat.mod_lt (place.address + (alignment - 1)) (Nat.pos_of_isPowerOfTwo hpow')
      rw [hlow, Nat.mul_comm]
      omega
    have hle : alignUp place.address alignment ≤ place.address + (alignment - 1) := by
      rw [hlow]
      exact Nat.div_mul_le_self _ _
    exact
      { power := hpow'
        page_le := hpage
        low_pos := by show 0 < alignUp place.address alignment; omega
        low_aligned := dvd_alignUp hpow' hal
        high_eq := rfl
        boundary_eq := rfl
        committed_le := hcom
        size_lt := by omega
        boundary_le := by
          show alignUp place.address alignment + reserved ≤ rootBase
          omega }

/-! ## 2. The regions -/

/-- What is known of regions that were just made. -/
structure RegionSpace.Fresh (s : RegionSpace) (o : Options) : Prop where
  granted : s.range.Granted (alignUp o.maxHeapSize o.regionSize)
    (alignUp o.initialHeapSize o.regionSize) o.regionSize
  size : s.regionSize = o.regionSize
  committed : s.committed = alignUp o.initialHeapSize o.regionSize / o.regionSize
  used : s.used = 0
  changed : s.changed = ∅
  mutatorRegion : s.mutatorRegion = none
  evacRegion : s.evacRegion = none

theorem RegionSpace.fresh_of_make {place : Place} {o : Options} {s : RegionSpace}
    (h : RegionSpace.make place o = .ok (.ok s)) : s.Fresh o := by
  obtain ⟨x, hx, h⟩ := Except.bind_eq_ok.1 h
  cases x with
  | error e => cases h
  | ok range =>
    obtain ⟨share, -, h⟩ := Except.bind_eq_ok.1 h
    cases h
    exact ⟨Reservation.granted_of_make hx, rfl, rfl, rfl, rfl, rfl, rfl⟩

/-- Options without a conflict are accepted. -/
theorem Options.conflict?_of_validate {o : Options} (h : o.validate = .ok (.ok ())) :
    o.conflict? = .ok none := by
  unfold validate at h
  generalize o.conflict? = x at h
  cases x with
  | error e => cases h
  | ok c =>
    cases c with
    | none => rfl
    | some c => cases h

/-- What ties the sizes of a heap to each other. -/
structure Options.Agree (o : Options) : Prop where
  tlab_le : o.minTlabSize ≤ o.maxTlabSize
  heap_le : o.initialHeapSize ≤ o.maxHeapSize
  minTlab_aligned : 8 ∣ o.minTlabSize
  maxTlab_aligned : 8 ∣ o.maxTlabSize

/-- What ties the size of a region to the other sizes. -/
structure Options.AgreeRegions (o : Options) : Prop where
  two_lt : 2 * o.regionSize < wordLimit
  two_le : 2 * o.regionSize ≤ o.maxHeapSize
  minTlab_le : o.minTlabSize ≤ o.regionSize

/-- What the check of the options ensures. -/
theorem Options.of_validate {o : Options} (h : o.validate = .ok (.ok ())) :
    o.Agree ∧ (o.collector = .shenandoah → o.AgreeRegions) := by
  replace h := conflict?_of_validate h
  unfold conflict? at h
  split at h
  · cases h
  · rename_i htlab
    split at h
    · cases h
    · rename_i hheap
      split at h
      · cases h
      · rename_i hal
        simp only [Bool.or_eq_true, Bool.not_eq_true', not_or, Bool.not_eq_false] at hal
        refine ⟨⟨Nat.not_lt.1 htlab, Nat.not_lt.1 hheap, isAligned_wordBytes.1 hal.1,
          isAligned_wordBytes.1 hal.2⟩, fun hc => ?_⟩
        rw [hc] at h
        obtain ⟨n, hn, h⟩ := Except.bind_eq_ok.1 h
        obtain ⟨hlt, rfl⟩ := product_eq_ok.1 hn
        split at h
        · cases h
        · split at h
          · cases h
          · exact ⟨hlt, Nat.not_lt.1 ‹_›, Nat.not_lt.1 ‹_›⟩

/-! ## 3. The heap -/

namespace HeapView

/-- A heap that nothing has happened to. -/
structure Pristine (V : HeapView) : Prop where
  geometry : V.Geometry
  used : V.used = 0
  region : ∀ i, V.region i = (Region.fresh i (V.low + i * V.regionSize) V.regionSize).view
  memory : V.memory = {}
  roots : V.roots = {}
  mutators : V.mutators = #[]
  mutatorRegion : V.mutatorRegion = none
  evacRegion : V.evacRegion = none
  satb : V.satb = { capacity := V.satb.capacity }
  grey : V.grey = ∅
  gcState : V.gcState = .idle
  phase : V.phase = .idle
  joined : V.joined = 0
  pending : V.pending = false

end HeapView

namespace RegionHeap

open HeapView

/-- The geometry of regions that were just made. -/
theorem geometry_of_fresh {V : HeapView} {s : RegionSpace} {o : Options} (F : s.Fresh o)
    (hlow : V.low = s.range.low) (hhigh : V.high = s.range.high)
    (hboundary : V.boundary = s.range.boundary) (hsize : V.regionSize = s.regionSize)
    (hcom : V.committed = s.committed) (ho : V.options = o) (A : o.Agree) (R : o.AgreeRegions)
    (htlab : V.maxTlab = alignDown (min o.maxTlabSize s.regionSize) objectAlignment) :
    V.Geometry := by
  have G := F.granted
  have hlt := R.two_lt
  have hpos : 0 < o.regionSize := Nat.pos_of_isPowerOfTwo G.power
  have hword : o.regionSize < wordLimit := by omega
  have hpage := page_dvd G.power G.page_le
  have hsize' : V.regionSize = o.regionSize := hsize.trans F.size
  have hmax : V.maxRegions = alignUp o.maxHeapSize o.regionSize / o.regionSize := by
    rw [maxRegions, hboundary, hlow, hsize', G.boundary_eq, Nat.add_sub_cancel_left]
  -- Both bounds of a buffer are multiples of a word, so nothing is cut off from the lower one.
  have hmost : V.maxTlab = min o.maxTlabSize o.regionSize := by
    have hword8 : 8 ∣ o.regionSize := Nat.dvd_trans (by decide) hpage
    have h8 : 8 ∣ min o.maxTlabSize o.regionSize := by
      rcases Nat.le_total o.maxTlabSize o.regionSize with h | h
      · rw [Nat.min_eq_left h]
        exact A.maxTlab_aligned
      · rw [Nat.min_eq_right h]
        exact hword8
    rw [htlab, F.size, objectAlignment, alignDown_wordBytes, Nat.div_mul_cancel h8]
  exact
    { low_pos := hlow ▸ G.low_pos
      page := hsize' ▸ hpage
      low_aligned := hlow ▸ Nat.dvd_trans hpage G.low_aligned
      size_pos := hsize' ▸ hpos
      size_lt := hsize' ▸ hlt
      boundary_eq := by
        rw [hmax, hsize', Nat.div_mul_cancel (dvd_alignUp G.power hword), hboundary, hlow,
          G.boundary_eq]
      boundary_le := hboundary ▸ G.boundary_le
      high_eq := by
        rw [hcom, F.committed, hsize', Nat.div_mul_cancel (dvd_alignUp G.power hword), hhigh, hlow,
          G.high_eq]
      committed_le := by
        rw [hcom, F.committed, hmax]
        exact Nat.div_le_div_right G.committed_le
      maxTlab_le := by
        rw [hmost, hsize']
        exact Nat.min_le_right _ _
      minTlab_aligned := ho ▸ A.minTlab_aligned
      minTlab_le := by
        have := A.tlab_le
        have := R.minTlab_le
        rw [TlabSizing.most, hmost, ho]
        omega }

theorem pristine_of_make {place : Place} {o : Options} {h : RegionHeap}
    (hm : RegionHeap.make place o = .ok (.ok h)) : h.view.Pristine ∧ h.view.options = o := by
  unfold RegionHeap.make at hm
  split at hm
  · cases hm
  · rename_i hc
    replace hc : o.collector = .shenandoah := Decidable.not_not.1 hc
    obtain ⟨x, hx, hm⟩ := Except.bind_eq_ok.1 hm
    cases x with
    | error e => cases hm
    | ok u =>
      obtain ⟨A, R⟩ := Options.of_validate hx
      obtain ⟨y, hy, hm⟩ := Except.bind_eq_ok.1 hm
      cases y with
      | error e => cases hm
      | ok space =>
        cases hm
        have F := RegionSpace.fresh_of_make hy
        refine ⟨⟨geometry_of_fresh F rfl rfl rfl rfl rfl rfl A (R hc) rfl, F.used, fun i => ?_, rfl,
          rfl, rfl, F.mutatorRegion, F.evacRegion, rfl, rfl, rfl, rfl, rfl, rfl⟩, rfl⟩
        show (space.changed.getD i (space.freshRegion i)).view = _
        rw [F.changed]
        simp [RegionSpace.freshRegion]
        rfl

end RegionHeap

/-- What is known of a heap that was just built. -/
def World.first : World := { objects := ∅, name := fun _ => 0, ideal := {} }

namespace HeapView

section
variable {V : HeapView}

theorem Pristine.not_published (U : V.Pristine) (o : Nat) : ¬ V.Published o := by
  rw [Published, regionOf, U.region]
  exact AddressSet.not_has_of_bits_eq_empty rfl

theorem Pristine.regionOk (U : V.Pristine) (i : Nat) : V.RegionOk i (V.region i) := by
  have hal : 8 ∣ V.low + i * V.regionSize :=
    Nat.dvd_trans (by decide) (U.geometry.region_aligned i)
  rw [U.region]
  exact
    { bottom_eq := rfl
      limit_eq := rfl
      bottom_le := Nat.le_refl _
      markLimit_le := Nat.le_refl _
      top_le := Nat.le_add_right _ _
      top_aligned := hal
      marks := AddressSet.fits_make hal
      starts := AddressSet.fits_make hal
      tlabs_le := Nat.zero_le _
      empty := fun _ => ⟨rfl, rfl, fun _ => AddressSet.not_has_of_bits_eq_empty rfl⟩
      unmarked := fun _ => ⟨rfl, fun _ => AddressSet.not_has_of_bits_eq_empty rfl⟩
      relocating := fun h => by cases h
      kept := fun h => by cases h
      uncommitted := fun _ => rfl }

theorem Pristine.layout (U : V.Pristine) : V.Layout := by
  have hnone {m : Nat} {t : Mutator} (hm : V.mutator? m = some t) : False := by
    rw [mutator?, U.mutators] at hm
    simp at hm
  have hbuffers : V.satb.buffers = [{ id := 0 }] := by rw [U.satb]
  have hregistered : V.satb.registered = 1 := by rw [U.satb]
  exact
    { geometry := U.geometry
      regions := U.regionOk
      mutatorRegion := fun i h => by rw [U.mutatorRegion] at h; cases h
      evacRegion := fun i h => by rw [U.evacRegion] at h; cases h
      objects := ⟨fun h => (U.not_published _ h).elim, fun h => (U.not_published _ h).elim,
        fun h => (U.not_published _ h).elim⟩
      tlabs := ⟨fun h => (hnone h).elim, fun h => (hnone h).elim, fun h => (hnone h).elim,
        fun _ h => (hnone h).elim, fun h => (hnone h).elim, fun i => by
          rw [tlabCount, U.mutators]
          exact Nat.zero_le _⟩
      spare := fun b _ => by
        rw [U.memory]
        rfl
      buffers := ⟨by rw [hregistered]; decide, by rw [hbuffers]; simp, fun b hb => by
        rw [hbuffers] at hb
        rw [List.mem_singleton.1 hb, hregistered]
        decide, by rw [hbuffers]; exact ⟨_, List.mem_singleton.2 rfl, rfl⟩,
        fun h => (hnone h).elim, fun h => (hnone h).elim, fun _ h => (hnone h).elim⟩
      roots := fun c hc => by
        rw [U.roots] at hc
        cases hc }

theorem Pristine.not_recorded (U : V.Pristine) (v : Nat) : ¬ V.satb.Recorded v := by
  rw [U.satb]
  rintro (⟨b, hb, hv⟩ | ⟨l, hl, -⟩)
  · rw [List.mem_singleton.1 hb] at hv
    simp at hv
  · simp at hl

/-- **A heap that was built** satisfies the invariant. -/
theorem Pristine.inv (U : V.Pristine) : V.Inv World.first .idle [] := by
  have hpub {o : Nat} (h : V.Published o) : False := U.not_published o h
  have hmem {o : Nat} (h : o ∈ World.first.objects) : False := h
  refine ⟨U.layout, ?_, fun h => by cases h⟩
  exact
    { published := fun h => (hmem h).elim
      count_pos := Nat.one_pos
      name_zero := rfl
      name_pos := fun h => (hmem h).elim
      name_lt := fun h => (hmem h).elim
      name_inj := fun h => (hmem h).elim
      refs := fun h => (hmem h).elim
      bytes := fun h => (hmem h).elim
      fields := fun h => (hmem h).elim
      words := fun h => (hmem h).elim
      roots := fun hc => by rw [U.roots] at hc; cases hc
      registered := by rw [U.roots]; rfl
      status := fun h => (hpub h).elim
      excused := fun {i} h => by rw [U.region] at h; cases h
      states := fun i => by rw [U.region]; exact ⟨by simp [Region.view, Region.fresh], fun _ => by
        simp [Region.view, Region.fresh]⟩
      survivors := fun _ _ h => (hpub h).elim
      live := fun h => by cases h
      copied := fun h => by simp at h
      unrecorded := fun _ => U.not_recorded }

end

end HeapView

/-! ## 4. Building -/

namespace RegionHeap

open HeapView

/-- The controller that a built heap has is not seen. -/
theorem ends_startController {h : RegionHeap} :
    Ends startController h fun _ h' => h'.view = h.view := by
  simp only [startController, ends_bind, ends_get, ends_ite, ends_set, ends_pure]
  refine ⟨fun _ => ?_, fun _ => trivial⟩
  simp only [note, noteAll, ends_modify]
  rfl

/-- A relocating heap is made by `RegionHeap.make`. -/
theorem make_of_anyHeap {place : Place} {c : Collector} {o : Options} {h : RegionHeap}
    (hm : AnyHeap.make place c o = .ok (.ok (.region h))) :
    RegionHeap.make place o = .ok (.ok h) := by
  cases c with
  | epsilon =>
    obtain ⟨x, -, hm⟩ := Except.bind_eq_ok.1 hm
    cases x <;> cases hm
  | shenandoah =>
    obtain ⟨x, hx, hm⟩ := Except.bind_eq_ok.1 hm
    cases x with
    | error e => cases hm
    | ok h' =>
      cases hm
      exact hx

/-- A heap is built in two steps: it is made, and its controller is started. -/
theorem exists_make_of_build {place : Place} {o : Options} {h : RegionHeap}
    (hb : AnyHeap.build place o = .ok (.ok (.region h))) :
    ∃ g u, RegionHeap.make place o = .ok (.ok g) ∧ startController g = .ok u h := by
  obtain ⟨x, hx, hb⟩ := Except.bind_eq_ok.1 hb
  cases x with
  | error e => cases hb
  | ok g =>
    obtain ⟨y, hy, hb⟩ := Except.bind_eq_ok.1 hb
    cases hb
    cases g with
    | bump g => cases hy
    | region g =>
      obtain ⟨u, g', hg, -⟩ := ends_startController (h := g)
      simp only [AnyHeap.startController, hg] at hy
      cases hy
      exact ⟨g, u, make_of_anyHeap hx, hg⟩

/-- **A relocating heap that was built** is untouched, whatever the options are. -/
theorem pristine_of_build {place : Place} {o : Options} {h : RegionHeap}
    (hb : AnyHeap.build place o = .ok (.ok (.region h))) : h.view.Pristine := by
  obtain ⟨g, u, hg, hs⟩ := exists_make_of_build hb
  exact (ends_startController.of_ok hs) ▸ (pristine_of_make hg).1

theorem options_of_build {place : Place} {o : Options} {h : RegionHeap}
    (hb : AnyHeap.build place o = .ok (.ok (.region h))) : h.view.options = o := by
  obtain ⟨g, u, hg, hs⟩ := exists_make_of_build hb
  exact (ends_startController.of_ok hs) ▸ (pristine_of_make hg).2

end RegionHeap

end ManagedHeap
