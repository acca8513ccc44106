/-
# The sizes of a heap that is built

A heap is asked for by two sizes, `InitialHeapSize` and `MaxHeapSize`, and gets both rounded up to
its granule: a page, or a region.  As natural numbers that is `roundUp`.  A word holds the larger of
the two results only up to `wordLimit`, and the reservation needs a granule more to align itself.

* Where that sum is a word, the construction does not stop: it gives the heap that was asked for if
  the system grants the reservation, and the error of the reservation otherwise
  (`Options.built_as_asked`).
* Where it is not, nothing is checked in time.  The construction stops at an assertion or gives a
  heap without memory, and never the heap that was asked for (`Options.not_built`).
-/
import ManagedHeap.Proofs.Growth
import ManagedHeap.Proofs.Rounding
import ManagedHeap.Proofs.Settings

namespace ManagedHeap

/-! ## 1. The reservation -/

/-- **A reservation** of whole granules is made unless the words overflow, and the system decides
whether it is granted. -/
theorem Reservation.make_eq {place : Place} {reserved committed g : Nat}
    (hg : isPowerOfTwo g = true) (hpage : pageBytes ≤ g) (hr : g ∣ reserved) (hc : g ∣ committed) :
    make place reserved committed g =
      if committed ≤ reserved ∧ reserved + g < wordLimit then
        if reservationLimit ≤ reserved + g then .ok (.error (.reservation reserved))
        else .ok (.ok ⟨alignUp place.address g, alignUp place.address g + committed,
          alignUp place.address g + reserved⟩)
      else .error .check := by
  have hdvd : 4096 ∣ g := page_dvd (isPowerOfTwo_of_eq_true hg) hpage
  have hres : isAligned reserved pageBytes = true :=
    isAligned_pageBytes.2 (Nat.dvd_trans hdvd hr)
  have hcom : isAligned committed pageBytes = true :=
    isAligned_pageBytes.2 (Nat.dvd_trans hdvd hc)
  by_cases hle : committed ≤ reserved
  · by_cases hlt : reserved + g < wordLimit
    · rw [if_pos ⟨hle, hlt⟩]
      simp only [make, require, sum, hg, hpage, hres, hcom, hle, hlt, and_self, if_true]
      split
      · rename_i hbig
        exact if_pos hbig
      · rename_i hsmall
        exact if_neg hsmall
    · rw [if_neg fun h => hlt h.2]
      simp only [make, require, sum, hg, hpage, hres, hle, hlt, and_self, if_true, if_false]
      rfl
  · rw [if_neg fun h => hle h.1]
    simp only [make, require, hg, hpage, hres, hle, and_self, if_true, if_false]
    rfl

/-! ## 2. What options ask for -/

namespace Options

/-- The unit in which the heap of a collector gets its memory. -/
def granule (o : Options) : Nat :=
  match o.collector with
  | .epsilon => pageBytes
  | .shenandoah => o.regionSize

/-- The bytes that are to be reserved. -/
def reservedBytes (o : Options) : Nat := roundUp o.maxHeapSize o.granule

/-- The bytes that are to be committed at first. -/
def committedBytes (o : Options) : Nat := roundUp o.initialHeapSize o.granule

/-- The reservation that a heap of either collector is built on. -/
def reserve (o : Options) (place : Place) : Except Fault (Except HeapError Reservation) :=
  Reservation.make place (alignUp o.maxHeapSize o.granule) (alignUp o.initialHeapSize o.granule)
    o.granule

variable {o : Options} {place : Place}

theorem Proper.granule (P : o.Proper) :
    isPowerOfTwo o.granule = true ∧ pageBytes ≤ o.granule ∧ o.granule < wordLimit := by
  unfold Options.granule
  cases o.collector with
  | epsilon =>
    show isPowerOfTwo pageBytes = true ∧ pageBytes ≤ pageBytes ∧ pageBytes < wordLimit
    decide
  | shenandoah =>
    have h := P.regionSize.2
    rw [isRegionSize, Bool.and_eq_true, decide_eq_true_eq] at h
    exact ⟨h.1, h.2, P.regionSize.1⟩

/-- The size of the reservation, as it is computed in words. -/
theorem Proper.alignUp_maxHeapSize (P : o.Proper) : alignUp o.maxHeapSize o.granule =
    if o.reservedBytes < wordLimit then o.reservedBytes else 0 := by
  obtain ⟨hg, -, hlt⟩ := P.granule
  exact alignUp_eq_roundUp (isPowerOfTwo_of_eq_true hg) hlt P.maxHeapSize.1

theorem Proper.alignUp_initialHeapSize (P : o.Proper) : alignUp o.initialHeapSize o.granule =
    if o.committedBytes < wordLimit then o.committedBytes else 0 := by
  obtain ⟨hg, -, hlt⟩ := P.granule
  exact alignUp_eq_roundUp (isPowerOfTwo_of_eq_true hg) hlt P.initialHeapSize.1

theorem committedBytes_le (A : o.Agree) : o.committedBytes ≤ o.reservedBytes :=
  roundUp_mono A.heap_le

/-- Sizes that stay words are reserved as they were asked for. -/
theorem reserve_eq (P : o.Proper) (A : o.Agree) (hfit : o.reservedBytes + o.granule < wordLimit) :
    o.reserve place =
      if reservationLimit ≤ o.reservedBytes + o.granule then
        .ok (.error (.reservation o.reservedBytes))
      else .ok (.ok ⟨alignUp place.address o.granule,
        alignUp place.address o.granule + o.committedBytes,
        alignUp place.address o.granule + o.reservedBytes⟩) := by
  obtain ⟨hg, hpage, -⟩ := P.granule
  have hle := committedBytes_le A
  have hmost : o.granule ∣ o.reservedBytes := dvd_roundUp
  have hfirst : o.granule ∣ o.committedBytes := dvd_roundUp
  rw [reserve, P.alignUp_maxHeapSize, P.alignUp_initialHeapSize, if_pos (by omega),
    if_pos (by omega), Reservation.make_eq hg hpage hmost hfirst, if_pos ⟨hle, hfit⟩]

/-- **Sizes that do not stay words** leave nothing to reserve, if they do not stop the
construction. -/
theorem reserve_of_le (P : o.Proper) (hover : wordLimit ≤ o.reservedBytes + o.granule)
    {r : Reservation} (hr : o.reserve place = .ok (.ok r)) : r.committed = 0 ∧ r.reserved = 0 := by
  obtain ⟨hg, hpage, hlt⟩ := P.granule
  have hpow := isPowerOfTwo_of_eq_true hg
  have hmost := P.alignUp_maxHeapSize
  rw [reserve, Reservation.make_eq hg hpage (dvd_alignUp hpow hlt) (dvd_alignUp hpow hlt)] at hr
  split at hr
  · rename_i hok
    split at hr
    · cases hr
    · cases hr
      -- Otherwise the room to align the reservation would have been missed.
      have hwrap : ¬ o.reservedBytes < wordLimit := fun hr => by
        rw [hmost, if_pos hr] at hok
        exact Nat.not_lt.2 hover hok.2
      rw [if_neg hwrap] at hmost
      have hfirst : alignUp o.initialHeapSize o.granule = 0 := Nat.le_zero.1 (hmost ▸ hok.1)
      simp only [Reservation.committed, Reservation.reserved, hmost, hfirst]
      omega
  · cases hr

/-- A construction that ends, with the heap that was asked for or with an error that says why there
is none. -/
def Builds {H : Type} [Heap H] (o : Options) (made : Except Fault (Except HeapError H)) : Prop :=
  if reservationLimit ≤ o.reservedBytes + o.granule then
    made = .ok (.error (.reservation o.reservedBytes))
  else ∃ h, made = .ok (.ok h) ∧ Heap.capacity h = o.committedBytes ∧
    Heap.maxCapacity h = o.reservedBytes ∧ Heap.capacity h ≤ Heap.maxCapacity h

end Options

/-! ## 3. From the reservation to the heap -/

/-- A construction that goes the way of the reservation: a heap that is made has the sizes of what
is reserved. -/
def Reservation.Decides {H : Type} [Heap H] (x : Except Fault (Except HeapError Reservation))
    (made : Except Fault (Except HeapError H)) : Prop :=
  match x with
  | .error f => made = .error f
  | .ok (.error e) => made = .ok (.error e)
  | .ok (.ok r) => ∃ h, made = .ok (.ok h) ∧ Heap.capacity h = r.committed ∧
    Heap.maxCapacity h = r.reserved

section
variable {o : Options} {place : Place}

/-- The regions that are left to evacuation are counted in words. -/
theorem Options.Proper.product_share (P : o.Proper) {n g k : Nat} (hn : n + k < reservationLimit) :
    product (n / g) o.evacReserve = .ok (n / g * o.evacReserve) := by
  have hlimit : reservationLimit = 140737488355328 := rfl
  have hword : wordLimit = 18446744073709551616 := rfl
  have hpercent : o.evacReserve ≤ 100 := of_decide_eq_true P.evacReserve.2
  have hcount := Nat.div_le_self n g
  have hle : n / g * o.evacReserve ≤ 140737488355328 * 100 := Nat.mul_le_mul (by omega) hpercent
  exact product_eq_ok.2 ⟨by omega, rfl⟩

/-- Regions are made on the reservation. -/
theorem RegionSpace.exists_of_reservation (P : o.Proper) {r : Reservation}
    (hr : Reservation.make place (alignUp o.maxHeapSize o.regionSize)
      (alignUp o.initialHeapSize o.regionSize) o.regionSize = .ok (.ok r)) :
    ∃ s, RegionSpace.make place o = .ok (.ok s) ∧ s.range = r :=
  have hshare := P.product_share (g := o.regionSize) (Reservation.granted_of_make hr).size_lt
  ⟨_, Except.bind_eq_ok.2 ⟨_, hr, Except.bind_eq_ok.2 ⟨_, hshare, rfl⟩⟩, rfl⟩

theorem BumpHeap.decides_make (hc : o.collector = .epsilon) (hv : o.validate = .ok (.ok ())) :
    Reservation.Decides (o.reserve place) (BumpHeap.make place o) := by
  have hg : o.granule = pageBytes := by rw [Options.granule, hc]
  unfold Options.reserve BumpHeap.make
  rw [hg, hv]
  change Reservation.Decides _ (Reservation.make _ _ _ _ >>= _)
  cases hx : Reservation.make place (alignUp o.maxHeapSize pageBytes)
    (alignUp o.initialHeapSize pageBytes) pageBytes with
  | error f => rfl
  | ok x =>
    cases x with
    | error e => rfl
    | ok r =>
      have G := Reservation.granted_of_make hx
      have hspace : BumpSpace.make "epsilon" r.low r.high = .ok ⟨"epsilon", r.low, r.low, r.high⟩ :=
        Except.bind_eq_ok.2 ⟨(), require_eq_ok.2 (by rw [G.high_eq]; omega), rfl⟩
      exact ⟨_, Except.bind_eq_ok.2 ⟨_, rfl, Except.bind_eq_ok.2 ⟨_, hspace, rfl⟩⟩, rfl, rfl⟩

theorem RegionHeap.decides_make (hc : o.collector = .shenandoah) (P : o.Proper)
    (hv : o.validate = .ok (.ok ())) :
    Reservation.Decides (o.reserve place) (RegionHeap.make place o) := by
  have hg : o.granule = o.regionSize := by rw [Options.granule, hc]
  unfold Options.reserve RegionHeap.make
  rw [hg, if_neg (not_not.2 hc), hv]
  change Reservation.Decides _ (RegionSpace.make _ _ >>= _)
  cases hx : Reservation.make place (alignUp o.maxHeapSize o.regionSize)
    (alignUp o.initialHeapSize o.regionSize) o.regionSize with
  | error f =>
    have hs : RegionSpace.make place o = .error f := by
      rw [RegionSpace.make, hx]
      rfl
    rw [hs]
    rfl
  | ok x =>
    cases x with
    | error e =>
      have hs : RegionSpace.make place o = .ok (.error e) := Except.bind_eq_ok.2 ⟨_, hx, rfl⟩
      rw [hs]
      rfl
    | ok r =>
      obtain ⟨s, hs, rfl⟩ := RegionSpace.exists_of_reservation P hx
      rw [hs]
      exact ⟨_, rfl, rfl, rfl⟩

end

namespace Options

section
variable {H : Type} [Heap H] {o : Options} {place : Place} {made : Except Fault (Except HeapError H)}

theorem builds_of_decides (D : Reservation.Decides (o.reserve place) made) (P : o.Proper)
    (A : o.Agree) (hfit : o.reservedBytes + o.granule < wordLimit) : o.Builds made := by
  have hle := committedBytes_le A
  rw [reserve_eq P A hfit] at D
  unfold Builds
  split
  · rename_i hbig
    rw [if_pos hbig] at D
    exact D
  · rename_i hsmall
    rw [if_neg hsmall] at D
    obtain ⟨h, hm, hcap, hmax⟩ := D
    rw [Reservation.committed, Nat.add_sub_cancel_left] at hcap
    rw [Reservation.reserved, Nat.add_sub_cancel_left] at hmax
    exact ⟨h, hm, hcap, hmax, by rw [hcap, hmax]; exact hle⟩

theorem no_memory_of_decides (D : Reservation.Decides (o.reserve place) made) (P : o.Proper)
    (hover : wordLimit ≤ o.reservedBytes + o.granule) {h : H} (hm : made = .ok (.ok h)) :
    Heap.capacity h = 0 ∧ Heap.maxCapacity h = 0 := by
  cases hx : o.reserve place with
  | error f =>
    rw [hx] at D
    cases D.symm.trans hm
  | ok x =>
    rw [hx] at D
    cases x with
    | error e => cases D.symm.trans hm
    | ok r =>
      obtain ⟨h', hm', hcap, hmax⟩ := D
      cases hm'.symm.trans hm
      obtain ⟨h1, h2⟩ := reserve_of_le P hover hx
      exact ⟨hcap.trans h1, hmax.trans h2⟩

end

/-! ## 4. The result -/

variable {o : Options} {place : Place}

/-- **The construction fails fast or gives the heap that was asked for**, as long as the reserved
size with a granule to align it is a word: there is a heap of exactly the sizes that were asked
for, rounded up to the granule, or the error of a reservation that the system refuses. -/
theorem built_as_asked (hr : o.Reached) (hv : o.validate = .ok (.ok ()))
    (hfit : o.reservedBytes + o.granule < wordLimit) :
    (o.collector = .epsilon → o.Builds (BumpHeap.make place o)) ∧
      (o.collector = .shenandoah → o.Builds (RegionHeap.make place o)) := by
  obtain ⟨A, -⟩ := of_validate hv
  exact ⟨fun hc => builds_of_decides (BumpHeap.decides_make hc hv) hr.proper A hfit,
    fun hc => builds_of_decides (RegionHeap.decides_make hc hr.proper hv) hr.proper A hfit⟩

/-- A heap of regions whose sizes are no multiples of a region. -/
def unevenHeap : Options where
  collector := .shenandoah
  regionSize := 4096
  maxHeapSize := 62000
  initialHeapSize := 15000

theorem reached_unevenHeap : unevenHeap.Reached := by
  have h : Options.setAll {} [("Collector", "Shenandoah"), ("RegionSize", "4K"),
      ("MaxHeapSize", "62000"), ("InitialHeapSize", "15000")] = .ok unevenHeap := by decide +kernel
  exact (Reached.builtin 1 (by decide)).setAll h

/-- Four regions are committed of sixteen. -/
theorem built_as_asked_unevenHeap : unevenHeap.committedBytes = 16384 ∧
    unevenHeap.reservedBytes = 65536 ∧ unevenHeap.Builds (RegionHeap.make Place.first unevenHeap) :=
  ⟨by decide, by decide,
    (built_as_asked reached_unevenHeap (by decide +kernel) (by decide)).2 rfl⟩

/-- **Beyond that no heap has the memory that was asked for**: one that is given has none. -/
theorem not_built (hr : o.Reached) (hv : o.validate = .ok (.ok ()))
    (hover : wordLimit ≤ o.reservedBytes + o.granule) :
    (o.collector = .epsilon → ∀ h, BumpHeap.make place o = .ok (.ok h) →
      h.capacity = 0 ∧ h.maxCapacity = 0) ∧
    (o.collector = .shenandoah → ∀ h, RegionHeap.make place o = .ok (.ok h) →
      h.capacity = 0 ∧ h.maxCapacity = 0) :=
  ⟨fun hc _ hm => no_memory_of_decides (BumpHeap.decides_make hc hv) hr.proper hover hm,
    fun hc _ hm => no_memory_of_decides (RegionHeap.decides_make hc hr.proper hv) hr.proper hover hm⟩

/-- The largest size of whole pages, and no more than a page of it to begin with. -/
def topmostHeap : Options where
  maxHeapSize := 18446744073709547520
  initialHeapSize := 4096

/-- The largest size that can be set. -/
def wrappingHeap : Options where
  maxHeapSize := 18446744073709551615
  initialHeapSize := 18446744073709551615

/-- **Sizes at the top of the range** are accepted, but the construction stops at an overflow or
gives a heap without memory, where the reservation should have been refused. -/
theorem fails_at_the_top :
    (topmostHeap.Reached ∧ topmostHeap.validate = .ok (.ok ()) ∧
      topmostHeap.collector = .epsilon ∧
      BumpHeap.make Place.first topmostHeap = .error .check) ∧
    wrappingHeap.Reached ∧ wrappingHeap.validate = .ok (.ok ()) ∧
      wrappingHeap.collector = .epsilon ∧
      ∃ h, BumpHeap.make Place.first wrappingHeap = .ok (.ok h) ∧ h.capacity = 0 ∧
        h.maxCapacity = 0 := by
  have htop : Options.setAll {} [("MaxHeapSize", "18446744073709547520"),
      ("InitialHeapSize", "4096")] = .ok topmostHeap := by decide +kernel
  have hwrap : Options.setAll {} [("MaxHeapSize", "18446744073709551615"),
      ("InitialHeapSize", "18446744073709551615")] = .ok wrappingHeap := by decide +kernel
  have hvtop : topmostHeap.validate = .ok (.ok ()) := by decide +kernel
  have hvwrap : wrappingHeap.validate = .ok (.ok ()) := by decide +kernel
  have Dtop : Reservation.Decides (topmostHeap.reserve Place.first)
    (BumpHeap.make Place.first topmostHeap) := BumpHeap.decides_make rfl hvtop
  have Dwrap : Reservation.Decides (wrappingHeap.reserve Place.first)
    (BumpHeap.make Place.first wrappingHeap) := BumpHeap.decides_make rfl hvwrap
  rw [show topmostHeap.reserve Place.first = .error .check by decide +kernel] at Dtop
  rw [show wrappingHeap.reserve Place.first = .ok (.ok ⟨1 <<< 46, 1 <<< 46, 1 <<< 46⟩) by
    decide +kernel] at Dwrap
  exact ⟨⟨(Reached.builtin 1 (by decide)).setAll htop, hvtop, rfl, Dtop⟩,
    (Reached.builtin 1 (by decide)).setAll hwrap, hvwrap, rfl, Dwrap⟩

end Options

end ManagedHeap
