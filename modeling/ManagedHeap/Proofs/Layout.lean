/-
# The layout of a heap

`Layout` is the invariant of the storage: where the regions are, that objects, allocation buffers
and what was never allocated are apart, and that memory which is not in use reads as zero.  It says
nothing about what objects refer to, and so it holds in every phase of a cycle.

An allocation gives a `Claim`: a range that reads as zero and belongs to nothing yet.  A claim
becomes an object when its header is written and its start is set (`Layout.publish`), or the buffer
of a mutator (`Layout.refill`).

The sections follow the parts of a state.  For each part there is one lemma that says which changes
of it keep the layout; the operations of the heap are built from these.
-/
import ManagedHeap.Proofs.View

namespace ManagedHeap

/-- A region that objects may be allocated in, or that marking has just left. -/
def RegionView.InUse (r : RegionView) : Prop := r.state ≠ .empty ∧ r.state ≠ .relocating

/-- A range is outside of a buffer, or was allocated from it. -/
def Tlab.Apart (t : Tlab) (a n : Nat) : Prop :=
  a + n ≤ t.start ∨ t.limit ≤ a ∨ (t.start ≤ a ∧ a + n ≤ t.cursor)

namespace HeapView

/-! ## 1. The invariant -/

/-- What the options and the reservation fix. -/
structure Geometry (V : HeapView) : Prop where
  low_pos : 0 < V.low
  page : 4096 ∣ V.regionSize
  low_aligned : 4096 ∣ V.low
  size_pos : 0 < V.regionSize
  size_lt : 2 * V.regionSize < wordLimit
  boundary_eq : V.boundary = V.low + V.maxRegions * V.regionSize
  boundary_le : V.boundary ≤ rootBase
  high_eq : V.high = V.low + V.committed * V.regionSize
  committed_le : V.committed ≤ V.maxRegions
  maxTlab_le : V.maxTlab ≤ V.regionSize
  minTlab_aligned : 8 ∣ V.options.minTlabSize
  minTlab_le : V.options.minTlabSize ≤ TlabSizing.most V.options V.maxTlab

/-- The bounds of a region, and what its state says about it. -/
structure RegionOk (V : HeapView) (i : Nat) (r : RegionView) : Prop where
  bottom_eq : r.bottom = V.low + i * V.regionSize
  limit_eq : r.limit = r.bottom + V.regionSize
  bottom_le : r.bottom ≤ r.markLimit
  markLimit_le : r.markLimit ≤ r.top
  top_le : r.top ≤ r.limit
  top_aligned : 8 ∣ r.top
  marks : r.marks.Fits r.bottom V.regionSize
  starts : r.starts.Fits r.bottom V.regionSize
  tlabs_le : r.activeTlabs ≤ r.top - r.bottom
  empty : r.state = .empty → r.top = r.bottom ∧ r.evacFailed = false ∧ ∀ a, ¬ r.starts.Has a
  unmarked : r.state = .empty → r.markedBytes = 0 ∧ ∀ a, ¬ r.marks.Has a
  relocating : r.state = .relocating → r.activeTlabs = 0
  kept : r.evacFailed = true → r.state = .relocating
  uncommitted : V.committed ≤ i → r.state = .empty

/-- Every published object has a header, lies below the top of its region, and is apart from the
others. -/
structure Objects (V : HeapView) : Prop where
  fits : ∀ {o}, V.Published o → Object.Fits V.memory o
  below : ∀ {o}, V.Published o → o + Object.size V.memory o ≤ (V.regionOf o).top
  apart : ∀ {o o'}, V.Published o → V.Published o' → o < o' → o + Object.size V.memory o ≤ o'

/-- The bounds of a buffer in use. -/
structure TlabOk (V : HeapView) (t : Tlab) : Prop where
  low_le : V.low ≤ t.start
  start_aligned : 8 ∣ t.start
  start_le : t.start ≤ t.cursor
  cursor_le : t.cursor ≤ t.limit
  cursor_aligned : 8 ∣ t.cursor
  below : t.limit ≤ (V.regionOf t.start).top
  nonempty : t.start < t.limit

/-- Whether a mutator has a buffer in a region. -/
def hasTlabIn (V : HeapView) (i : Nat) (t : Option Mutator) : Bool :=
  t.any fun t => t.tlab.start != 0 && V.index t.tlab.start == i

/-- How many mutators have a buffer in a region. -/
def tlabCount (V : HeapView) (i : Nat) : Nat := V.mutators.toList.countP (V.hasTlabIn i)

/-- The buffers are apart from each other and from the objects, and their regions count them. -/
structure Tlabs (V : HeapView) : Prop where
  ok : ∀ {m t}, V.mutator? m = some t → t.tlab.start ≠ 0 → V.TlabOk t.tlab
  none : ∀ {m t}, V.mutator? m = some t → t.tlab.start = 0 → t.tlab.cursor = 0 ∧ t.tlab.limit = 0
  objects : ∀ {m t o}, V.mutator? m = some t → V.Published o →
    t.tlab.Apart o (Object.size V.memory o)
  apart : ∀ {m m' t t'}, m ≠ m' → V.mutator? m = some t → V.mutator? m' = some t' →
    t.tlab.limit ≤ t'.tlab.start ∨ t'.tlab.limit ≤ t.tlab.start
  sizing : ∀ {m t}, V.mutator? m = some t → t.sizing.size ≤ V.regionSize
  counted : ∀ i, V.tlabCount i ≤ (V.region i).activeTlabs

/-- A byte above the top of its region. -/
def Untouched (V : HeapView) (b : Nat) : Prop :=
  ∃ i < V.maxRegions, (V.region i).top ≤ b ∧ b < (V.region i).limit

/-- A byte that is left in the buffer of a mutator. -/
def Left (V : HeapView) (b : Nat) : Prop :=
  ∃ m t, V.mutator? m = some t ∧ t.tlab.cursor ≤ b ∧ b < t.tlab.limit

/-- A byte that is free. -/
def Spare (V : HeapView) (b : Nat) : Prop := V.Untouched b ∨ V.Left b

/-- Each mutator records in a registered buffer of its own, and so does compiled code. -/
structure Buffers (V : HeapView) : Prop where
  pos : 0 < V.satb.registered
  nodup : (V.satb.buffers.map (·.id)).Nodup
  lt : ∀ b ∈ V.satb.buffers, b.id < V.satb.registered
  shared : ∃ b ∈ V.satb.buffers, b.id = SatbQueues.shared
  registered : ∀ {m t}, V.mutator? m = some t → ∃ b ∈ V.satb.buffers, b.id = t.buffer
  not_shared : ∀ {m t}, V.mutator? m = some t → t.buffer ≠ SatbQueues.shared
  own : ∀ {m m' t t'}, m ≠ m' → V.mutator? m = some t → V.mutator? m' = some t' →
    t.buffer ≠ t'.buffer

/-- Root cells are outside of the heap. -/
def RootsOk (V : HeapView) : Prop :=
  ∀ c ∈ V.roots.cells, ∃ k < V.roots.registered, c.slot = rootBase + 8 * k

/-- The invariant of the storage. -/
structure Layout (V : HeapView) : Prop where
  geometry : V.Geometry
  regions : ∀ i, V.RegionOk i (V.region i)
  mutatorRegion : ∀ i, V.mutatorRegion = some i → (V.region i).InUse
  evacRegion : ∀ i, V.evacRegion = some i → (V.region i).InUse
  objects : V.Objects
  tlabs : V.Tlabs
  spare : ∀ b, V.Spare b → V.memory.read b = 0
  buffers : V.Buffers
  roots : V.RootsOk

/-- A range that was allocated and belongs to nothing yet. -/
structure Claim (V : HeapView) (a n : Nat) : Prop where
  low_le : V.low ≤ a
  pos : 0 < n
  aligned : 8 ∣ a
  size_aligned : 8 ∣ n
  below : a + n ≤ (V.regionOf a).top
  inUse : (V.regionOf a).InUse
  objects : ∀ {o}, V.Published o → o + Object.size V.memory o ≤ a ∨ a + n ≤ o
  tlabs : ∀ {m t}, V.mutator? m = some t → t.tlab.Apart a n
  zero : ∀ b, a ≤ b → b < a + n → V.memory.read b = 0

/-! ## 2. Addresses and regions -/

section
variable {V : HeapView} {a i o : Nat}

/-- An address is in the region with its index. -/
theorem Geometry.index_bounds (G : V.Geometry) (h : V.low ≤ a) :
    V.low + V.index a * V.regionSize ≤ a ∧
      a < V.low + V.index a * V.regionSize + V.regionSize := by
  have h₁ := Nat.div_add_mod (a - V.low) V.regionSize
  have h₂ := Nat.mod_lt (a - V.low) G.size_pos
  simp only [index]
  rw [Nat.mul_comm]
  omega

theorem index_eq (h : V.low + i * V.regionSize ≤ a)
    (h' : a < V.low + i * V.regionSize + V.regionSize) : V.index a = i := by
  refine Nat.div_eq_of_lt_le (by omega) ?_
  rw [Nat.succ_mul]
  omega

theorem Geometry.lt_high (G : V.Geometry) (h : V.low ≤ a) (hi : V.index a < V.committed) :
    a < V.high := by
  have hb := (G.index_bounds h).2
  have : (V.index a + 1) * V.regionSize ≤ V.committed * V.regionSize :=
    Nat.mul_le_mul_right _ hi
  rw [Nat.succ_mul] at this
  rw [G.high_eq]
  omega

theorem Geometry.region_aligned (G : V.Geometry) (i : Nat) :
    4096 ∣ V.low + i * V.regionSize :=
  Nat.dvd_add G.low_aligned (Nat.dvd_mul_left_of_dvd G.page i)

theorem Geometry.size_aligned (G : V.Geometry) : 8 ∣ V.regionSize :=
  Nat.dvd_trans (by decide) G.page

/-- A region in use is committed. -/
theorem Layout.committed_of_state (L : V.Layout) (h : (V.region i).state ≠ .empty) :
    i < V.committed := by
  by_contra hn
  exact h ((L.regions i).uncommitted (Nat.le_of_not_lt hn))

theorem Layout.lt_maxRegions (L : V.Layout) (h : (V.region i).state ≠ .empty) :
    i < V.maxRegions := Nat.lt_of_lt_of_le (L.committed_of_state h) L.geometry.committed_le

/-- Regions are below the root cells. -/
theorem Layout.limit_le (L : V.Layout) (hi : i < V.maxRegions) :
    (V.region i).limit ≤ rootBase := by
  have h1 : (i + 1) * V.regionSize ≤ V.maxRegions * V.regionSize := Nat.mul_le_mul_right _ hi
  have h2 := L.geometry.boundary_eq
  have h3 := L.geometry.boundary_le
  have h4 := (L.regions i).bottom_eq
  have h5 := (L.regions i).limit_eq
  rw [Nat.succ_mul] at h1
  omega

/-- Where a published object is. -/
structure Layout.Bounds (V : HeapView) (o : Nat) : Prop where
  low_le : V.low ≤ o
  bottom_le : (V.regionOf o).bottom ≤ o
  lt_top : o < (V.regionOf o).top
  lt_limit : o < (V.regionOf o).limit
  state : (V.regionOf o).state ≠ .empty
  committed : V.index o < V.committed
  lt_max : V.index o < V.maxRegions
  lt_high : o < V.high
  end_le : o + Object.size V.memory o ≤ rootBase
  pos : 0 < o
  aligned : 8 ∣ o

theorem Layout.bounds (L : V.Layout) (h : V.Published o) : Layout.Bounds V o := by
  have hr := L.regions (V.index o)
  have hb := hr.starts.has_bounds h
  have hs : (V.regionOf o).state ≠ .empty := fun he => (hr.empty he).2.2 o h
  have hc := L.committed_of_state hs
  have hlow : V.low ≤ o := by
    have := hr.bottom_eq
    omega
  have hf := L.objects.fits h
  have htop := L.objects.below h
  have hfl := hf.fields_le
  have hle := hr.top_le
  have hlim := hr.limit_eq
  have hmax := Nat.lt_of_lt_of_le hc L.geometry.committed_le
  have hend := L.limit_le hmax
  exact ⟨hlow, hb.1, Nat.lt_of_lt_of_le (by omega) htop, by rw [regionOf]; omega, hs, hc, hmax,
    L.geometry.lt_high hlow hc, Nat.le_trans htop (Nat.le_trans hle hend), hf.pos, hf.aligned⟩

/-- Different objects share no byte. -/
theorem Layout.disjoint (L : V.Layout) {p : Nat} (h : V.Published o) (h' : V.Published p)
    (hne : o ≠ p) :
    o + Object.size V.memory o ≤ p ∨ p + Object.size V.memory p ≤ o := by
  rcases Nat.lt_or_gt_of_ne hne with hlt | hlt
  · exact .inl (L.objects.apart h h' hlt)
  · exact .inr (L.objects.apart h' h hlt)

theorem Layout.start_le_cursor (L : V.Layout) {m : Nat} {t : Mutator}
    (hm : V.mutator? m = some t) : t.tlab.start ≤ t.tlab.cursor := by
  by_cases h0 : t.tlab.start = 0
  · omega
  · exact (L.tlabs.ok hm h0).start_le

/-- What is left of a buffer is not in a range that is apart from it. -/
theorem Layout.left_outside (L : V.Layout) {b m n : Nat} {t : Mutator}
    (hm : V.mutator? m = some t) (h : t.tlab.Apart a n) (hc : t.tlab.cursor ≤ b)
    (hl : b < t.tlab.limit) : b < a ∨ a + n ≤ b := by
  have := L.start_le_cursor hm
  rcases h with h | h | ⟨-, h⟩ <;> omega

/-- A byte that was never allocated is in the heap, above the top of its region. -/
theorem Layout.of_untouched (L : V.Layout) {b : Nat} (h : V.Untouched b) :
    V.index b < V.maxRegions ∧ V.low ≤ b ∧ (V.regionOf b).top ≤ b := by
  obtain ⟨i, hi, hle, hlt⟩ := h
  have hr := L.regions i
  have h1 := hr.bottom_eq
  have h2 := hr.bottom_le
  have h3 := hr.markLimit_le
  have h4 := hr.limit_eq
  have e : V.index b = i := index_eq (by omega) (by omega)
  rw [regionOf, e]
  exact ⟨hi, by omega, hle⟩

/-- No byte of an object is free. -/
theorem Layout.not_spare (L : V.Layout) {b : Nat} (h : V.Published o) (hb : o ≤ b)
    (hlt : b < o + Object.size V.memory o) : ¬ V.Spare b := by
  have hB := L.bounds h
  have htop := L.objects.below h
  have hr := L.regions (V.index o)
  rintro (hu | ⟨m, t, hm, hc, hl⟩)
  · have hi := (L.of_untouched hu).2.2
    have e : V.index b = V.index o := by
      refine index_eq ?_ ?_
      · have := hr.bottom_eq
        have := hB.bottom_le
        simp only [regionOf] at *
        omega
      · have := hr.bottom_eq
        have := hr.limit_eq
        have := hr.top_le
        simp only [regionOf] at *
        omega
    rw [regionOf, e] at hi
    simp only [regionOf] at htop
    omega
  · rcases L.left_outside hm (L.tlabs.objects hm h) hc hl with h1 | h1 <;> omega

/-- What is free is in the heap. -/
theorem Layout.spare_lt (L : V.Layout) {b : Nat} (h : V.Spare b) : b < rootBase := by
  rcases h with ⟨i, hi, -, hlt⟩ | ⟨m, t, hm, hc, hl⟩
  · exact Nat.lt_of_lt_of_le hlt (L.limit_le hi)
  · by_cases h0 : t.tlab.start = 0
    · have := L.tlabs.none hm h0
      omega
    · have ht := L.tlabs.ok hm h0
      have hs : (V.regionOf t.tlab.start).state ≠ .empty := fun he => by
        have h1 := (L.regions _).empty he
        have h2 := (L.regions (V.index t.tlab.start)).bottom_eq
        have h3 := (L.geometry.index_bounds ht.low_le).1
        have h4 := ht.below
        have h5 := ht.nonempty
        simp only [regionOf] at h4
        omega
      have := L.limit_le (L.lt_maxRegions hs)
      have := (L.regions (V.index t.tlab.start)).top_le
      have := ht.below
      simp only [regionOf] at *
      omega

end

/-! ## 3. Writes to memory -/

section
variable {V : HeapView} {a n o b : Nat}

/-- The layout reads the layout words of objects and what is free, and nothing else. -/
theorem Layout.setMemory (L : V.Layout) {m : Memory}
    (hl : ∀ o, V.Published o → m.read (o + 8) = V.memory.read (o + 8))
    (hs : ∀ b, V.Spare b → m.read b = V.memory.read b) : ({ V with memory := m }).Layout := by
  have hsize {o : Nat} (h : V.Published o) : Object.size m o = Object.size V.memory o := by
    simp only [Object.size, wordBytes, hl o h]
  refine { L with
    geometry := { L.geometry with }
    regions := fun i => { L.regions i with }
    objects := ⟨fun h => (L.objects.fits h).congr (hl _ h), fun h => ?_, fun h h' hlt => ?_⟩
    tlabs := { L.tlabs with
      ok := fun h h0 => { L.tlabs.ok h h0 with }
      objects := fun hm h => ?_ }
    spare := fun b h => (hs b h).trans (L.spare b h)
    buffers := { L.buffers with } }
  · exact (hsize h).symm ▸ L.objects.below h
  · exact (hsize h).symm ▸ L.objects.apart h h' hlt
  · exact (hsize h).symm ▸ L.tlabs.objects hm h

/-- A word of an object other than the layout word may be written. -/
theorem Layout.write_object (L : V.Layout) (h : V.Published o) {v : Nat} (hb : o ≤ b)
    (hlt : b < o + Object.size V.memory o) (hne : b ≠ o + 8) :
    ({ V with memory := V.memory.write b v }).Layout := by
  refine L.setMemory (fun o' h' => Memory.read_write_of_ne _ (fun e => ?_) _) fun c hc =>
    Memory.read_write_of_ne _ (fun e => L.not_spare h hb hlt (by rw [e]; exact hc)) _
  have hf := (L.objects.fits h').fields_le
  by_cases he : o = o'
  · exact hne (by omega)
  · rcases L.disjoint h h' he with h1 | h1 <;> omega

/-- A root cell may be written. -/
theorem Layout.write_root (L : V.Layout) {v : Nat} (hb : rootBase ≤ b) :
    ({ V with memory := V.memory.write b v }).Layout := by
  refine L.setMemory (fun o h => Memory.read_write_of_ne _ ?_ _) fun c hc =>
    Memory.read_write_of_ne _ ?_ _
  · have := (L.bounds h).end_le
    have := (L.objects.fits h).fields_le
    omega
  · have := L.spare_lt hc
    omega

/-- A claim reads its own words. -/
theorem Claim.setMemory (C : V.Claim a n) {m : Memory}
    (hl : ∀ o, V.Published o → m.read (o + 8) = V.memory.read (o + 8))
    (hs : ∀ b, a ≤ b → b < a + n → m.read b = V.memory.read b) :
    ({ V with memory := m }).Claim a n := by
  refine { C with
    objects := fun {o} h => ?_
    zero := fun b hb hlt => (hs b hb hlt).trans (C.zero b hb hlt) }
  have hsize : Object.size m o = Object.size V.memory o := by
    simp only [Object.size, wordBytes, hl o h]
  exact hsize.symm ▸ C.objects h

end

/-! ## 4. Changes of a region -/

section
variable {V : HeapView} {a n i o : Nat} {r : RegionView}

theorem published_setRegion (hs : r.starts = (V.region i).starts) :
    (V.setRegion i r).Published o ↔ V.Published o := by
  have hidx : (V.setRegion i r).index o = V.index o := rfl
  by_cases he : V.index o = i
  · simp only [Published, regionOf, hidx, he, setRegion_region_self, hs]
  · simp only [Published, regionOf, hidx, setRegion_region_of_ne he]

theorem live_setRegion (hl : r.markLimit = (V.region i).markLimit)
    (hm : r.marks = (V.region i).marks) : (V.setRegion i r).Live o ↔ V.Live o := by
  have hidx : (V.setRegion i r).index o = V.index o := rfl
  by_cases he : V.index o = i
  · simp only [Live, regionOf, hidx, he, setRegion_region_self, hl, hm]
  · simp only [Live, regionOf, hidx, setRegion_region_of_ne he]

theorem relocating_setRegion (hs : r.state = (V.region i).state) :
    (V.setRegion i r).Relocating o ↔ V.Relocating o := by
  have hidx : (V.setRegion i r).index o = V.index o := rfl
  by_cases he : V.index o = i
  · simp only [Relocating, regionOf, hidx, he, setRegion_region_self, hs]
  · simp only [Relocating, regionOf, hidx, setRegion_region_of_ne he]

theorem kept_setRegion (hk : r.evacFailed = (V.region i).evacFailed) :
    (V.setRegion i r).Kept o ↔ V.Kept o := by
  have hidx : (V.setRegion i r).index o = V.index o := rfl
  by_cases he : V.index o = i
  · simp only [Kept, regionOf, hidx, he, setRegion_region_self, hk]
  · simp only [Kept, regionOf, hidx, setRegion_region_of_ne he]

/-- Regions may change in everything but their objects, as long as no top goes down. -/
theorem Layout.setRegions (L : V.Layout) {region : Nat → RegionView}
    (hok : ∀ j, V.RegionOk j (region j)) (hs : ∀ j, (region j).starts = (V.region j).starts)
    (htop : ∀ j, (V.region j).top ≤ (region j).top)
    (hcount : ∀ j, V.tlabCount j ≤ (region j).activeTlabs)
    (hcur : ∀ j, V.mutatorRegion = some j ∨ V.evacRegion = some j → (region j).InUse) :
    ({ V with region := region }).Layout := by
  have hpub {o : Nat} : ({ V with region := region } : HeapView).Published o ↔ V.Published o := by
    show (region (V.index o)).starts.Has o ↔ _
    rw [hs]
    rfl
  refine ⟨{ L.geometry with }, fun j => { hok j with }, fun j hj => hcur j (.inl hj),
    fun j hj => hcur j (.inr hj), ⟨?_, ?_, ?_⟩,
    ⟨?_, L.tlabs.none, ?_, L.tlabs.apart, L.tlabs.sizing, hcount⟩, fun b hb => ?_,
    { L.buffers with }, L.roots⟩
  · exact fun h => L.objects.fits (hpub.1 h)
  · exact fun h => Nat.le_trans (L.objects.below (hpub.1 h)) (htop _)
  · exact fun h h' => L.objects.apart (hpub.1 h) (hpub.1 h')
  · intro m t hm h0
    have ht := L.tlabs.ok hm h0
    exact { ht with below := Nat.le_trans ht.below (htop _) }
  · exact fun hm h => L.tlabs.objects hm (hpub.1 h)
  · refine L.spare b ?_
    rcases hb with ⟨j, hj, hle, hlt⟩ | hb
    · refine .inl ⟨j, hj, Nat.le_trans (htop j) hle, ?_⟩
      replace hlt : b < (region j).limit := hlt
      rw [(hok j).limit_eq, (hok j).bottom_eq] at hlt
      rw [(L.regions j).limit_eq, (L.regions j).bottom_eq]
      exact hlt
    · exact .inr hb

/-- A region may change in everything but its objects, as long as its top does not go down. -/
theorem Layout.setRegion (L : V.Layout) (hok : V.RegionOk i r)
    (hs : r.starts = (V.region i).starts) (htop : (V.region i).top ≤ r.top)
    (hcount : V.tlabCount i ≤ r.activeTlabs)
    (hcur : V.mutatorRegion = some i ∨ V.evacRegion = some i → r.InUse) :
    (V.setRegion i r).Layout := by
  refine L.setRegions (fun j => ?_) (fun j => ?_) (fun j => ?_) (fun j => ?_) fun j hj => ?_
  all_goals by_cases he : j = i
  · subst he
    rw [if_pos rfl]
    exact hok
  · rw [if_neg he]
    exact L.regions j
  · subst he
    rw [if_pos rfl]
    exact hs
  · rw [if_neg he]
  · subst he
    rw [if_pos rfl]
    exact htop
  · exact Nat.le_of_eq (by rw [if_neg he])
  · subst he
    rw [if_pos rfl]
    exact hcount
  · rw [if_neg he]
    exact L.tlabs.counted j
  · subst he
    rw [if_pos rfl]
    exact hcur hj
  · rw [if_neg he]
    exact hj.elim (L.mutatorRegion j) (L.evacRegion j)

/-- A claim stays one when regions stay in use. -/
theorem Claim.setRegion (C : V.Claim a n) (hs : r.starts = (V.region i).starts)
    (htop : (V.region i).top ≤ r.top) (huse : V.index a = i → r.InUse) :
    (V.setRegion i r).Claim a n := by
  have hidx : (V.setRegion i r).index a = V.index a := rfl
  refine { C with
    below := ?_
    inUse := ?_
    objects := fun h => C.objects ((published_setRegion hs).1 h) }
  · refine Nat.le_trans C.below ?_
    rw [regionOf, regionOf, setRegion_region, hidx]
    split
    · rename_i he
      exact he ▸ htop
    · exact Nat.le_refl _
  · rw [regionOf, setRegion_region, hidx]
    split
    · exact huse ‹_›
    · exact C.inUse

end

/-! ## 5. Changes of a mutator -/

/-- The view with a mutator replaced. -/
def setMutator (V : HeapView) (m : Nat) (t : Option Mutator) : HeapView :=
  { V with mutators := V.mutators.setIfInBounds m t }

section
variable {V : HeapView} {a n i o m m' : Nat} {t t' : Mutator} {x : Option Mutator}

theorem lt_size_of_mutator? (hm : V.mutator? m = some t) : m < V.mutators.size := by
  by_contra hn
  simp [mutator?, Array.getElem?_eq_none (Nat.le_of_not_lt hn)] at hm

theorem mutator?_setMutator (hm : V.mutator? m = some t) :
    (V.setMutator m x).mutator? m' = if m' = m then x else V.mutator? m' := by
  have hlt := lt_size_of_mutator? hm
  simp only [mutator?, setMutator, Array.getElem?_setIfInBounds, eq_comm (a := m), hlt, if_true]
  split <;> rfl

/-- How many mutators have a property changes with the one that is replaced. -/
theorem countP_setMutator {p : Option Mutator → Bool} (hm : V.mutator? m = some t) :
    (V.setMutator m x).mutators.toList.countP p + (if p (some t) then 1 else 0) =
      V.mutators.toList.countP p + (if p x then 1 else 0) := by
  have hlt : m < V.mutators.toList.length := by simpa using lt_size_of_mutator? hm
  have hget : V.mutators.toList[m] = some t := by
    have : V.mutators[m]?.join = some t := hm
    rw [Array.getElem?_eq_getElem (by simpa using hlt)] at this
    simpa using this
  have hpos : p (some t) = true → 0 < V.mutators.toList.countP p :=
    fun h => List.countP_pos_iff.2 ⟨_, List.getElem_mem hlt, by rw [hget]; exact h⟩
  have hset : (V.setMutator m x).mutators.toList = V.mutators.toList.set m x := by
    simp only [setMutator, Array.toList_setIfInBounds]
  rw [hset, List.countP_set hlt, hget]
  by_cases h : p (some t) = true
  · have := hpos h
    simp only [h, if_true]
    omega
  · simp only [h]
    simp

/-- A mutator counts for the region of its buffer. -/
theorem tlabCount_setMutator (hm : V.mutator? m = some t) :
    (V.setMutator m x).tlabCount i + (if V.hasTlabIn i (some t) then 1 else 0) =
      V.tlabCount i + (if V.hasTlabIn i x then 1 else 0) := countP_setMutator hm

/-- The region of a buffer is in use, and counts it. -/
theorem Layout.tlab_region (L : V.Layout) (hm : V.mutator? m = some t) (h0 : t.tlab.start ≠ 0) :
    0 < (V.regionOf t.tlab.start).activeTlabs ∧ (V.regionOf t.tlab.start).InUse := by
  have hlt := lt_size_of_mutator? hm
  have hpos : 0 < V.tlabCount (V.index t.tlab.start) := by
    refine List.countP_pos_iff.2 ⟨some t, ?_, by simp [hasTlabIn, h0]⟩
    have : V.mutators[m]?.join = some t := hm
    rw [Array.getElem?_eq_getElem hlt] at this
    simp only [Option.join_some] at this
    rw [← this]
    simp
  have hcount := L.tlabs.counted (V.index t.tlab.start)
  have hr := L.regions (V.index t.tlab.start)
  have hact : 0 < (V.region (V.index t.tlab.start)).activeTlabs := by omega
  refine ⟨hact, fun he => ?_, fun he => ?_⟩
  · have := (hr.empty he).1
    have := hr.tlabs_le
    omega
  · have := hr.relocating he
    omega

/-- An address of a buffer is in the region of its start. -/
theorem Layout.tlab_index (L : V.Layout) (hm : V.mutator? m = some t) (h0 : t.tlab.start ≠ 0)
    (ha : t.tlab.start ≤ a) (hlt : a < t.tlab.limit) : V.index a = V.index t.tlab.start := by
  have ht := L.tlabs.ok hm h0
  have hr := L.regions (V.index t.tlab.start)
  have hb := L.geometry.index_bounds ht.low_le
  have h1 := ht.below
  have h2 := hr.top_le
  have h3 := hr.limit_eq
  have h4 := hr.bottom_eq
  simp only [regionOf] at h1
  exact index_eq (by omega) (by omega)

/-- A mutator may change its buffer for one that is apart from all else and counted. -/
theorem Layout.setMutator (L : V.Layout) (hm : V.mutator? m = some t)
    (hbuf : t'.buffer = t.buffer) (hsize : t'.sizing.size ≤ V.regionSize)
    (hok : t'.tlab.start ≠ 0 → V.TlabOk t'.tlab)
    (hnone : t'.tlab.start = 0 → t'.tlab.cursor = 0 ∧ t'.tlab.limit = 0)
    (hobj : ∀ o, V.Published o → t'.tlab.Apart o (Object.size V.memory o))
    (hothers : ∀ m' u, m' ≠ m → V.mutator? m' = some u →
      t'.tlab.limit ≤ u.tlab.start ∨ u.tlab.limit ≤ t'.tlab.start)
    (hzero : ∀ b, t'.tlab.cursor ≤ b → b < t'.tlab.limit → V.memory.read b = 0)
    (hcount : ∀ i, V.hasTlabIn i (some t') = true → V.hasTlabIn i (some t) = true ∨
      V.tlabCount i < (V.region i).activeTlabs) :
    (V.setMutator m (some t')).Layout := by
  have hget {m' : Nat} {u : Mutator} (h : (V.setMutator m (some t')).mutator? m' = some u) :
      (m' = m ∧ u = t') ∨ (m' ≠ m ∧ V.mutator? m' = some u) := by
    rw [mutator?_setMutator hm] at h
    split at h
    · exact .inl ⟨‹_›, by simpa using h.symm⟩
    · exact .inr ⟨‹_›, h⟩
  refine { L with
    geometry := { L.geometry with }
    regions := fun i => { L.regions i with }
    objects := { L.objects with }
    tlabs := ⟨?_, ?_, ?_, ?_, ?_, fun i => ?_⟩
    spare := ?_
    buffers := ⟨L.buffers.pos, L.buffers.nodup, L.buffers.lt, L.buffers.shared, ?_, ?_, ?_⟩ }
  · intro m' u h h0
    rcases hget h with ⟨rfl, rfl⟩ | ⟨-, h⟩
    · exact { hok h0 with }
    · exact { L.tlabs.ok h h0 with }
  · intro m' u h h0
    rcases hget h with ⟨rfl, rfl⟩ | ⟨-, h⟩
    · exact hnone h0
    · exact L.tlabs.none h h0
  · intro m' u o h ho
    rcases hget h with ⟨rfl, rfl⟩ | ⟨-, h⟩
    · exact hobj o ho
    · exact L.tlabs.objects h ho
  · intro m₁ m₂ u₁ u₂ hne h₁ h₂
    rcases hget h₁ with ⟨rfl, rfl⟩ | ⟨hm₁, g₁⟩ <;> rcases hget h₂ with ⟨rfl, rfl⟩ | ⟨hm₂, g₂⟩
    · exact absurd rfl hne
    · exact hothers _ _ hm₂ g₂
    · exact (hothers _ _ hm₁ g₁).symm
    · exact L.tlabs.apart hne g₁ g₂
  · intro m' u h
    rcases hget h with ⟨rfl, rfl⟩ | ⟨-, h⟩
    · exact hsize
    · exact L.tlabs.sizing h
  · have h₁ := tlabCount_setMutator (i := i) (x := some t') hm
    have h₂ := L.tlabs.counted i
    show (V.setMutator m (some t')).tlabCount i ≤ (V.region i).activeTlabs
    by_cases h : V.hasTlabIn i (some t') = true
    · rcases hcount i h with h' | h' <;> simp only [h, h', if_true] at h₁
      · omega
      · split at h₁ <;> omega
    · simp only [h] at h₁
      split at h₁ <;> simp at h₁ <;> omega
  · rintro b (hb | ⟨m', u, h, hc, hl⟩)
    · exact L.spare b (.inl hb)
    · rcases hget h with ⟨rfl, rfl⟩ | ⟨-, h⟩
      · exact hzero b hc hl
      · exact L.spare b (.inr ⟨_, _, h, hc, hl⟩)
  · intro m' u h
    rcases hget h with ⟨rfl, rfl⟩ | ⟨-, h⟩
    · rw [hbuf]
      exact L.buffers.registered hm
    · exact L.buffers.registered h
  · intro m' u h
    rcases hget h with ⟨rfl, rfl⟩ | ⟨-, h⟩
    · rw [hbuf]
      exact L.buffers.not_shared hm
    · exact L.buffers.not_shared h
  · intro m₁ m₂ u₁ u₂ hne h₁ h₂
    rcases hget h₁ with ⟨rfl, rfl⟩ | ⟨hm₁, g₁⟩ <;> rcases hget h₂ with ⟨rfl, rfl⟩ | ⟨hm₂, g₂⟩
    · exact absurd rfl hne
    · rw [hbuf]
      exact L.buffers.own hne hm g₂
    · rw [hbuf]
      exact L.buffers.own hne g₁ hm
    · exact L.buffers.own hne g₁ g₂

/-- The sizing of a mutator's next buffer may change. -/
theorem Layout.setSizing (L : V.Layout) (hm : V.mutator? m = some t) {z : TlabSizing}
    (hz : z.size ≤ V.regionSize) : (V.setMutator m (some { t with sizing := z })).Layout := by
  refine L.setMutator hm rfl hz (fun h => ?_) (fun h => ?_) (fun o ho => ?_) (fun m' u hne h => ?_)
    (fun b hc hl => ?_) fun _ h => .inl h
  · exact L.tlabs.ok (t := t) hm h
  · exact L.tlabs.none (t := t) hm h
  · exact L.tlabs.objects (t := t) hm ho
  · exact L.tlabs.apart (t := t) (Ne.symm hne) hm h
  · exact L.spare b (.inr ⟨m, t, hm, hc, hl⟩)

/-- A mutator may give up its buffer; what is left of it stays unused. -/
theorem Layout.giveUp (L : V.Layout) (hm : V.mutator? m = some t) :
    (V.setMutator m (some { t with tlab := {} })).Layout := by
  have hs := L.tlabs.sizing hm
  exact L.setMutator hm rfl hs (fun h => absurd rfl h) (fun _ => ⟨rfl, rfl⟩)
    (fun _ _ => .inr (.inl (Nat.zero_le _))) (fun _ _ _ _ => .inl (Nat.zero_le _))
    (fun b _ hl => absurd hl (Nat.not_lt_zero b)) (fun i h => absurd h (by simp [hasTlabIn]))

/-- **A claim becomes the buffer of a mutator** that has none, if its region counts it. -/
theorem Layout.refill (L : V.Layout) (hm : V.mutator? m = some t) (C : V.Claim a n)
    (hothers : ∀ m' u, V.mutator? m' = some u → u.tlab.limit ≤ a ∨ a + n ≤ u.tlab.start)
    (hc : V.tlabCount (V.index a) < (V.regionOf a).activeTlabs) :
    (V.setMutator m (some { t with tlab := ⟨a, a, a + n⟩ })).Layout := by
  have hpos : 0 < a := Nat.lt_of_lt_of_le L.geometry.low_pos C.low_le
  have hs := L.tlabs.sizing hm
  refine L.setMutator hm rfl hs (fun _ => ?_) (fun h => ?_)
    (fun o ho => (C.objects ho).imp_right .inl) (fun m' u _ h => ?_)
    (fun b hb hl => C.zero b hb hl) fun i h => ?_
  · exact ⟨C.low_le, C.aligned, Nat.le_refl _, Nat.le_add_right _ _, C.aligned, C.below,
      Nat.lt_add_of_pos_right C.pos⟩
  · exact absurd h (Nat.ne_of_gt hpos)
  · exact (hothers m' u h).symm
  · simp only [hasTlabIn, Option.any_some, Bool.and_eq_true, bne_iff_ne, ne_eq, beq_iff_eq] at h
    exact .inr (h.2 ▸ hc)

/-- A mutator allocates from its buffer. -/
theorem Layout.advance (L : V.Layout) (hm : V.mutator? m = some t) (h0 : t.tlab.start ≠ 0)
    (hn : 8 ∣ n) (hpos : 0 < n) (hle : t.tlab.cursor + n ≤ t.tlab.limit) :
    (V.setMutator m (some { t with tlab := { t.tlab with cursor := t.tlab.cursor + n } })).Layout ∧
      (V.setMutator m
        (some { t with tlab := { t.tlab with cursor := t.tlab.cursor + n } })).Claim
          t.tlab.cursor n := by
  have ht := L.tlabs.ok hm h0
  have hidx := L.tlab_index hm h0 ht.start_le (by omega)
  have hs := L.tlabs.sizing hm
  constructor
  · refine L.setMutator hm rfl hs (fun _ => ?_) (fun h => absurd h h0)
      (fun o ho => ?_) (fun _ _ hne h => ?_) (fun b hb hl => ?_) fun _ h => .inl h
    · exact { ht with
        start_le := Nat.le_trans ht.start_le (Nat.le_add_right _ _)
        cursor_le := hle
        cursor_aligned := Nat.dvd_add ht.cursor_aligned hn }
    · rcases L.tlabs.objects hm ho with h1 | h1 | ⟨h1, h2⟩
      · exact .inl h1
      · exact .inr (.inl h1)
      · exact .inr (.inr ⟨h1, Nat.le_trans h2 (Nat.le_add_right _ _)⟩)
    · exact L.tlabs.apart (t := t) (Ne.symm hne) hm h
    · exact L.spare b (.inr ⟨m, t, hm, Nat.le_trans (Nat.le_add_right _ _) hb, hl⟩)
  · refine ⟨Nat.le_trans ht.low_le ht.start_le, hpos, ht.cursor_aligned, hn, ?_, ?_, ?_, ?_, ?_⟩
    · show _ ≤ (V.region (V.index t.tlab.cursor)).top
      rw [hidx]
      exact Nat.le_trans hle ht.below
    · show (V.region (V.index t.tlab.cursor)).InUse
      rw [hidx]
      exact (L.tlab_region hm h0).2
    · intro o ho
      have := ht.start_le
      show o + Object.size V.memory o ≤ _ ∨ _
      rcases L.tlabs.objects hm ho with h1 | h1 | ⟨-, h1⟩ <;> omega
    · intro m' u h
      rw [mutator?_setMutator hm] at h
      split at h
      · simp only [Option.some.injEq] at h
        subst h
        exact .inr (.inr ⟨ht.start_le, Nat.le_refl _⟩)
      · rename_i hne
        have := ht.start_le
        rcases L.tlabs.apart (Ne.symm hne) hm h with h1 | h1
        · exact .inl (by omega)
        · exact .inr (.inl (by omega))
    · intro b hb hl
      exact L.spare b (.inr ⟨m, t, hm, hb, by omega⟩)

end

/-! ## 6. New objects -/

/-- The view with an object more, in a claim. -/
def withObject (V : HeapView) (m : Memory) (a : Nat) : HeapView :=
  ({ V with memory := m }).setRegion (V.index a)
    { V.regionOf a with starts := (V.regionOf a).starts.adding a }

section
variable {V : HeapView} {a n o : Nat} {m : Memory}

/-- Where a claim is. -/
theorem Layout.claim_bounds (L : V.Layout) (C : V.Claim a n) :
    (V.regionOf a).bottom ≤ a ∧ a + n ≤ (V.regionOf a).limit ∧ V.index a < V.committed ∧
      a < V.high ∧ a + n ≤ rootBase := by
  have hr := L.regions (V.index a)
  have hc := L.committed_of_state C.inUse.1
  have hb := (L.geometry.index_bounds C.low_le).1
  have h1 := C.below
  have h2 := hr.top_le
  have h3 := hr.bottom_eq
  have h4 := hr.limit_eq
  have h5 : (V.index a + 1) * V.regionSize ≤ V.maxRegions * V.regionSize :=
    Nat.mul_le_mul_right _ (Nat.lt_of_lt_of_le hc L.geometry.committed_le)
  have h6 := L.geometry.boundary_eq
  have h7 := L.geometry.boundary_le
  rw [Nat.succ_mul] at h5
  refine ⟨?_, ?_, hc, L.geometry.lt_high C.low_le hc, ?_⟩ <;> simp only [regionOf] at * <;> omega

/-- A claim is in one region. -/
theorem Layout.claim_index (L : V.Layout) (C : V.Claim a n) {b : Nat} (h1 : a ≤ b)
    (h2 : b < a + n) : V.index b = V.index a := by
  have hb := L.claim_bounds C
  have hr := L.regions (V.index a)
  have h3 := hr.bottom_eq
  have h4 := hr.limit_eq
  simp only [regionOf] at hb
  exact index_eq (by omega) (by omega)

/-- A claim was allocated. -/
theorem Layout.claim_not_untouched (L : V.Layout) (C : V.Claim a n) {b : Nat} (h1 : a ≤ b)
    (h2 : b < a + n) : ¬ V.Untouched b := fun h => by
  have h3 := (L.of_untouched h).2.2
  have h4 := C.below
  rw [regionOf, L.claim_index C h1 h2] at h3
  simp only [regionOf] at h4
  omega

theorem published_withObject (L : V.Layout) (C : V.Claim a n) :
    (V.withObject m a).Published o ↔ o = a ∨ V.Published o := by
  have hb := L.claim_bounds C
  have hr := L.regions (V.index a)
  have hidx : (V.withObject m a).index o = V.index o := rfl
  have hreg : (V.withObject m a).regionOf o =
      if V.index o = V.index a then
        { V.regionOf a with starts := (V.regionOf a).starts.adding a }
      else V.regionOf o := by
    simp only [regionOf, hidx]
    rfl
  unfold Published
  rw [hreg]
  by_cases he : V.index o = V.index a
  · rw [if_pos he]
    simp only [hr.starts.has_adding (a := a) (by simpa [regionOf] using hb.1) C.aligned, regionOf,
      he]
  · rw [if_neg he]
    refine ⟨.inr, ?_⟩
    rintro (rfl | h)
    · exact absurd rfl he
    · exact h

/-- A claim is apart from what is published. -/
theorem Layout.claim_not_published (L : V.Layout) (C : V.Claim a n) : ¬ V.Published a := by
  intro h
  have := (L.objects.fits h).fields_le
  have := C.pos
  rcases C.objects h with h1 | h1 <;> omega

/-- **A claim becomes an object** when memory has a header in it and its start is set. -/
theorem Layout.publish (L : V.Layout) (C : V.Claim a n) (hfit : Object.Fits m a)
    (hsize : Object.size m a = n) (hrest : ∀ b, b < a ∨ a + n ≤ b → m.read b = V.memory.read b) :
    (V.withObject m a).Layout := by
  have hb := L.claim_bounds C
  have hpub {o : Nat} : (V.withObject m a).Published o ↔ o = a ∨ V.Published o :=
    published_withObject L C
  have hreg (j : Nat) : (V.withObject m a).region j =
      if j = V.index a then { V.regionOf a with starts := (V.regionOf a).starts.adding a }
      else V.region j := rfl
  have htop (j : Nat) : ((V.withObject m a).region j).top = (V.region j).top := by
    rw [hreg]
    split
    · rename_i he
      rw [he]
      rfl
    · rfl
  have hold {o : Nat} (h : V.Published o) : m.read (o + 8) = V.memory.read (o + 8) := by
    have := (L.objects.fits h).fields_le
    exact hrest _ (by rcases C.objects h with h1 | h1 <;> omega)
  have hsz {o : Nat} (h : V.Published o) : Object.size m o = Object.size V.memory o := by
    simp only [Object.size, wordBytes, hold h]
  refine { L with
    geometry := { L.geometry with }
    regions := fun j => ?_
    mutatorRegion := fun j hj => ?_
    evacRegion := fun j hj => ?_
    objects := ⟨fun {o} h => ?_, fun {o} h => ?_, fun {o o'} h h' hlt => ?_⟩
    tlabs := { L.tlabs with
      ok := fun {_ t} h h0 => ?_
      objects := fun {_ t o} hm h => ?_
      counted := fun j => ?_ }
    spare := fun b h => ?_
    buffers := { L.buffers with } }
  · rw [hreg]
    split
    · rename_i he
      subst he
      have hr := L.regions (V.index a)
      refine { hr with
        starts := hr.starts.adding hb.1 ?_ C.aligned L.geometry.size_aligned
        empty := fun h => absurd h C.inUse.1 }
      have h1 := hb.2.1
      have h2 := hr.limit_eq
      have h3 := C.pos
      simp only [regionOf] at *
      omega
    · exact { L.regions j with }
  · rw [hreg]
    split
    · exact C.inUse
    · exact L.mutatorRegion j hj
  · rw [hreg]
    split
    · exact C.inUse
    · exact L.evacRegion j hj
  · rcases hpub.1 h with rfl | h
    · exact hfit
    · exact (L.objects.fits h).congr (hold h)
  · show _ ≤ ((V.withObject m a).region (V.index o)).top
    rw [htop]
    rcases hpub.1 h with rfl | h
    · show _ + Object.size m _ ≤ _
      rw [hsize]
      exact C.below
    · show _ + Object.size m _ ≤ _
      rw [hsz h]
      exact L.objects.below h
  · show _ + Object.size m _ ≤ _
    rcases hpub.1 h with rfl | g <;> rcases hpub.1 h' with rfl | g'
    · omega
    · have := (L.objects.fits g').fields_le
      rcases C.objects g' with h1 | h1 <;> omega
    · have := C.pos
      have := hsz g
      rcases C.objects g with h1 | h1 <;> omega
    · rw [hsz g]
      exact L.objects.apart g g' hlt
  · have ht := L.tlabs.ok (t := t) h h0
    have hbelow : t.tlab.limit ≤ ((V.withObject m a).region (V.index t.tlab.start)).top := by
      rw [htop]
      exact ht.below
    exact { ht with below := hbelow }
  · show t.tlab.Apart _ (Object.size m _)
    rcases hpub.1 h with rfl | h
    · rw [hsize]
      exact C.tlabs (t := t) hm
    · rw [hsz h]
      exact L.tlabs.objects (t := t) hm h
  · rw [hreg]
    split
    · rename_i he
      rw [he]
      exact L.tlabs.counted (V.index a)
    · exact L.tlabs.counted j
  · have hsp : V.Spare b := by
      rcases h with ⟨j, hj, hle, hlt⟩ | h
      · refine .inl ⟨j, hj, by rwa [htop] at hle, ?_⟩
        rw [hreg] at hlt
        split at hlt
        · rename_i he
          rw [he]
          exact hlt
        · exact hlt
      · exact .inr h
    have hout : b < a ∨ a + n ≤ b := by
      by_contra hn
      rcases hsp with hu | ⟨m', t, hm, hc, hl⟩
      · exact L.claim_not_untouched C (by omega) (by omega) hu
      · exact hn (L.left_outside hm (C.tlabs hm) hc hl)
    exact (hrest b hout).trans (L.spare b hsp)

end

/-! ## 7. What the layout does not depend on -/

section
variable {V : HeapView}

/-- The state of the cycle and what was recorded may change. -/
theorem Layout.setControl (L : V.Layout) {q : SatbQueues} {g : Queue Nat} {s : GcState}
    {p : CyclePhase} {c w : Bool} {j : Nat}
    (hids : q.buffers.map (·.id) = V.satb.buffers.map (·.id))
    (hreg : q.registered = V.satb.registered) :
    ({ V with satb := q, grey := g, gcState := s, phase := p, cancelRequested := c, joined := j,
              pending := w }).Layout := by
  have hmem (i : Nat) : (∃ b ∈ q.buffers, b.id = i) ↔ ∃ b ∈ V.satb.buffers, b.id = i := by
    have := congrArg (i ∈ ·) hids
    simpa using this
  refine { L with
    geometry := { L.geometry with }
    regions := fun i => { L.regions i with }
    objects := { L.objects with }
    tlabs := { L.tlabs with ok := fun h h0 => { L.tlabs.ok h h0 with } }
    buffers := { L.buffers with
      pos := by rw [show _ = V.satb.registered from hreg]; exact L.buffers.pos
      nodup := by rw [hids]; exact L.buffers.nodup
      lt := fun b hb => ?_
      shared := (hmem _).2 L.buffers.shared
      registered := fun hm => (hmem _).2 (L.buffers.registered hm) } }
  obtain ⟨b', hb', he⟩ := (hmem b.id).1 ⟨b, hb, rfl⟩
  show b.id < q.registered
  rw [hreg, ← he]
  exact L.buffers.lt b' hb'

/-- The count of the allocated bytes may change. -/
theorem Layout.setUsed (L : V.Layout) {u : Nat} : ({ V with used := u }).Layout :=
  { L with
    geometry := { L.geometry with }
    regions := fun i => { L.regions i with }
    objects := { L.objects with }
    tlabs := { L.tlabs with ok := fun h h0 => { L.tlabs.ok h h0 with } }
    buffers := { L.buffers with } }

/-- Roots may be registered and dropped. -/
theorem Layout.setRoots (L : V.Layout) {r : RootSet}
    (h : ∀ c ∈ r.cells, ∃ k < r.registered, c.slot = rootBase + 8 * k) :
    ({ V with roots := r }).Layout :=
  { L with
    geometry := { L.geometry with }
    regions := fun i => { L.regions i with }
    objects := { L.objects with }
    tlabs := { L.tlabs with ok := fun h h0 => { L.tlabs.ok h h0 with } }
    buffers := { L.buffers with }
    roots := h }

end

end HeapView

end ManagedHeap
