/-
# A heap between cycles passes its check

The check looks at the bounds of the regions, at what they count as allocated, and between cycles at
every root and every field of an object that counts as live.  The invariant of a sound session has
all that the check asks for: an object that marking called live, dead as it may be by now, is one of
the program's or a copy of one, and its fields are repaired with those of the others.

* Section 1: regions and sizes.
* Section 2: slots.
* Section 3: the whole check.
-/
import ManagedHeap.Proofs.Sessions
import ManagedHeap.RegionHeap.Verification

namespace ManagedHeap

open HeapView

/-- A step that is defined for all elements is defined for the list. -/
theorem mapM_eq_ok {α β : Type} {f : α → Except Fault β} {g : α → β} {l : List α}
    (h : ∀ x ∈ l, f x = .ok (g x)) : l.mapM f = .ok (l.map g) := by
  induction l with
  | nil => rfl
  | cons x rest ih =>
    rw [List.mapM_cons, h x List.mem_cons_self,
      ih fun y hy => h y (List.mem_cons_of_mem _ hy)]
    rfl

namespace RegionHeap

variable {h : RegionHeap} {W : World} {i v : Nat}

/-! ## 1. Regions and sizes -/

theorem committedRegions_eq (G : h.view.Geometry) :
    h.space.committedRegions = (List.range h.view.committed).map h.regionAt := by
  rw [RegionSpace.committedRegions, ← List.filterMap_eq_map]
  refine List.filterMap_congr fun i hi => ?_
  have : i < h.space.maxRegions := Nat.lt_of_lt_of_le (List.mem_range.1 hi) G.committed_le
  exact if_pos this

/-- A region has no defect. -/
theorem regionDefect?_eq (L : h.view.Layout) (i : Nat) :
    RegionSpace.regionDefect? (h.regionAt i) = .ok none := by
  have hr := L.regions i
  have hb : (h.regionAt i).start ≤ (h.regionAt i).top :=
    Nat.le_trans hr.bottom_le hr.markLimit_le
  have ht : (h.regionAt i).top ≤ (h.regionAt i).limit := hr.top_le
  rw [RegionSpace.regionDefect?, if_neg (by omega), if_neg]
  simp only [Region.isEmpty, Bool.and_eq_true, beq_iff_eq, Bool.or_eq_true, decide_eq_true_eq,
    not_and, not_or, Decidable.not_not]
  intro he
  obtain ⟨htop, -, hnone⟩ := hr.empty he
  refine ⟨?_, ?_⟩
  · show (h.view.region i).top - (h.view.region i).bottom = 0
    omega
  · exact hr.starts.count_eq_zero hnone

theorem usedOf_eq (L : h.view.Layout) (l : List Nat) :
    RegionSpace.usedOf (l.map h.regionAt) =
      .ok (.ok ((l.map fun i => (h.view.region i).top - (h.view.region i).bottom).foldr
        (· + ·) 0)) := by
  induction l with
  | nil => rfl
  | cons i rest ih =>
    simp only [List.map_cons, RegionSpace.usedOf, regionDefect?_eq L, ih, List.foldr_cons]
    rfl

/-- A region holds no more than its size. -/
theorem region_used_le (L : h.view.Layout) (i : Nat) :
    (h.view.region i).top - (h.view.region i).bottom ≤ h.view.regionSize := by
  have h1 := (L.regions i).top_le
  have h2 := (L.regions i).limit_eq
  omega

/-- What the committed regions hold. -/
theorem usedOf_committed (L : h.view.Layout) :
    RegionSpace.usedOf h.space.committedRegions =
      .ok (.ok (∑ i ∈ Finset.range h.view.committed,
        ((h.view.region i).top - (h.view.region i).bottom))) := by
  rw [committedRegions_eq L.geometry, usedOf_eq L]
  rfl

/-- What is committed are whole regions. -/
theorem capacity_eq (L : h.view.Layout) :
    h.space.capacity = h.view.committed * h.view.regionSize := by
  show h.view.high - h.view.low = _
  rw [L.geometry.high_eq]
  omega

/-- The committed regions hold no more than is committed. -/
theorem sum_used_le (L : h.view.Layout) :
    ∑ i ∈ Finset.range h.view.committed, ((h.view.region i).top - (h.view.region i).bottom) ≤
      h.space.capacity := by
  have hle := Finset.sum_le_card_nsmul (Finset.range h.view.committed)
    (fun i => (h.view.region i).top - (h.view.region i).bottom) h.view.regionSize
    fun i _ => region_used_le L i
  rw [capacity_eq L]
  simpa using hle

/-- What the whole heap counts is in committed regions. -/
theorem used_eq (L : h.view.Layout) (B : h.view.Balanced) :
    h.used = ∑ i ∈ Finset.range h.view.committed,
      ((h.view.region i).top - (h.view.region i).bottom) := by
  rw [show h.used = _ from B]
  refine (Finset.sum_subset (fun i hi => ?_) fun i _ hi => ?_).symm
  · rw [Finset.mem_range] at hi ⊢
    exact Nat.lt_of_lt_of_le hi L.geometry.committed_le
  · rw [Finset.mem_range, Nat.not_lt] at hi
    have := ((L.regions i).empty ((L.regions i).uncommitted hi)).1
    omega

/-- What the whole heap counts is no more than is committed. -/
theorem used_le (L : h.view.Layout) (B : h.view.Balanced) : h.used ≤ h.capacity :=
  Nat.le_trans (Nat.le_of_eq (used_eq L B)) (sum_used_le L)

theorem capacity_le (L : h.view.Layout) : h.capacity ≤ h.maxCapacity := by
  have hmul := Nat.mul_le_mul_right h.view.regionSize L.geometry.committed_le
  have h1 := L.geometry.high_eq
  have h2 := L.geometry.boundary_eq
  show h.view.high - h.view.low ≤ h.view.boundary - h.view.low
  omega

/-- The bounds of the regions and their sizes are right. -/
theorem space_verify_eq (L : h.view.Layout) : h.space.verify = .ok (.ok ()) := by
  have hle := sum_used_le L
  have hcap : h.space.capacity ≤ h.space.maxCapacity := capacity_le L
  rw [RegionSpace.verify, usedOf_committed L]
  show (if _ then _ else _) = _
  rw [if_neg (by omega)]
  rfl

end RegionHeap

/-! ## 2. Slots -/

namespace HeapView

/-- What a slot holds between cycles: null, or the start of an object that is not forwarded, in a
committed region in use. -/
def Settled (V : HeapView) (v : Nat) : Prop :=
  v = null ∨ (V.Published v ∧ Object.isForwarded V.memory v = false ∧
    (V.regionOf v).state ≠ .empty ∧ V.index v < V.committed)

section
variable {V : HeapView} {W : World} {o i v : Nat}

/-- Between cycles nothing is forwarded. -/
theorem Faithful.status_eq_zero (F : V.Faithful W .idle) (h : V.Published o) :
    V.memory.read o = 0 := by
  have hrel : ¬ V.Relocating o := (F.states _).2 rfl
  rcases F.status h with h0 | ⟨hr, -⟩ | ⟨c, hm⟩
  · exact h0
  · exact absurd hr hrel
  · exact absurd hm.relocating hrel

theorem Inv.settled_of_mem (I : V.Inv W .idle []) (h : v ∈ W.objects) : V.Settled v := by
  have hp := I.faithful.published h
  have hB := I.layout.bounds hp
  refine .inr ⟨hp, ?_, hB.state, hB.committed⟩
  have h0 := I.faithful.status_eq_zero hp
  simp [Object.isForwarded, h0, Object.forwardedTag]

/-- **A root is settled between cycles.** -/
theorem Inv.settled_root (I : V.Inv W .idle []) {c : RootCell} (hc : c ∈ V.roots.cells)
    (hl : c.live = true) : V.Settled (V.memory.read c.slot) := by
  rcases (I.faithful.roots hc hl).1 with h | h | ⟨h, -⟩
  · exact .inl h
  · exact I.settled_of_mem h.1
  · cases h

/-- An object that counts as live between cycles is one of the program's. -/
theorem Inv.mem_of_live (I : V.Inv W .idle []) (hp : V.Published o) (hl : V.Live o) :
    o ∈ W.objects := by
  rcases I.faithful.survivors (by decide) hp hl with h | ⟨c, hm⟩
  · exact h
  · exact absurd hm.relocating ((I.faithful.states _).2 rfl)

/-- **A field of an object that counts as live is settled between cycles.** -/
theorem Inv.settled_field (I : V.Inv W .idle []) (hl0 : W.loose = ∅) (hp : V.Published o)
    (hl : V.Live o) (hi : i < Object.refCount V.memory o) :
    V.Settled (V.memory.read (Object.field o i)) := by
  rcases (I.faithful.fields (I.mem_of_live hp hl) hi).1 with h | h | ⟨-, ⟨h, -⟩ | h⟩
  · exact .inl h
  · exact I.settled_of_mem h.1
  · cases h
  · rw [hl0] at h
    exact absurd h (Set.notMem_empty _)

end

end HeapView

namespace RegionHeap

variable {h : RegionHeap} {W : World} {i v : Nat}

theorem isSound_eq (L : h.view.Layout) (hv : h.view.Settled v) : h.isSound v = .ok true := by
  rw [isSound]
  by_cases h0 : v = null
  · rw [if_pos h0]
    rfl
  · obtain ⟨hp, hf, -⟩ := hv.resolve_left h0
    have hB := L.bounds hp
    have hr := L.regions (h.view.index v)
    have hreg := regionOf?_eq_regionAt hB.low_le hB.lt_high hB.lt_max
    have hne : (h.regionAt (h.view.index v)).isEmpty = false := by
      have hs : (h.regionAt (h.view.index v)).state ≠ .empty := hB.state
      simp [Region.isEmpty, hs]
    have hstart : (h.regionAt (h.view.index v)).isStart v = .ok true := by
      have hlt : v < (h.view.region (h.view.index v)).bottom + h.view.regionSize := by
        have h1 := hB.lt_limit
        have h2 := hr.limit_eq
        simp only [regionOf] at h1
        omega
      have hc := hr.starts.contains_eq hB.bottom_le hlt hB.aligned L.geometry.size_aligned
      rw [Region.isStart, if_pos ⟨hB.bottom_le, hB.lt_top⟩]
      refine hc.trans ?_
      rw [(hr.starts.holds_iff hB.bottom_le hB.aligned).2 hp]
    have hf' : Object.isForwarded h.core.memory v = false := hf
    simp only [if_neg h0, hreg, bind, Except.bind, hne, Bool.false_eq_true, if_false, hstart, hf']
    rfl

theorem firstUnsound_eq (L : h.view.Layout) {slots : List Nat}
    (hs : ∀ a ∈ slots, h.view.Settled (h.view.memory.read a)) :
    h.firstUnsound slots = .ok none := by
  induction slots with
  | nil => rfl
  | cons a rest ih =>
    have h1 : h.isSound (h.core.memory.read a) = .ok true := isSound_eq L (hs a List.mem_cons_self)
    simp only [firstUnsound, h1, bind, Except.bind, if_true]
    exact ih fun b hb => hs b (List.mem_cons_of_mem _ hb)

/-- The slots of the live objects of a region hold what they should. -/
theorem liveSlots_eq (I : h.view.Inv W .idle []) (hl : W.loose = ∅) (i : Nat) :
    ∃ slots, liveSlots h.core.memory (h.regionAt i) = .ok slots ∧
      ∀ a ∈ slots, h.view.Settled (h.view.memory.read a) := by
  obtain ⟨l, hlive, hmem⟩ := liveObjects_eq I.layout i
  have hfields {o : Nat} (ho : o ∈ l) : fieldSlots h.core.memory o =
      .ok ((List.range (Object.refCount h.view.memory o)).map (Object.field o)) :=
    mapM_eq_ok fun k hk => Object.fieldSlot_eq
      (I.layout.bounds ((hmem o).1 ho).1.1).aligned (List.mem_range.1 hk)
  refine ⟨_, Except.bind_eq_ok.2 ⟨l, hlive, Except.bind_eq_ok.2 ⟨_, mapM_eq_ok fun o ho =>
    hfields ho, rfl⟩⟩, fun a ha => ?_⟩
  obtain ⟨as, has, ha⟩ := List.mem_flatten.1 ha
  obtain ⟨o, ho, rfl⟩ := List.mem_map.1 has
  obtain ⟨k, hk, rfl⟩ := List.mem_map.1 ha
  obtain ⟨⟨hp, -⟩, hlo⟩ := (hmem o).1 ho
  exact I.settled_field hl hp hlo (List.mem_range.1 hk)

theorem unsoundIn_eq (I : h.view.Inv W .idle []) (hl : W.loose = ∅) (l : List Nat) :
    h.unsoundIn none (l.map h.regionAt) = .ok (.ok none) := by
  induction l with
  | nil => rfl
  | cons i rest ih =>
    obtain ⟨slots, hslots, hsound⟩ := liveSlots_eq I hl i
    have hs : ¬ ((h.regionAt i).state = .marked ∨ (h.regionAt i).state = .relocating) := fun hc =>
      hc.elim (I.faithful.states i).1 ((I.faithful.states i).2 rfl)
    rw [List.map_cons, unsoundIn, if_neg hs, hslots]
    show (do
      let here ← h.firstUnsound slots
      h.unsoundIn here (rest.map h.regionAt)) = _
    rw [firstUnsound_eq I.layout hsound]
    exact ih

/-- No root and no field of a live object is unsound. -/
theorem idleDefect?_eq (I : h.view.Inv W .idle []) (hl : W.loose = ∅) {slots : List Nat}
    (hs : ∀ a ∈ slots, h.view.Settled (h.view.memory.read a)) :
    h.idleDefect? slots = .ok none := by
  rw [idleDefect?, firstUnsound_eq I.layout hs, committedRegions_eq I.layout.geometry]
  exact Except.bind_eq_ok.2 ⟨_, rfl, Except.bind_eq_ok.2 ⟨_, unsoundIn_eq I hl _, rfl⟩⟩

/-! ## 3. The whole check -/

theorem ends_verifyIdle (I : h.view.Inv W .idle []) (hl : W.loose = ∅)
    (hs : h.view.InStage .idle) : Ends verifyIdle h fun d _ => d = none := by
  have hbits : h.gcState.bits = 0 := by
    rw [show h.gcState = .idle from hs.1]
    rfl
  simp only [verifyIdle, ends_bind, ends_get, hbits, ne_eq, not_true_eq_false, if_false]
  rw [ends_scanRoots, ends_lift]
  refine ⟨none, idleDefect?_eq I hl fun a ha => ?_, rfl⟩
  obtain ⟨c, hc, rfl⟩ := List.mem_map.1 ha
  obtain ⟨hm, hlive⟩ := List.mem_filter.1 hc
  exact I.settled_root hm hlive

/-- **A heap between cycles passes its check.** -/
theorem ends_verify (I : h.view.Inv W .idle []) (hl : W.loose = ∅) (hs : h.view.InStage .idle)
    (B : h.view.Balanced) : Ends verify h fun r _ => r = .ok () := by
  have h1 := used_le I.layout B
  have h2 := capacity_le I.layout
  have hp : h.phase = .idle := hs.2
  simp only [verify, ends_bind, ends_get, ends_lift, space_verify_eq I.layout]
  refine ⟨_, rfl, ?_⟩
  simp only [ends_ite, ends_pure, ends_bind, hp]
  refine ⟨fun hc => ?_, fun _ => ⟨fun _ => ?_, fun hc => absurd trivial hc⟩⟩
  · omega
  · refine (ends_verifyIdle I hl hs).mono fun d _ hd => ?_
    subst hd
    exact ends_pure.2 rfl

end RegionHeap

namespace Session

variable {place : Place} {o : Options} {h : RegionHeap} {cs : List Command}

/-- **Between cycles a heap always passes its check**, after any program that is permitted.  In
particular every root, and every field of an object that counts as live since the last marking,
holds null or the start of an object that is not forwarded, in a committed region in use. -/
theorem verified (hb : AnyHeap.build place o = .ok (.ok (.region h)))
    (hp : Permitted execute Allows cs (start h)) :
    ∃ as s, Action.runAll execute cs (start h) = .ok as s ∧ (s.heap.phase = .idle →
      (∃ h', RegionHeap.verify s.heap = .ok (.ok ()) h') ∧
      (∀ c ∈ s.heap.view.roots.cells, c.live = true →
        s.heap.view.Settled (s.heap.view.memory.read c.slot)) ∧
      ∀ o i, s.heap.view.Published o → s.heap.view.Live o →
        i < Object.refCount s.heap.view.memory o →
        s.heap.view.Settled (s.heap.view.memory.read (Object.field o i))) := by
  obtain ⟨as, s, hrun, W, S, -⟩ := ends_program hb hp
  refine ⟨as, s, hrun, fun hidle => ?_⟩
  have hst : s.stage = .idle := by
    have hph : s.heap.phase = s.stage.phase := S.inStage.2
    rw [hidle] at hph
    revert hph
    cases s.stage <;> intro hph <;> first | rfl | cases hph
  have I : s.heap.view.Inv W .idle [] := hst ▸ S.inv
  obtain ⟨r, h', hv, rfl⟩ := RegionHeap.ends_verify I S.loose (hst ▸ S.inStage) S.balanced
  exact ⟨⟨h', hv⟩, fun c hc hl => I.settled_root hc hl,
    fun o i hp hl hi => I.settled_field S.loose hp hl hi⟩

theorem verified_relocation :
    ∃ h, AnyHeap.build Place.first smallHeap = .ok (.ok (.region h)) ∧
      Permitted execute Allows (relocation ++ [.step .recycle]) (start h) ∧
      ∃ as s, Action.runAll execute (relocation ++ [.step .recycle]) (start h) = .ok as s ∧
        (s.heap.phase = .idle →
          (∃ h', RegionHeap.verify s.heap = .ok (.ok ()) h') ∧
          (∀ c ∈ s.heap.view.roots.cells, c.live = true →
            s.heap.view.Settled (s.heap.view.memory.read c.slot)) ∧
          ∀ o i, s.heap.view.Published o → s.heap.view.Live o →
            i < Object.refCount s.heap.view.memory o →
            s.heap.view.Settled (s.heap.view.memory.read (Object.field o i))) := by
  obtain ⟨h, hb, hp⟩ := permits_iff.1 (show permits Place.first smallHeap
    (relocation ++ [.step .recycle]) = true by decide +kernel)
  exact ⟨h, hb, hp, verified hb hp⟩

end Session

end ManagedHeap
