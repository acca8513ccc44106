/-
# What the theory sees of a heap

A `RegionHeap` also keeps its journal, its counters, its clock and the requests to its controller.
None of these says where an object is.  `RegionHeap.view` is what is left: memory, regions, roots,
mutators, the recorded references and the state of the cycle.  Invariants are stated about the view,
so that an operation on what it leaves out preserves them by definition.

A region is seen as a `RegionView`.  An object belongs to the region that its address is in, so
`HeapView.Published`, `HeapView.Live` and `HeapView.Relocating` are properties of an address.
-/
import ManagedHeap.Proofs.Objects
import ManagedHeap.Mutator
import ManagedHeap.RegionHeap.Instance

namespace ManagedHeap

/-! ## 1. Views -/

/-- What is seen of a region. -/
structure RegionView where
  bottom : Nat
  top : Nat
  limit : Nat
  state : RegionState
  markLimit : Nat
  markedBytes : Nat
  activeTlabs : Nat
  evacFailed : Bool
  marks : AddressSet
  starts : AddressSet

/-- The view of a region. -/
def Region.view (r : Region) : RegionView :=
  ⟨r.space.bottom, r.space.top, r.space.limit, r.state, r.markLimit, r.markedBytes,
    r.activeTlabs, r.evacFailed, r.marks, r.starts⟩

/-- What is seen of a heap. -/
structure HeapView where
  options : Options
  maxTlab : Nat
  memory : Memory
  roots : RootSet
  mutators : Array (Option Mutator)
  low : Nat
  high : Nat
  boundary : Nat
  regionSize : Nat
  committed : Nat
  used : Nat
  region : Nat → RegionView
  mutatorRegion : Option Nat
  evacRegion : Option Nat
  satb : SatbQueues
  grey : Queue Nat
  gcState : GcState
  phase : CyclePhase
  cancelRequested : Bool
  joined : Nat
  pending : Bool

namespace RegionHeap

/-- The region with an index, which is empty when it was never changed. -/
def regionAt (h : RegionHeap) (i : Nat) : Region :=
  h.space.changed.getD i (h.space.freshRegion i)

/-- The view of a heap. -/
def view (h : RegionHeap) : HeapView where
  options := h.core.options
  maxTlab := h.maxTlab
  memory := h.core.memory
  roots := h.core.roots
  mutators := h.core.mutators
  low := h.space.range.low
  high := h.space.range.high
  boundary := h.space.range.boundary
  regionSize := h.space.regionSize
  committed := h.space.committed
  used := h.space.used
  region := fun i => (h.regionAt i).view
  mutatorRegion := h.space.mutatorRegion
  evacRegion := h.space.evacRegion
  satb := h.satb
  grey := h.queue.grey
  gcState := h.gcState
  phase := h.phase
  cancelRequested := h.cancelRequested
  joined := h.safepoint.joined
  pending := h.safepoint.pending

end RegionHeap

namespace HeapView

/-- How many regions there can be. -/
def maxRegions (V : HeapView) : Nat := (V.boundary - V.low) / V.regionSize

/-- The index of the region that an address is in. -/
def index (V : HeapView) (a : Nat) : Nat := (a - V.low) / V.regionSize

/-- The region that an address is in. -/
def regionOf (V : HeapView) (a : Nat) : RegionView := V.region (V.index a)

/-- The view with another region in the place of one. -/
def setRegion (V : HeapView) (i : Nat) (r : RegionView) : HeapView :=
  { V with region := fun j => if j = i then r else V.region j }

/-- The mutator with a number. -/
def mutator? (V : HeapView) (m : Nat) : Option Mutator := V.mutators[m]?.join

/-! ## 2. Properties of an address -/

/-- An object starts at the address. -/
def Published (V : HeapView) (o : Nat) : Prop := (V.regionOf o).starts.Has o

/-- An object at the address is live since the last marking: marked, or above the snapshot. -/
def Live (V : HeapView) (o : Nat) : Prop := (V.regionOf o).markLimit ≤ o ∨ (V.regionOf o).marks.Has o

instance (V : HeapView) (o : Nat) : Decidable (V.Published o) :=
  inferInstanceAs (Decidable (_ ∧ _ ∧ _))

instance (V : HeapView) (o : Nat) : Decidable (V.Live o) :=
  inferInstanceAs (Decidable (_ ∨ _ ∧ _ ∧ _))

/-- The region of the address is relocated. -/
def Relocating (V : HeapView) (o : Nat) : Prop := (V.regionOf o).state = .relocating

/-- Some object in the region of the address could not be moved. -/
def Kept (V : HeapView) (o : Nat) : Prop := (V.regionOf o).evacFailed = true

section
variable {V : HeapView} {i j : Nat} {r : RegionView}

@[simp] theorem setRegion_region_self : (V.setRegion i r).region i = r := if_pos rfl

theorem setRegion_region_of_ne (h : j ≠ i) : (V.setRegion i r).region j = V.region j := if_neg h

theorem setRegion_region : (V.setRegion i r).region j = if j = i then r else V.region j := rfl

/-- What the new region has in common with the old one is the same everywhere. -/
theorem setRegion_congr {α : Type} (f : RegionView → α) (hf : f r = f (V.region i)) (j : Nat) :
    f ((V.setRegion i r).region j) = f (V.region j) := by
  rw [setRegion_region]
  split
  · rename_i h
    rw [h, hf]
  · rfl

@[simp] theorem setRegion_self : V.setRegion i (V.region i) = V := by
  have : (fun j => if j = i then V.region i else V.region j) = V.region := by
    funext j
    split
    · rename_i h
      rw [h]
    · rfl
  rw [setRegion, this]

@[simp] theorem setRegion_setRegion {r' : RegionView} :
    (V.setRegion i r).setRegion i r' = V.setRegion i r' := by
  simp only [setRegion]
  congr 1
  funext j
  split <;> rfl

end

end HeapView

/-! ## 3. Actions on one region

`Acts act r post` is `Ends` for an action of a region of which only the view is known. -/

/-- From every region with the view, the action ends with a result and a view that satisfy
`post`. -/
def Acts {α : Type} (act : Action Region α) (r : RegionView) (post : α → RegionView → Prop) :
    Prop :=
  ∀ r₀ : Region, r₀.view = r → Ends act r₀ fun a r₁ => post a r₁.view

namespace Region

variable {r : RegionView}

theorem acts_transition {src dst : RegionState} (hs : r.state = src)
    (hc : src.canBecome dst = true) :
    Acts (transition src dst) r fun _ r' => r' = { r with state := dst } := by
  rintro r₀ rfl
  have hs' : r₀.state = src := hs
  simp only [transition, ends_bind, ends_get, hc, if_true, hs', ends_set]
  rfl

theorem acts_makeAllocating (hs : r.state = .empty) :
    Acts makeAllocating r fun _ r' => r' = { r with markLimit := r.top, state := .allocating } := by
  rintro r₀ rfl
  simp only [makeAllocating, ends_bind, ends_modify]
  exact acts_transition (r := { r₀.view with markLimit := r₀.view.top }) hs rfl _ rfl

theorem acts_allocate {n : Nat} (hn : 8 ∣ n) (ht : r.top ≤ r.limit) :
    Acts (allocate n) r fun a r' => (a = none ∧ r' = r) ∨
      (r.top + n ≤ r.limit ∧ a = some r.top ∧ r' = { r with top := r.top + n }) := by
  rintro r₀ rfl
  have hn' : n % objectAlignment = 0 := by
    simp only [objectAlignment, wordBytes]
    omega
  have hd : distance r₀.space.limit r₀.space.top = .ok (r₀.space.limit - r₀.space.top) :=
    distance_eq_ok.2 ⟨ht, rfl⟩
  simp only [allocate, onSpace, ends_onPart, BumpSpace.allocate, ends_bind, ends_get, ends_lift,
    require_eq_ok, hn', hd, ends_ite, ends_pure, ends_set]
  refine ⟨(), trivial, _, rfl, fun _ => .inl ⟨trivial, trivial⟩,
    fun hroom => .inr ⟨?_, rfl, rfl⟩⟩
  show r₀.space.top + n ≤ r₀.space.limit
  have : r₀.space.top ≤ r₀.space.limit := ht
  omega

theorem acts_tlabAllocated (h : r.activeTlabs + 1 < wordLimit) :
    Acts tlabAllocated r fun _ r' => r' = { r with activeTlabs := r.activeTlabs + 1 } := by
  rintro r₀ rfl
  simp only [tlabAllocated, ends_modify]
  show ({ r₀.view with activeTlabs := (r₀.view.activeTlabs + 1) % wordLimit } : RegionView) = _
  rw [Nat.mod_eq_of_lt h]

theorem acts_tlabRetired (h : 0 < r.activeTlabs) (hlt : r.activeTlabs < wordLimit) :
    Acts tlabRetired r fun _ r' => r' = { r with activeTlabs := r.activeTlabs - 1 } := by
  rintro r₀ rfl
  have hpos : 0 < r₀.activeTlabs := h
  simp only [tlabRetired, ends_bind, ends_get, ends_set, ends_lift, require_eq_ok, hpos]
  refine ⟨(), trivial, ?_⟩
  show ({ r₀.view with activeTlabs := (r₀.view.activeTlabs + (wordLimit - 1)) % wordLimit } :
    RegionView) = _
  have : (r₀.view.activeTlabs + (wordLimit - 1)) % wordLimit = r₀.view.activeTlabs - 1 := by
    simp only [Object.wordLimit_eq] at *
    omega
  rw [this]

theorem acts_markDirty : Acts markDirty r fun _ r' => r' = r := by
  rintro r₀ rfl
  simp only [markDirty, ends_modify]
  rfl

theorem acts_setEvacFailed :
    Acts setEvacFailed r fun _ r' => r' = { r with evacFailed := true } := by
  rintro r₀ rfl
  simp only [setEvacFailed, ends_modify]
  rfl

theorem acts_setStart {o : Nat} (hc : r.starts.checkIndex o = .ok ()) :
    Acts (setStart o) r fun _ r' => r' = { r with starts := r.starts.adding o } := by
  rintro r₀ rfl
  simp only [setStart, onStarts, ends_bind, ends_onPart, ends_pure]
  rw [AddressSet.ends_insert (show r₀.starts.checkIndex o = .ok () from hc)]
  rfl

theorem acts_clearStart {o : Nat} (hc : r.starts.checkIndex o = .ok ()) :
    Acts (clearStart o) r fun _ r' => r' = { r with starts := r.starts.removing o } := by
  rintro r₀ rfl
  simp only [clearStart, onStarts, ends_onPart]
  rw [AddressSet.ends_erase (show r₀.starts.checkIndex o = .ok () from hc)]
  rfl

theorem acts_prepareForMark :
    Acts prepareForMark r fun _ r' =>
      r' = { r with markLimit := r.top, marks := r.marks.emptied, markedBytes := 0 } := by
  rintro r₀ rfl
  simp only [prepareForMark, onMarks, ends_bind, ends_modify, ends_onPart, AddressSet.ends_clear]
  rfl

/-- Marking an object below the snapshot puts it into the marks, and tells whether it was new. -/
theorem acts_mark {m : Memory} {o : Nat} (hc : r.marks.checkIndex o = .ok ()) :
    Acts (mark m o) r fun b r' =>
      (r.markLimit ≤ o ∧ b = false ∧ r' = r) ∨
      (o < r.markLimit ∧ b = !r.marks.holds o ∧
        r' = { r with
          marks := r.marks.adding o
          markedBytes := r.markedBytes + if b then Object.size m o else 0 }) := by
  rintro r₀ rfl
  simp only [mark, onMarks, ends_bind, ends_get, ends_ite, ends_pure, ends_onPart]
  refine ⟨fun h => .inl ⟨h, trivial, trivial⟩, fun h => ?_⟩
  rw [AddressSet.ends_insert (show r₀.marks.checkIndex o = .ok () from hc)]
  simp only [ends_modify]
  refine ⟨fun hb => .inr ⟨Nat.lt_of_not_le h, hb.symm, rfl⟩, fun hb => ?_⟩
  exact .inr ⟨Nat.lt_of_not_le h, (Bool.eq_false_iff.2 hb).symm, rfl⟩

/-- An object that is settled stays a start of the region, or is none any more. -/
theorem stays_settle : AddressSet.Stays (fun x : Region × Memory => x.1.starts) settle := by
  intro o x
  unfold settle
  rw [after_bind, after_get]
  dsimp only
  cases Object.forwardee? x.2 o with
  | none =>
    rw [after_pure]
    exact ⟨rfl, fun _ _ => rfl⟩
  | some dst =>
    refine after_ite.2 ⟨fun _ => ?_, fun _ => ?_⟩
    · exact after_onPart.2 fun _ _ _ => ⟨rfl, fun _ _ => rfl⟩
    · refine after_onPart.2 (after_onPart.2 (AddressSet.after_erase.mono ?_))
      rintro _ _ rfl
      exact ⟨rfl, fun _ hj => AddressSet.block_removing_of_ne hj⟩

/-- **A region is recovered object after object**, of those that it has before. -/
theorem recover_eq : recover = (do
    let (r, _) ← get
    let all ← r.objects
    Action.each all settle
    Action.onFirst do
      modify fun r => { r with evacFailed := false }
      transition .relocating .allocating) := by
  funext x
  have hvisit : AddressSet.iterate (fun x => x.1.starts) x.1.start x.1.top settle x = _ :=
    AddressSet.iterate_eq_each stays_settle
  have hbind {act act' : Action (Region × Memory) Unit} {f : Unit → Action (Region × Memory) Unit}
      (h : act x = act' x) : (act >>= f) x = (act' >>= f) x := by
    simp only [bind, EStateM.bind, h]
  refine (hbind hvisit).trans ?_
  rw [bind_assoc]
  rfl

end Region

/-! ## 4. Actions on a region of a heap -/

namespace RegionSpace

theorem getD_putRegion {s : RegionSpace} {i j : Nat} {r : Region} (hi : i < s.maxRegions) :
    (s.putRegion i r).changed.getD j ((s.putRegion i r).freshRegion j) =
      if j = i then r else s.changed.getD j (s.freshRegion j) := by
  have hf : (s.putRegion i r).freshRegion j = s.freshRegion j := by
    unfold putRegion
    split <;> rfl
  rw [hf]
  simp only [putRegion, hi, if_true, Std.TreeMap.getD_insert, Std.LawfulEqCmp.compare_eq_iff_eq,
    eq_comm (a := i)]

/-- An action on a region that came to its end. -/
theorem onRegion_eq_ok {α : Type} {s s' : RegionSpace} {i : Nat} {act : Action Region α} {a : α} :
    onRegion i act s = .ok a s' ↔ i < s.maxRegions ∧
      ∃ r, act (s.changed.getD i (s.freshRegion i)) = .ok a r ∧ s' = s.putRegion i r := by
  unfold onRegion
  constructor
  · intro h
    cases hr : s.region? i with
    | none =>
      rw [hr] at h
      cases h
    | some r =>
      obtain ⟨hi, rfl⟩ := region?_eq_some.1 hr
      cases hact : act (s.changed.getD i (s.freshRegion i)) with
      | ok b r =>
        simp only [hr, hact] at h
        cases h
        exact ⟨hi, r, rfl, rfl⟩
      | error f r =>
        simp only [hr, hact] at h
        cases h
  · rintro ⟨hi, r, hact, rfl⟩
    simp only [region?_eq_some.2 ⟨hi, rfl⟩, hact]

theorem dirty_getD {s : RegionSpace} {i : Nat} :
    (s.changed.getD i (s.freshRegion i)).dirty = s.isDirtyAt i := by
  rw [isDirtyAt, Std.TreeMap.getD_eq_getD_getElem?]
  cases s.changed[i]? <;> rfl

theorem isDirtyAt_putRegion {s : RegionSpace} {i j : Nat} {r : Region} (hi : i < s.maxRegions) :
    (s.putRegion i r).isDirtyAt j = if j = i then r.dirty else s.isDirtyAt j := by
  rw [← dirty_getD, getD_putRegion hi, apply_ite Region.dirty, dirty_getD]

end RegionSpace

namespace RegionHeap

open HeapView RegionSpace

variable {α : Type} {h : RegionHeap} {s : RegionSpace} {i : Nat}

theorem view_putRegion {r : Region} (hi : i < s.maxRegions) :
    (putSpace (s.putRegion i r) h).view = (putSpace s h).view.setRegion i r.view := by
  have hput : s.putRegion i r = { s with changed := s.changed.insert i r } := if_pos hi
  have hreg : (fun j => ((putSpace (s.putRegion i r) h).regionAt j).view) =
      fun j => if j = i then r.view else ((putSpace s h).regionAt j).view := by
    funext j
    have := RegionSpace.getD_putRegion (j := j) (r := r) hi
    show ((s.putRegion i r).changed.getD j ((s.putRegion i r).freshRegion j)).view = _
    rw [this]
    split <;> rfl
  simp only [view, hreg, HeapView.setRegion]
  simp only [putSpace, hput]

/-- An action on one region of a heap that is seen as `(putSpace s h).view`. -/
theorem ends_onRegionOf {act : Action Region α} {post : α → RegionView → Prop}
    (hi : i < s.maxRegions) (hact : Acts act ((putSpace s h).view.region i) post) :
    Ends (RegionSpace.onRegion i act) s fun a s' =>
      ∃ r, post a r ∧ (putSpace s' h).view = (putSpace s h).view.setRegion i r := by
  obtain ⟨a, r, ha, hp⟩ := hact (s.changed.getD i (s.freshRegion i)) rfl
  exact ⟨a, _, onRegion_eq_ok.2 ⟨hi, r, ha, rfl⟩, r.view, hp, view_putRegion hi⟩

theorem view_putSpace_self : (putSpace h.space h).view = h.view := rfl

theorem ends_onRegion {act : Action Region α} {post : α → RegionView → Prop}
    (hi : i < h.view.maxRegions) (hact : Acts act (h.view.region i) post) :
    Ends (onRegion i act) h fun a h' =>
      ∃ r, post a r ∧ h'.view = h.view.setRegion i r := by
  simp only [onRegion, onSpace, ends_onPart]
  exact ends_onRegionOf hi hact

theorem region_eq (hi : i < h.view.maxRegions) : h.space.region i = .ok (h.regionAt i) :=
  region_eq_ok.2 (region?_eq_some.2 ⟨hi, rfl⟩)

/-- The region of an address that is committed. -/
theorem regionOf?_eq_regionAt {a : Nat} (hlow : h.view.low ≤ a) (hhigh : a < h.view.high)
    (hi : h.view.index a < h.view.maxRegions) :
    h.space.regionOf? a = .ok (some (h.regionAt (h.view.index a))) := by
  have hidx : h.space.indexOf? a = some (h.view.index a) := if_pos ⟨hlow, hhigh⟩
  simp only [regionOf?, hidx, region_eq hi]
  rfl

theorem ends_getRegion {post : Region → RegionHeap → Prop} (hi : i < h.view.maxRegions) :
    Ends (getRegion i) h post ↔ post (h.regionAt i) h := by
  simp only [getRegion, ends_bind, ends_get, ends_lift, region_eq hi]
  simp

/-- A reference into a committed region in use has a region. -/
theorem ends_regionOfObject {o : Nat} {post : Nat → RegionHeap → Prop}
    (hlow : h.view.low ≤ o) (hhigh : o < h.view.high)
    (hi : h.view.index o < h.view.maxRegions) (hstate : (h.view.regionOf o).state ≠ .empty) :
    Ends (regionOfObject o) h post ↔ post (h.view.index o) h := by
  have hidx : h.space.indexOf? o = some (h.view.index o) := if_pos ⟨hlow, hhigh⟩
  have hne : (h.regionAt (h.view.index o)).isEmpty = false := by
    have hs : (h.regionAt (h.view.index o)).state ≠ .empty := hstate
    simp [Region.isEmpty, hs]
  simp only [regionOfObject, ends_bind, ends_get, hidx, ends_getRegion hi, hne]
  simp

end RegionHeap

theorem Region.isLive_eq {r : Region} {o : Nat}
    (hf : r.marks.Fits r.space.bottom (r.space.limit - r.space.bottom))
    (hb : r.space.bottom ≤ o) (ho : o < r.space.limit) (ha : 8 ∣ o)
    (hs : 8 ∣ r.space.limit - r.space.bottom) :
    ∃ b, r.isLive o = .ok b ∧ (b = true ↔ r.markLimit ≤ o ∨ r.marks.Has o) := by
  unfold isLive isMarked
  by_cases hm : r.markLimit ≤ o
  · exact ⟨true, by simp [hm], by simp [hm]⟩
  · refine ⟨_, by rw [if_neg hm, hf.contains_eq hb (by omega) ha hs], ?_⟩
    simp only [hm, false_or]
    exact hf.holds_iff hb ha

end ManagedHeap
