/-
# The marking half of a cycle

A cycle begins with a snapshot: the tops of the regions in use, and what is reachable from the
roots.  What is not reachable is forgotten here, so the objects of the world become those of the
snapshot (`World.atMark`).  Marking ends with the choice of the regions to relocate, or with
nothing, when the cycle was cancelled or there is nothing to gain.

* Section 1: the mutators are stopped, and what no step of a cycle touches.
* Section 2: the snapshot, and the end of a marking that was cancelled.
* Section 3: the rules of the collector choose among the candidates, and none of them twice.
* Section 4: the states of the regions while the choice is made.
* Section 5: the end of a marking.  Everything that is alive is marked then, whatever the workers
  did to get there, so the statement is about any way to do the rest of the marking.
-/
import ManagedHeap.Proofs.Marking
import Mathlib.Data.List.Perm.Subperm

namespace ManagedHeap

/-! ## 1. While the mutators are stopped -/

namespace HeapView

/-- What no step of a cycle touches. -/
structure Steady (V V' : HeapView) : Prop where
  options : V'.options = V.options
  mutators : V'.mutators = V.mutators
  joined : V'.joined = V.joined
  pending : V.pending = false → V'.pending = false
  handles : ∀ {c}, c ∈ V.roots.cells → c.live = true → c ∈ V'.roots.cells
  counted : V.Counted none → V'.Counted none
  balanced : V.Balanced → V'.Balanced

/-- What a step of a cycle keeps that empties no region. -/
structure Stepped (V V' : HeapView) : Prop extends Steady V V' where
  grants : V.Grants V'
  tallied : V.Tallied → V'.Tallied

section
variable {V V' V'' : HeapView} {W : World} {st st' : Stage} {ts : List MarkTask} {o v : Nat}

/-- A step that moves nothing. -/
theorem Steady.of_space (S : SameSpace V V') (ho : V'.options = V.options)
    (hj : V'.joined = V.joined) (hpe : V.pending = false → V'.pending = false)
    (hh : ∀ {c}, c ∈ V.roots.cells → c.live = true → c ∈ V'.roots.cells) : Steady V V' where
  options := ho
  mutators := S.mutators
  joined := hj
  pending := hpe
  handles := hh
  counted := S.counted
  balanced := S.fills.balanced

theorem Stepped.of_space (S : SameSpace V V') (hp : ∀ o, V'.Published o ↔ V.Published o)
    (hm : V'.memory = V.memory) (ho : V'.options = V.options) (hj : V'.joined = V.joined)
    (hpe : V.pending = false → V'.pending = false)
    (hh : ∀ {c}, c ∈ V.roots.cells → c.live = true → c ∈ V'.roots.cells)
    (ht : V.Tallied → V'.Tallied) : Stepped V V' where
  toSteady := .of_space S ho hj hpe hh
  grants := .of_space S hp hm
  tallied := ht

theorem Steady.trans (S : Steady V V') (S' : Steady V' V'') : Steady V V'' where
  options := S'.options.trans S.options
  mutators := S'.mutators.trans S.mutators
  joined := S'.joined.trans S.joined
  pending h := S'.pending (S.pending h)
  handles hc hl := S'.handles (S.handles hc hl) hl
  counted h := S'.counted (S.counted h)
  balanced h := S'.balanced (S.balanced h)

theorem Marks.stepped (M : Marks V V') : Stepped V V' := by
  refine .of_space M.space (fun _ => M.published) M.memory ?_ ?_ (fun h => ?_)
    (fun hc _ => ?_) M.tallied
  all_goals rw [M.frame]
  · exact h
  · exact hc

theorem Marks.inStage (M : Marks V V') (hs : V.InStage st) : V'.InStage st := by
  rw [M.frame]
  exact hs

/-- The flags of the barriers and of the safepoint are nothing to the objects. -/
theorem Inv.setControl (I : V.Inv W st ts) {s : GcState} {p : CyclePhase} {c w : Bool} {j : Nat} :
    ({ V with gcState := s, phase := p, cancelRequested := c, joined := j, pending := w }).Inv
      W st ts := by
  have F := I.faithful
  have S : SameObjects V { V with
      gcState := s, phase := p, cancelRequested := c, joined := j, pending := w } :=
    SameObjects.of_eq rfl rfl rfl rfl
  exact ⟨I.layout.setControl rfl rfl, F.sameMemory S.1 (fun _ => S.live) rfl (fun h => h) rfl
    F.states F.unrecorded, fun hst => (I.snapshot hst).change S F rfl rfl rfl rfl (fun _ h => h)
      (fun _ h => (I.snapshot hst).recorded h) fun _ _ => .inl rfl⟩

theorem FieldOk.restage (h : V.FieldOk W st o v) (hst : st.stale = true → st'.stale = true) :
    V.FieldOk W st' o v :=
  h.imp_right fun h => h.imp_right fun h => ⟨h.1, h.2.imp_left fun h => ⟨hst h.1, h.2⟩⟩

theorem RootOk.restage (h : V.RootOk W st v) (hst : st.stale = true → st'.stale = true) :
    V.RootOk W st' v :=
  h.imp_right fun h => h.imp_right fun h => ⟨hst h.1, h.2⟩

end

end HeapView

namespace RegionHeap

open HeapView

section
variable {α : Type} {h : RegionHeap} {act : Action RegionHeap α} {st : Stage} {p : CyclePhase}
  {s : String} {a : α}

/-- The heap in which a collector waits for the mutators. -/
def stopped (h : RegionHeap) : RegionHeap :=
  { h with safepoint := { h.safepoint with pending := true } }

/-- The heap in which the mutators are let back in. -/
def resumed (h : RegionHeap) : RegionHeap :=
  { h with safepoint :=
      { h.safepoint with pending := false, completed := h.safepoint.completed + 1 } }

theorem ends_synchronize {post : α → RegionHeap → Prop} (hj : h.view.joined = 0) :
    Ends (synchronize act) h post ↔ Ends act h.stopped fun a h' => post a h'.resumed := by
  have hj' : ¬ h.safepoint.joined ≠ 0 := fun hne => hne hj
  simp only [synchronize, ends_bind, ends_onPart, Safepoint.request, Safepoint.release, ends_get,
    ends_ite, ends_set, ends_modify, ends_pure, hj', false_implies, true_and, not_false_eq_true,
    true_implies]
  rfl

theorem ends_inPhase {post : α → RegionHeap → Prop} (hs : h.view.InStage st) (hp : st.phase = p) :
    Ends (inPhase p s a act) h post ↔ Ends act h post := by
  have hp' : h.phase = p := hs.2.trans hp
  simp only [inPhase, ends_bind, ends_get, hp', if_true]

/-- A report changes nothing that is seen. -/
theorem ends_note {e : Event} {post : RegionHeap → Prop} (hpost : ∀ h', h'.view = h.view → post h') :
    Ends (note e) h fun _ => post := by
  simp only [note, noteAll, ends_modify]
  exact hpost _ rfl

/-- **A loop over the regions.**  `inv k h` holds when the first `k` regions were visited. -/
theorem ends_eachRegion {f : Nat → Action RegionHeap Unit} (inv : Nat → RegionHeap → Prop)
    (hstart : inv 0 h)
    (hstep : ∀ k h', k < h.view.committed → inv k h' → Ends (f k) h' fun _ h'' => inv (k + 1) h'') :
    Ends (eachRegion f) h fun _ h' => inv h.view.committed h' := by
  simp only [eachRegion, ends_bind, ends_get]
  refine ends_upTo inv hstart fun k h' hk hi => ?_
  rw [Nat.zero_add]
  exact hstep k h' hk hi

theorem ends_scanRoots {post : List Nat → RegionHeap → Prop} :
    Ends scanRoots h post ↔
      post h.view.roots.slots { h with core := { h.core with roots := h.core.roots.prune } } := by
  simp only [scanRoots, ends_onPart, RootSet.scan, ends_bind, ends_get, ends_set, ends_pure]
  rfl

end

end RegionHeap

/-! ## 2. The snapshot -/

/-- The region at the beginning of a marking. -/
def RegionView.prepared (r : RegionView) : RegionView :=
  if r.state = .empty then r
  else { r with markLimit := r.top, marks := r.marks.emptied, markedBytes := 0 }

theorem RegionView.prepared_eq (r : RegionView) :
    r.prepared = { r with
      markLimit := r.prepared.markLimit
      marks := r.prepared.marks
      markedBytes := r.prepared.markedBytes } := by
  unfold prepared
  split <;> rfl

namespace HeapView

/-- What the roots hold. -/
def rootValues (V : HeapView) : Set Nat :=
  { v | ∃ c ∈ V.roots.cells, c.live = true ∧ V.memory.read c.slot = v }

/-- The view at the beginning of a marking. -/
def prepared (V : HeapView) : HeapView :=
  { V with region := fun i => (V.region i).prepared, grey := ∅, roots := V.roots.prune }

end HeapView

/-- The world at the beginning of a marking: its objects are those that are reachable. -/
def World.atMark (W : World) (V : HeapView) : World :=
  { W with
    objects := { o | Reached V.memory V.rootValues o }
    snapshot := V.memory
    rootValues := V.rootValues }

namespace HeapView

section
variable {V V' : HeapView} {W : World} {ts : List MarkTask} {o v : Nat}

theorem published_prepared : V.prepared.Published o ↔ V.Published o := by
  show ((V.region (V.index o)).prepared).starts.Has o ↔ _
  rw [RegionView.prepared_eq]
  rfl

theorem sameSpace_prepared : SameSpace V V.prepared := by
  refine ⟨⟨rfl, rfl, rfl⟩, rfl, rfl, fun i => ?_, fun i => ?_, fun i => ?_, fun i => ?_⟩
  all_goals
    show _ = _
    simp only [prepared]
    rw [RegionView.prepared_eq]

theorem Layout.prepared (L : V.Layout) : V.prepared.Layout := by
  have hok (i : Nat) : V.RegionOk i (V.region i).prepared := by
    have hr := L.regions i
    unfold RegionView.prepared
    split
    · exact hr
    · exact { hr with
        bottom_le := Nat.le_trans hr.bottom_le hr.markLimit_le
        markLimit_le := Nat.le_refl _
        marks := hr.marks.emptied
        unmarked := fun _ => ⟨rfl, fun _ => AddressSet.not_has_emptied⟩ }
  have L₁ : ({ V with region := fun i => (V.region i).prepared }).Layout := by
    refine L.setRegions hok (fun i => ?_) (fun i => ?_) (fun i => ?_) fun i hi => ?_
    all_goals rw [RegionView.prepared_eq]
    · exact L.tlabs.counted i
    · exact hi.elim (L.mutatorRegion i) (L.evacRegion i)
  refine (L₁.setControl (g := ∅) rfl rfl).setRoots fun c hc => ?_
  exact L.roots c (List.mem_filter.1 hc).1

theorem rootValues_prepared : V.prepared.rootValues = V.rootValues := by
  ext v
  constructor
  · rintro ⟨c, hc, h⟩
    exact ⟨c, (List.mem_filter.1 hc).1, h⟩
  · rintro ⟨c, hc, hl, h⟩
    exact ⟨c, List.mem_filter.2 ⟨hc, hl⟩, hl, h⟩

/-- Nothing was allocated since, and nothing is marked. -/
theorem Layout.surveyed_prepared (L : V.Layout) : V.prepared.Surveyed := by
  have hmarks (i : Nat) (a : Nat) : ¬ (V.region i).prepared.marks.Has a := by
    unfold RegionView.prepared
    split
    · rename_i he
      exact ((L.regions i).unmarked he).2 a
    · exact AddressSet.not_has_emptied
  refine ⟨fun i => ?_, fun i => ?_, fun h => absurd h (hmarks _ _)⟩
  · show (V.region i).prepared.markLimit = (V.region i).prepared.top
    unfold RegionView.prepared
    split
    · rename_i he
      have hr := L.regions i
      have htop := (hr.empty he).1
      exact Nat.le_antisymm hr.markLimit_le (htop ▸ hr.bottom_le)
    · rfl
  · have hfit := (L.prepared.regions i).marks
    rw [hfit.members_eq_empty (hmarks i), Finset.sum_empty]
    show (V.region i).prepared.markedBytes = 0
    unfold RegionView.prepared
    split
    · rename_i he
      exact ((L.regions i).unmarked he).1
    · rfl

/-- Right after the snapshot nothing is live: no object is above the top of its region. -/
theorem Layout.not_live_prepared (L : V.Layout) (h : V.Published o) : ¬ V.prepared.Live o := by
  have hB := L.bounds h
  have hreg : V.prepared.regionOf o =
      { V.regionOf o with
        markLimit := (V.regionOf o).top, marks := (V.regionOf o).marks.emptied, markedBytes := 0 } :=
    if_neg hB.state
  rw [Live, hreg]
  rintro (hle | hm)
  · exact absurd hB.lt_top (Nat.not_lt.2 hle)
  · exact AddressSet.not_has_emptied hm

/-- What is reachable is an object of the program, outside of cycles. -/
theorem Faithful.mem_of_reached (F : V.Faithful W .idle) (hl : W.loose = ∅)
    (h : Reached V.memory V.rootValues o) : o ∈ W.objects := by
  induction h with
  | root hv h0 =>
    obtain ⟨c, hc, hlive, rfl⟩ := hv
    rcases (F.roots hc hlive).1 with h | h | ⟨h, -⟩
    · exact absurd h h0
    · exact h.1
    · cases h
  | field ho hi h0 ih =>
    rcases (F.fields ih hi).1 with h | h | ⟨-, ⟨h, -⟩ | h⟩
    · exact absurd h h0
    · exact h.1
    · cases h
    · rw [hl] at h
      cases h

/-- Forgetting what is not reachable leaves a faithful heap. -/
theorem Faithful.atMark (F : V.Faithful W .idle) (hl : W.loose = ∅) :
    V.Faithful (W.atMark V) .marking := by
  have hsub {o : Nat} (h : o ∈ (W.atMark V).objects) : o ∈ W.objects := F.mem_of_reached hl h
  have hcalm {o : Nat} : ¬ V.Relocating o := (F.states _).2 rfl
  have hcur {v : Nat} (h : v = 0 ∨ v ∈ (W.atMark V).objects) :
      v = 0 ∨ V.Current (W.atMark V) v := h.imp_right fun h => ⟨h, fun hr => absurd hr hcalm⟩
  have hzero {o : Nat} (h : V.Published o) : V.memory.read o = 0 := by
    rcases F.status h with h0 | ⟨hr, -⟩ | ⟨c, hc⟩
    · exact h0
    · exact absurd hr hcalm
    · exact absurd hc.relocating hcalm
  refine ⟨fun h => F.published (hsub h), F.count_pos, F.name_zero, fun h => F.name_pos (hsub h),
    fun h => F.name_lt (hsub h), fun h h' => F.name_inj (hsub h) (hsub h'),
    fun h => F.refs (hsub h), fun h => F.bytes (hsub h), fun {o i} ho hi => ?_,
    fun h => F.words (hsub h), fun {c} hc hlive => ?_, F.registered, fun h => .inl (hzero h),
    fun hk => ?_, F.states, fun h => absurd rfl h, fun h => (by cases h), fun h => (by simp at h),
    fun h => absurd rfl h⟩
  · refine ⟨(hcur ?_).imp_right .inl, (F.fields (hsub ho) hi).2⟩
    by_cases h0 : V.memory.read (Object.field o i) = 0
    · exact .inl h0
    · exact .inr (.field ho hi h0)
  · refine ⟨(hcur ?_).imp_right .inl, (F.roots hc hlive).2⟩
    by_cases h0 : V.memory.read c.slot = 0
    · exact .inl h0
    · exact .inr (.root ⟨c, hc, hlive, rfl⟩ h0)
  · obtain ⟨o, ho, -, hs⟩ := F.excused hk
    exact absurd (hs.symm.trans (hzero (F.published ho))) Object.tagged_ne_zero

/-- **Marking begins**, with what the roots hold to be marked. -/
theorem Inv.beginMarking (I : V.Inv W .idle ts) (hl : W.loose = ∅) :
    V.prepared.Inv (W.atMark V) .marking
      (V.roots.slots.map fun a => .entry (V.memory.read a)) := by
  have F := I.faithful.atMark hl
  have S : SamePlaces V V.prepared := by
    refine ⟨fun _ => rfl, fun i => ?_, fun _ => published_prepared, fun _ => ?_, fun _ => rfl,
      fun _ => rfl⟩
    · show ((V.region i).prepared).evacFailed = _
      rw [RegionView.prepared_eq]
    · show ((V.region (V.index _)).prepared).state = _ ↔ _
      rw [RegionView.prepared_eq]
      rfl
  have hdead {o : Nat} (h : V.prepared.Published o) : ¬ V.prepared.Live o :=
    I.layout.not_live_prepared (published_prepared.1 h)
  have hrec (v : Nat) : ¬ V.prepared.satb.Recorded v := I.faithful.unrecorded (by simp) v
  have hentry {t : MarkTask} : t ∈ V.roots.slots.map (fun a => .entry (V.memory.read a)) ↔
      ∃ v ∈ V.rootValues, t = .entry v := by
    simp only [RootSet.slots, List.map_map, List.mem_map, List.mem_filter, rootValues]
    constructor
    · rintro ⟨c, ⟨hc, hlive⟩, rfl⟩
      exact ⟨_, ⟨c, hc, hlive, rfl⟩, rfl⟩
    · rintro ⟨v, ⟨c, hc, hlive, rfl⟩, rfl⟩
      exact ⟨c, ⟨hc, hlive⟩, rfl⟩
  refine ⟨I.layout.prepared, F.sameMemory S (fun h => absurd rfl h) rfl
    (fun hc => (List.mem_filter.1 hc).1) rfl (fun i => ?_) (fun h => absurd rfl h), fun _ => ?_⟩
  · show ((V.region i).prepared).state ≠ _ ∧ (_ → ((V.region i).prepared).state ≠ _)
    rw [RegionView.prepared_eq]
    exact F.states i
  · refine ⟨fun h => h, fun _ => rfl, fun h hlive => absurd hlive (hdead h),
      fun h hb => absurd h hb, fun {v} hv => .inr (.inr (.inr (hentry.2 ⟨v, hv, rfl⟩))),
      fun {o i} h _ => ?_, fun h => absurd h (hrec _), fun h => (by cases h), fun {t} ht => ?_⟩
    · exact .inr (.inr ⟨.inl (hdead (published_prepared.2 (F.published h))), rfl⟩)
    · obtain ⟨v, hv, rfl⟩ := hentry.1 ht
      by_cases h0 : v = 0
      · exact .inl h0
      · exact .inr (.root hv h0)

/-- Marking comes to nothing, when all that was recorded is forgotten or done. -/
theorem Faithful.toIdle (F : V.Faithful W .marking) (hrec : ∀ v, ¬ V.satb.Recorded v)
    (hlive : ∀ {o}, V.Published o → V.Live o → o ∈ W.objects) : V.Faithful W .idle :=
  { F with
    fields := fun ho hi => (F.fields ho hi).imp_left fun h => h.restage fun h => by cases h
    roots := fun hc hl => (F.roots hc hl).imp_left fun h => h.restage fun h => by cases h
    survivors := fun _ _ hp hl => .inl (hlive hp hl)
    live := fun h => by cases h
    copied := fun h => by simp at h
    unrecorded := fun _ => hrec }

/-- The end of a marking that was cancelled: what was marked is forgotten. -/
theorem Inv.abandon (I : V.Inv W .marking ts) :
    ({ V with satb := V.satb.abandon, grey := ∅ }).Inv W .idle [] := by
  have S : SameObjects V { V with satb := V.satb.abandon, grey := ∅ } :=
    SameObjects.of_eq rfl rfl rfl rfl
  have F := I.faithful.sameMemory S.1 (fun _ => S.live) rfl (fun h => h) rfl I.faithful.states
    fun h => absurd rfl h
  exact ⟨I.layout.setControl SatbQueues.ids_abandon rfl,
    F.toIdle (fun _ => SatbQueues.not_recorded_abandon) fun hp hl => (I.snapshot rfl).live_mem hp hl,
    fun h => by cases h⟩

end

end HeapView

/-- What the first step of a cycle has done. -/
structure HeapView.MarkingBegun (V : HeapView) (W : World) (V' : HeapView) : Prop where
  inv : V'.Inv (W.atMark V) .marking []
  inStage : V'.InStage .marking
  stepped : Stepped V V'
  published : ∀ o, V'.Published o ↔ V.Published o
  cancel : V'.cancelRequested = false
  memory : V'.memory = V.memory
  rootValues : V'.rootValues = V.rootValues
  surveyed : V'.Surveyed

namespace RegionHeap

open HeapView

section
variable {h : RegionHeap} {W : World} {ts : List MarkTask} {i : Nat}

theorem ends_prepareRegion (hi : i < h.view.maxRegions) :
    Ends (prepareRegion i) h fun _ h' =>
      h'.view = h.view.setRegion i (h.view.region i).prepared := by
  simp only [prepareRegion, ends_bind]
  rw [ends_getRegion hi]
  have hempty : (h.regionAt i).isEmpty = decide ((h.view.region i).state = .empty) := by
    simp only [Region.isEmpty, view, Region.view, beq_eq_decide]
    rfl
  simp only [hempty, ends_ite, ends_pure, Bool.not_eq_true', decide_eq_false_iff_not]
  refine ⟨fun hne => ?_, fun he => ?_⟩
  · refine (ends_onRegion hi Region.acts_prepareForMark).mono ?_
    rintro _ h' ⟨r, rfl, hv⟩
    rw [hv, RegionView.prepared, if_neg hne]
  · rw [RegionView.prepared, if_pos (Decidable.not_not.1 he), setRegion_self]

/-- The regions in use take their snapshots. -/
theorem ends_prepare (L : h.view.Layout) :
    Ends (eachRegion prepareRegion) h fun _ h' =>
      h'.view = { h.view with region := fun i => (h.view.region i).prepared } := by
  let V (k : Nat) : HeapView :=
    { h.view with region := fun i => if i < k then (h.view.region i).prepared else h.view.region i }
  refine (ends_eachRegion (fun k h' => h'.view = V k) ?_ fun k h' hk hv => ?_).mono fun _ h' hv => ?_
  · simp [V]
  · have hmax : k < h'.view.maxRegions := by
      rw [hv]
      exact Nat.lt_of_lt_of_le hk L.geometry.committed_le
    refine (ends_prepareRegion hmax).mono fun _ h'' hv' => ?_
    rw [hv', hv]
    simp only [V, setRegion, Nat.lt_irrefl, if_false]
    congr 1
    funext j
    by_cases hj : j = k
    · simp [hj]
    · have hlt : j < k + 1 ↔ j < k := by omega
      simp [hj, hlt]
  · rw [hv]
    simp only [V]
    congr 1
    funext j
    split
    · rfl
    · rename_i hj
      rw [RegionView.prepared, if_pos ((L.regions j).uncommitted (Nat.le_of_not_lt hj))]

/-- **The first step of a cycle** marks the roots of a snapshot. -/
theorem ends_initMark (I : h.view.Inv W .idle ts) (hs : h.view.InStage .idle)
    (hl : W.loose = ∅) (hj : h.view.joined = 0) :
    Ends initMark h fun b h' => b = true ∧ h.view.MarkingBegun W h'.view := by
  rw [initMark, ends_synchronize hj, ends_inPhase (h := h.stopped) (p := .idle) hs rfl]
  simp only [clearQueue, modifyQueue, ends_bind, ends_modify]
  have L₀ : ({ h.view with cancelRequested := false, grey := ∅, pending := true }).Layout :=
    I.layout.setControl rfl rfl
  refine (ends_prepare L₀).mono fun _ h₁ hv => ?_
  rw [ends_scanRoots]
  -- The snapshot was taken, and the roots are to be marked.
  let h₂ : RegionHeap := { h₁ with core := { h₁.core with roots := h₁.core.roots.prune } }
  have hv₂ : h₂.view = { h.view.prepared with cancelRequested := false, pending := true } := by
    show ({ h₁.view with roots := h₁.view.roots.prune } : HeapView) = _
    rw [hv]
    rfl
  have hslots : h₁.view.roots.slots = h.view.roots.slots := by
    rw [hv]
    rfl
  have I₂ : h₂.view.Inv (W.atMark h.view) .marking
      (h.view.roots.slots.map fun a => .entry (h.view.memory.read a)) := by
    rw [hv₂]
    exact (I.beginMarking hl).setControl
  rw [hslots]
  refine (ends_each (s := h₂) (fun _ rest (h' : RegionHeap) => h₂.Worked (W.atMark h.view).objects
    (h.view.roots.slots.map fun a => .entry (h.view.memory.read a)) h'
    (rest.map fun a => .entry (h.view.memory.read a))) (.refl I₂.traceable)
    fun done a rest h' _ K => ?_).mono fun _ h₃ K => ?_
  · simp only [markSlot, ends_bind, ends_loadSlot]
    have hread : (HasMemory.memory h').read a = h.view.memory.read a := by
      show h'.view.memory.read a = _
      rw [K.marks.memory, hv₂]
      rfl
    rw [hread]
    exact (ends_markAndPush K.traceable).mono fun _ h'' K' => K.trans K'
  · simp only [setGcState, setPhase, ends_modify, ends_get]
    refine ends_note fun h₄ hv₄ => ?_
    rw [ends_pure]
    have hfinal : h₄.resumed.view = { h₃.view with
        gcState := .duringMark, phase := .concurrentMark, pending := false } := by
      show ({ h₄.view with pending := false } : HeapView) = _
      rw [hv₄]
      rfl
    have hframe := K.marks.frame
    have hspace : SameSpace h.view h₄.resumed.view := by
      have S : SameSpace h.view h₂.view := by
        rw [hv₂]
        exact { sameSpace_prepared (V := h.view) with }
      rw [hfinal]
      exact { S.trans K.marks.space with }
    have hpub (o : Nat) : h₄.resumed.view.Published o ↔ h.view.Published o := by
      rw [hfinal]
      refine (K.marks.published (o := o)).trans ?_
      rw [hv₂]
      exact published_prepared
    have hmemory : h₄.resumed.view.memory = h.view.memory := by
      rw [hfinal, hframe, hv₂]
      rfl
    have X : h₂.view.Surveyed := by
      rw [hv₂]
      exact { I.layout.surveyed_prepared with }
    have hsurveyed : h₄.resumed.view.Surveyed := by
      rw [hfinal]
      exact { K.marks.surveyed X with }
    have hinv : h₄.resumed.view.Inv (W.atMark h.view) .marking [] := by
      rw [hfinal]
      exact (K.inv I₂).setControl
    refine ⟨rfl, hinv, ?_, .of_space hspace hpub hmemory ?_ ?_ ?_ ?_
      fun _ => hsurveyed.tallied hinv.layout, hpub, ?_, hmemory, ?_, hsurveyed⟩
    · rw [hfinal]
      exact ⟨rfl, rfl⟩
    · rw [hfinal, hframe, hv₂]
      rfl
    · rw [hfinal, hframe, hv₂]
      rfl
    · rw [hfinal]
      exact fun _ => rfl
    · rw [hfinal, hframe, hv₂]
      exact fun hc hlive => List.mem_filter.2 ⟨hc, hlive⟩
    · rw [hfinal, hframe, hv₂]
    · have hr : h₄.resumed.view.rootValues = h.view.prepared.rootValues := by
        rw [hfinal, hframe, hv₂]
        rfl
      rw [hr, rootValues_prepared]

/-- Marking is abandoned. -/
theorem ends_abandonMarking :
    Ends abandonMarking h fun _ h' => h'.view = { h.view with
      gcState := .idle, phase := .idle, satb := h.view.satb.abandon, grey := ∅ } := by
  simp only [abandonMarking, setGcState, modifySatb, clearQueue, modifyQueue, setPhase,
    modifyCycleStats, ends_bind, ends_modify]
  exact ends_note fun h' hv => hv

/-- **The second step of a cycle** ends the marking, or the cycle, if that was cancelled. -/
theorem ends_concurrentMark (I : h.view.Inv W .marking []) (hs : h.view.InStage .marking)
    (hj : h.view.joined = 0) :
    Ends concurrentMark h fun b h' => Stepped h.view h'.view ∧
      (b = true → h'.view.Inv W .marking [] ∧ Marks h.view h'.view) ∧
      (b = false → h.view.cancelRequested = true ∧ h'.view.Inv W .idle [] ∧
        h'.view.InStage .idle) := by
  rw [concurrentMark, ends_inPhase (p := .concurrentMark) hs rfl]
  simp only [ends_bind]
  refine (ends_drain_inv I).mono ?_
  rintro b h₁ ⟨hno, hyes⟩
  cases b with
  | true =>
    obtain ⟨I₁, M, -⟩ := hyes rfl
    simp only [Bool.not_true, Bool.false_eq_true, if_false, ends_pure]
    exact ⟨M.stepped, fun _ => ⟨I₁, M⟩, fun h => by cases h⟩
  | false =>
    obtain ⟨-, hc, rfl⟩ := hno rfl
    simp only [Bool.not_false, if_true, ends_bind]
    rw [ends_synchronize hj]
    refine (ends_abandonMarking (h := h₁.stopped)).mono fun _ h₂ hv => ?_
    rw [ends_pure]
    have hfinal : h₂.resumed.view = { h₁.view with
        gcState := .idle, phase := .idle, satb := h₁.view.satb.abandon, grey := ∅,
        pending := false } := by
      show ({ h₂.view with pending := false } : HeapView) = _
      rw [hv]
      rfl
    rw [hfinal]
    exact ⟨.of_space { SameSpace.refl h₁.view with } (fun _ => Iff.rfl) rfl rfl rfl
      (fun _ => rfl) (fun hc _ => hc) fun X => { X with }, fun h => (by cases h),
      fun _ => ⟨hc, I.abandon.setControl, rfl, rfl⟩⟩

end

end RegionHeap

/-! ## 3. The choice of regions -/

namespace CyclePolicy

theorem insertByGarbage_perm (c : Candidate) (cs : List Candidate) :
    (insertByGarbage c cs).Perm (c :: cs) := by
  induction cs with
  | nil => exact List.Perm.refl _
  | cons d rest ih =>
    unfold insertByGarbage
    split
    · exact List.Perm.refl _
    · exact (ih.cons d).trans (List.Perm.swap c d rest)

theorem byGarbage_perm (cs : List Candidate) : (byGarbage cs).Perm cs := by
  induction cs with
  | nil => exact List.Perm.refl _
  | cons c rest ih => exact (insertByGarbage_perm c _).trans (ih.cons c)

theorem withinBudget_sublist (budget : Nat) (cs : List Candidate) :
    (withinBudget budget cs).Sublist cs := by
  induction cs generalizing budget with
  | nil => exact List.Sublist.refl _
  | cons c rest ih =>
    unfold withinBudget
    split
    · exact (ih _).cons_cons c
    · exact (ih _).cons c

/-- **What is chosen are candidates, each at most once.** -/
theorem choose_subperm (o : Options) (s : HeapStatus) (cs : List Candidate) :
    (choose o s cs).Subperm (cs.map (·.index)) := by
  have hw (threshold : Nat) : (worthwhile threshold cs).Subperm cs := List.filter_sublist.subperm
  have hmap {l : List Candidate} (h : l.Subperm cs) :
      (l.map (·.index)).Subperm (cs.map (·.index)) := by
    obtain ⟨l', hp, hs⟩ := h
    exact ⟨_, hp.map _, hs.map _⟩
  unfold choose
  split
  · exact hmap (((withinBudget_sublist _ _).subperm.trans (byGarbage_perm _).subperm).trans (hw _))
  · exact hmap (hw _)
  · exact hmap (hw _)
  · exact hmap (hw _)

/-- The aggressive rules choose whatever has garbage. -/
theorem mem_choose_aggressive {o : Options} {s : HeapStatus} {cs : List Candidate} {i : Nat}
    (ho : o.heuristics = .aggressive) :
    i ∈ choose o s cs ↔ ∃ c ∈ cs, 0 < c.garbage ∧ c.index = i := by
  simp only [choose, ho, worthwhile, List.mem_map, List.mem_filter, Nat.zero_le, decide_true,
    Bool.and_true, decide_eq_true_eq, and_assoc]

end CyclePolicy

/-! ## 4. The states of the regions -/

/-- The marked bytes of a region, and what was allocated since marking began. -/
def RegionView.live (r : RegionView) : Nat := r.markedBytes + (r.top - r.markLimit)

/-- The allocated bytes of a region that are not live. -/
def RegionView.garbage (r : RegionView) : Nat := r.top - r.bottom - r.live

namespace HeapView

/-- What the rules see of a region. -/
def candidate (V : HeapView) (i : Nat) : Candidate := ⟨i, (V.region i).live, (V.region i).garbage⟩

/-- The view with other states of the regions. -/
def withStates (V : HeapView) (f : Nat → RegionState) : HeapView :=
  { V with region := fun i => { V.region i with state := f i } }

/-- The states of the regions. -/
def states (V : HeapView) (i : Nat) : RegionState := (V.region i).state

theorem withStates_states (V : HeapView) : V.withStates V.states = V := rfl

/-- The states after the regions below an index have moved from one state to another. -/
def passed (f : Nat → RegionState) (src dst : RegionState) (k i : Nat) : RegionState :=
  if i < k ∧ f i = src then dst else f i

section
variable {f : Nat → RegionState} {src dst : RegionState} {k : Nat}

theorem passed_zero : passed f src dst 0 = f := by
  funext i
  simp [passed]

theorem passed_self : passed f src dst k k = f k := if_neg fun h => Nat.lt_irrefl k h.1

theorem update_passed (h : f k = src) :
    Function.update (passed f src dst k) k dst = passed f src dst (k + 1) := by
  funext i
  by_cases hi : i = k
  · subst hi
    rw [Function.update_self, passed, if_pos ⟨Nat.lt_succ_self _, h⟩]
  · have hlt : i < k + 1 ↔ i < k := by omega
    simp only [Function.update_of_ne hi, passed, hlt]

theorem passed_succ (h : f k ≠ src) : passed f src dst k = passed f src dst (k + 1) := by
  funext i
  by_cases hi : i = k
  · subst hi
    rw [passed_self, passed, if_neg fun hc => h hc.2]
  · have hlt : i < k + 1 ↔ i < k := by omega
    simp only [passed, hlt]

end

theorem withStates_setRegion {V : HeapView} {f : Nat → RegionState} {i : Nat} {s : RegionState} :
    (V.withStates f).setRegion i { (V.withStates f).region i with state := s } =
      V.withStates (Function.update f i s) := by
  simp only [withStates, setRegion]
  congr 1
  funext j
  by_cases hj : j = i
  · subst hj
    simp
  · simp [hj]

end HeapView

namespace RegionHeap

open HeapView

section
variable {h : RegionHeap} {V : HeapView} {f : Nat → RegionState} {i n : Nat}

/-- A region of a heap of which the states are known moves from one to another. -/
theorem ends_move (hv : h.view = V.withStates f) (hi : i < V.maxRegions) {src dst : RegionState}
    (hf : f i = src) (hc : src.canBecome dst = true) :
    Ends (onRegion i (Region.transition src dst)) h fun _ h' =>
      h'.view = V.withStates (Function.update f i dst) := by
  have hi' : i < h.view.maxRegions := by
    rw [hv]
    exact hi
  have hs : (h.view.region i).state = src := by
    rw [hv]
    exact hf
  refine (ends_onRegion hi' (Region.acts_transition hs hc)).mono ?_
  rintro _ h' ⟨r, rfl, hv'⟩
  rw [hv', hv, withStates_setRegion]

/-- The sizes that the rules look at can be computed. -/
theorem liveBytes_eq (L : V.Layout) (hv : h.view = V.withStates f) (i : Nat) :
    (h.regionAt i).liveBytes = .ok (V.region i).live := by
  have hreg : (h.regionAt i).view = { V.region i with state := f i } :=
    congrArg (fun V : HeapView => V.region i) hv
  have hl : (h.regionAt i).markLimit = (V.region i).markLimit := congrArg RegionView.markLimit hreg
  have ht : (h.regionAt i).top = (V.region i).top := congrArg RegionView.top hreg
  have hm : (h.regionAt i).markedBytes = (V.region i).markedBytes :=
    congrArg RegionView.markedBytes hreg
  have hle := (L.regions i).markLimit_le
  refine Except.bind_eq_ok.2 ⟨_, distance_eq_ok.2 ⟨by rw [hl, ht]; exact hle, rfl⟩, ?_⟩
  rw [hl, ht, hm]
  rfl

theorem garbageBytes_eq (L : V.Layout) (hv : h.view = V.withStates f) (i : Nat) :
    (h.regionAt i).garbageBytes = .ok (V.region i).garbage := by
  have hreg : (h.regionAt i).view = { V.region i with state := f i } :=
    congrArg (fun V : HeapView => V.region i) hv
  have hb : (h.regionAt i).space.bottom = (V.region i).bottom := congrArg RegionView.bottom hreg
  have ht : (h.regionAt i).space.top = (V.region i).top := congrArg RegionView.top hreg
  refine Except.bind_eq_ok.2 ⟨_, liveBytes_eq L hv i, ?_⟩
  show Except.ok ((h.regionAt i).space.top - (h.regionAt i).space.bottom - _) = _
  rw [ht, hb]
  rfl

/-- What a candidate is: a region that was allocated in, and is not any more. -/
structure IsCandidate (V : HeapView) (i : Nat) : Prop where
  committed : i < V.committed
  state : V.states i = .allocating
  mutator : V.mutatorRegion ≠ some i
  evacuation : V.evacRegion ≠ some i
  tlabs : (V.region i).activeTlabs = 0

/-- The marking of a region ends. -/
theorem ends_endMarking (L : V.Layout)
    (hv : h.view = V.withStates (passed V.states .allocating .marked i)) (hi : i < V.committed) :
    Ends (endMarking i) h fun c h' =>
      h'.view = V.withStates (passed V.states .allocating .marked (i + 1)) ∧
        ∀ x, c = some x ↔ IsCandidate V i ∧ x = V.candidate i := by
  have hmax : i < V.maxRegions := Nat.lt_of_lt_of_le hi L.geometry.committed_le
  have hmax' : i < h.view.maxRegions := by
    rw [hv]
    exact hmax
  have hreg : (h.regionAt i).view =
      { V.region i with state := passed V.states .allocating .marked i i } :=
    congrArg (fun V : HeapView => V.region i) hv
  have hstate : (h.regionAt i).state = V.states i :=
    (congrArg RegionView.state hreg).trans passed_self
  simp only [endMarking, ends_bind]
  rw [ends_getRegion hmax', ends_ite, hstate]
  refine ⟨fun hs => ?_, fun hs => ?_⟩
  · simp only [ends_bind]
    refine (ends_move hv hmax (passed_self.trans hs) rfl).mono fun _ h₁ hv₁ => ?_
    rw [update_passed hs] at hv₁
    have hmut : h₁.space.mutatorRegion = V.mutatorRegion := congrArg HeapView.mutatorRegion hv₁
    have hev : h₁.space.evacRegion = V.evacRegion := congrArg HeapView.evacRegion hv₁
    have htl : (h.regionAt i).activeTlabs = (V.region i).activeTlabs :=
      congrArg RegionView.activeTlabs hreg
    have hlive := liveBytes_eq L hv i
    have hgarbage := garbageBytes_eq L hv i
    simp only [ends_get, ends_ite, ends_bind, ends_lift, hlive, hgarbage, ends_pure,
      RegionSpace.isCurrent, hmut, hev, htl, Bool.and_eq_true, Bool.not_eq_true',
      Bool.or_eq_false_iff, beq_eq_false_iff_ne, ne_eq, decide_eq_true_eq]
    refine ⟨fun hc => ⟨_, rfl, _, rfl, hv₁, fun x => ?_⟩, fun hc => ⟨hv₁, fun x => ?_⟩⟩
    · rw [Option.some_inj, eq_comm]
      exact (and_iff_right ⟨hi, hs, hc.1.1, hc.1.2, hc.2⟩).symm
    · exact iff_of_false (by simp) fun hx => hc ⟨⟨hx.1.mutator, hx.1.evacuation⟩, hx.1.tlabs⟩
  · rw [ends_pure, ← passed_succ hs]
    exact ⟨hv, fun x => iff_of_false (by simp) fun hx => hs hx.1.state⟩

/-- The marking of the regions ends, and the candidates are listed in order. -/
theorem ends_candidatesFrom (L : V.Layout)
    (hv : h.view = V.withStates (passed V.states .allocating .marked i))
    (hn : i + n ≤ V.committed) :
    Ends (candidatesFrom i n) h fun cs h' =>
      h'.view = V.withStates (passed V.states .allocating .marked (i + n)) ∧
        (cs.map (·.index)).Nodup ∧ ∀ x, x ∈ cs ↔
          (i ≤ x.index ∧ x.index < i + n) ∧ IsCandidate V x.index ∧ x = V.candidate x.index := by
  induction n generalizing h i with
  | zero =>
    simp only [candidatesFrom, ends_pure]
    exact ⟨hv, by simp, fun x => iff_of_false (by simp) (by omega)⟩
  | succ n ih =>
    simp only [candidatesFrom, ends_bind]
    refine (ends_endMarking L hv (by omega)).mono ?_
    rintro first h₁ ⟨hv₁, hfirst⟩
    refine (ih hv₁ (by omega)).mono ?_
    rintro rest h₂ ⟨hv₂, hnodup, hmem⟩
    rw [ends_pure]
    refine ⟨by rw [hv₂]; congr 2; omega, ?_, fun x => ?_⟩
    · cases first with
      | none => exact hnodup
      | some x =>
        refine List.nodup_cons.2 ⟨fun hx => ?_, hnodup⟩
        obtain ⟨-, rfl⟩ := (hfirst x).1 rfl
        obtain ⟨y, hy, he⟩ := List.mem_map.1 hx
        have hle := ((hmem y).1 hy).1.1
        rw [he] at hle
        exact absurd hle (Nat.not_succ_le_self i)
    · rw [List.mem_append, Option.mem_toList, hfirst, hmem]
      constructor
      · rintro (⟨hc, rfl⟩ | ⟨hle, hc⟩)
        · exact ⟨⟨Nat.le_refl _, Nat.lt_add_of_pos_right (Nat.succ_pos _)⟩, hc, rfl⟩
        · exact ⟨by omega, hc⟩
      · rintro ⟨hle, hc, hx⟩
        by_cases he : x.index = i
        · exact .inl ⟨he ▸ hc, he ▸ hx⟩
        · exact .inr ⟨by omega, hc, hx⟩

/-- The chosen regions are to be relocated. -/
theorem ends_relocateChosen {chosen : List Nat} (hv : h.view = V.withStates f)
    (hn : chosen.Nodup) (hf : ∀ i ∈ chosen, i < V.maxRegions ∧ f i = .marked) :
    Ends (Action.each chosen fun i => onRegion i (Region.transition .marked .relocating)) h
      fun _ h' => h'.view = V.withStates fun i => if i ∈ chosen then .relocating else f i := by
  refine ends_each (fun done _ (h' : RegionHeap) => h'.view =
    V.withStates fun i => if i ∈ done then .relocating else f i) (by simpa using hv)
    fun done x rest h' hl hv' => ?_
  have hx : x ∈ chosen := hl ▸ List.mem_append_right _ List.mem_cons_self
  have hnew : x ∉ done := fun hd =>
    (List.nodup_append.1 (hl ▸ hn)).2.2 x hd x List.mem_cons_self rfl
  have hs : (if x ∈ done then RegionState.relocating else f x) = .marked := by
    rw [if_neg hnew]
    exact (hf x hx).2
  refine (ends_move hv' (hf x hx).1 hs rfl).mono fun _ h'' hv'' => ?_
  rw [hv'']
  congr 1
  funext i
  by_cases hi : i = x
  · simp [hi]
  · simp [hi]

/-- The other marked regions are allocated in again. -/
theorem ends_release (hv : h.view = V.withStates f) (hc : V.committed ≤ V.maxRegions) :
    Ends (eachRegion releaseRegion) h fun _ h' =>
      h'.view = V.withStates (passed f .marked .allocating V.committed) := by
  have hcom : h.view.committed = V.committed := by
    rw [hv]
    rfl
  rw [← hcom]
  refine ends_eachRegion (fun k h' => h'.view = V.withStates (passed f .marked .allocating k))
    (by rw [passed_zero]; exact hv) fun k h' hk hv' => ?_
  have hmax : k < V.maxRegions := by omega
  have hmax' : k < h'.view.maxRegions := by
    rw [hv']
    exact hmax
  have hstate : (h'.regionAt k).state = f k :=
    (congrArg (fun V : HeapView => (V.region k).state) hv').trans passed_self
  simp only [releaseRegion, ends_bind]
  rw [ends_getRegion hmax', ends_ite, hstate]
  refine ⟨fun hs => ?_, fun hs => ?_⟩
  · refine (ends_move hv' hmax (passed_self.trans hs) rfl).mono fun _ h'' hv'' => ?_
    rw [hv'', update_passed hs]
  · rw [ends_pure, ← passed_succ hs]
    exact hv'

/-- The sizes of the chosen regions can be added up. -/
theorem ends_garbageOf {l : List Nat} (L : V.Layout) (hv : h.view = V.withStates f)
    (hl : ∀ i ∈ l, i < V.maxRegions) : Ends (garbageOf l) h fun _ h' => h' = h := by
  induction l with
  | nil => simp [garbageOf]
  | cons i rest ih =>
    have hmax : i < h.view.maxRegions := by
      rw [hv]
      exact hl i List.mem_cons_self
    simp only [garbageOf, ends_bind]
    rw [ends_getRegion hmax]
    simp only [garbageBytes_eq L hv i, ends_lift]
    refine ⟨_, rfl, (ih fun j hj => hl j (List.mem_cons_of_mem _ hj)).mono fun _ h' he => ?_⟩
    exact ends_pure.2 he

/-- **The choice.**  Regions that are candidates are to be relocated, all with garbage if the rules
are aggressive, and the others stay as they were before. -/
theorem ends_chooseRegions (L : h.view.Layout) (hs : ∀ i, h.view.states i ≠ .marked) :
    Ends chooseRegions h fun chosen h' => (∀ i ∈ chosen, IsCandidate h.view i) ∧
      (h.view.options.heuristics = .aggressive → ∀ i, IsCandidate h.view i →
        0 < (h.view.region i).garbage → i ∈ chosen) ∧
      h'.view = h.view.withStates fun i =>
        if i ∈ chosen then .relocating else h.view.states i := by
  have hcand {i : Nat} (hi : IsCandidate h.view i) : i < h.view.maxRegions :=
    Nat.lt_of_lt_of_le hi.committed L.geometry.committed_le
  simp only [chooseRegions, ends_bind, ends_get]
  refine (ends_candidatesFrom (n := h.view.committed) (i := 0) L (by rw [passed_zero]; rfl)
    (by omega)).mono ?_
  rintro cs h₁ ⟨hv₁, hnodup, hmem⟩
  rw [Nat.zero_add] at hv₁
  obtain ⟨chosen, hchosen⟩ :
    ∃ l, l = CyclePolicy.choose h₁.core.options h₁.status cs := ⟨_, rfl⟩
  have hsub := CyclePolicy.choose_subperm h₁.core.options h₁.status cs
  rw [← hchosen] at hsub ⊢
  have hIs (i : Nat) (hi : i ∈ chosen) : IsCandidate h.view i := by
    obtain ⟨c, hc, rfl⟩ := List.mem_map.1 (hsub.subset hi)
    exact ((hmem c).1 hc).2.1
  have hall (ho : h.view.options.heuristics = .aggressive) (i : Nat) (hi : IsCandidate h.view i)
      (hg : 0 < (h.view.region i).garbage) : i ∈ chosen := by
    have ho₁ : h₁.core.options = h.view.options := congrArg HeapView.options hv₁
    rw [hchosen, CyclePolicy.mem_choose_aggressive (by rw [ho₁]; exact ho)]
    refine ⟨h.view.candidate i, (hmem _).2 ⟨⟨Nat.zero_le _, ?_⟩, hi, rfl⟩, hg, rfl⟩
    exact Nat.lt_of_lt_of_eq hi.committed (Nat.zero_add _).symm
  have hn : chosen.Nodup := by
    obtain ⟨l, hp, hl⟩ := hsub
    exact hp.nodup_iff.1 (hnodup.sublist hl)
  refine (ends_relocateChosen hv₁ hn fun i hi => ⟨hcand (hIs i hi), ?_⟩).mono fun _ h₂ hv₂ => ?_
  · exact if_pos ⟨(hIs i hi).committed, (hIs i hi).state⟩
  refine (ends_release hv₂ L.geometry.committed_le).mono fun _ h₃ hv₃ => ?_
  refine (ends_garbageOf L hv₃ fun i hi => hcand (hIs i hi)).mono fun _ _ he => ?_
  subst he
  refine ends_note fun h₄ hv₄ => ?_
  rw [ends_pure, hv₄, hv₃]
  refine ⟨hIs, hall, ?_⟩
  congr 1
  funext i
  by_cases hi : i ∈ chosen
  · simp [passed, hi]
  · by_cases ha : h.view.states i = .allocating
    · have hne : (h.view.region i).state ≠ .empty := by
        rw [show (h.view.region i).state = .allocating from ha]
        simp
      have hc := L.committed_of_state hne
      simp [passed, hi, ha, hc]
    · simp [passed, hi, ha, hs i]

end

end RegionHeap

/-! ## 5. The end of a marking -/

namespace HeapView

/-- No reference waits in a buffer or a queue. -/
structure Drained (V : HeapView) : Prop where
  grey : V.grey.toList = []
  completed : V.satb.completed.toList = []
  buffers : ∀ b ∈ V.satb.buffers, b.entries.toList = []

/-- A region that is allocated from, or has buffers.  It is no candidate. -/
def InDemand (V : HeapView) (i : Nat) : Prop :=
  V.mutatorRegion = some i ∨ V.evacRegion = some i ∨ (V.region i).activeTlabs ≠ 0

/-- What a marking that was not cancelled leaves, when `V` is where it began to end. -/
structure Marked (V : HeapView) (W : World) (V' : HeapView) : Prop where
  drained : V'.Drained
  published : ∀ o, V'.Published o ↔ V.Published o
  exact : ∀ {o}, V'.Published o → (V'.Live o ↔ o ∈ W.objects)
  cancel : V'.cancelRequested = V.cancelRequested
  memory : V'.memory = V.memory
  roots : V'.roots = V.roots
  unkept : ∀ i, (V'.region i).evacFailed = false
  /-- Aggressive rules leave garbage only where memory is in demand. -/
  thorough : V.Surveyed → V.options.heuristics = .aggressive → ∀ {o}, V'.Published o →
    ¬ V'.InDemand (V'.index o) → V'.Relocating o ∨ o ∈ W.objects

section
variable {V V' : HeapView} {W : World} {ts : List MarkTask} {o v : Nat} {chosen : List Nat}

theorem Drained.not_recorded (D : V.Drained) (v : Nat) : ¬ V.satb.Recorded v := by
  rintro (⟨b, hb, hv⟩ | ⟨l, hl, -⟩)
  · rw [D.buffers b hb] at hv
    cases hv
  · rw [D.completed] at hl
    cases hl

/-- All buffers are handed over. -/
theorem Inv.flushAll (I : V.Inv W .marking ts) :
    ({ V with satb := V.satb.flushAll }).Inv W .marking ts ∧
      ∀ b ∈ V.satb.flushAll.buffers, b.entries.toList = [] := by
  obtain ⟨hids, hreg, hrec, hempty⟩ := SatbQueues.flushAll_spec I.layout.buffers.nodup
  exact ⟨(I.setSatb hids hreg (fun v h => (hrec v).2 h) fun v h => .inl ((hrec v).1 h)).1, hempty⟩

/-- The view with some regions to be relocated. -/
def choose (V : HeapView) (chosen : List Nat) : HeapView :=
  V.withStates fun i => if i ∈ chosen then .relocating else V.states i

theorem Layout.choose (L : V.Layout) (hc : ∀ i ∈ chosen, RegionHeap.IsCandidate V i) :
    (V.choose chosen).Layout := by
  refine L.setRegions (fun i => ?_) (fun _ => rfl) (fun _ => Nat.le_refl _) L.tlabs.counted
    fun i hi => ?_
  · have hr := L.regions i
    by_cases hi : i ∈ chosen
    · have hk : (V.region i).evacFailed = true → False := fun hk => by
        have h1 := hr.kept hk
        have h2 : (V.region i).state = .allocating := (hc i hi).state
        rw [h2] at h1
        cases h1
      simp only [hi, if_true]
      exact { hr with
        empty := fun h => by cases h
        unmarked := fun h => by cases h
        relocating := fun _ => (hc i hi).tlabs
        kept := fun h => (hk h).elim
        uncommitted := fun h => absurd (hc i hi).committed (Nat.not_lt.2 h) }
    · simp only [hi, if_false]
      exact hr
  · have hn : i ∉ chosen := fun hm => hi.elim (hc i hm).mutator (hc i hm).evacuation
    simp only [hn, if_false]
    exact hi.elim (L.mutatorRegion i) (L.evacRegion i)

/-- **Some regions are to be relocated.**  Everything that is alive was marked, so every reference
that becomes stale is in a live object or a root. -/
theorem Inv.choose (I : V.Inv W .marking ts) (D : V.Drained)
    (hexact : ∀ {o}, V.Published o → (V.Live o ↔ o ∈ W.objects))
    (hc : ∀ i ∈ chosen, RegionHeap.IsCandidate V i) : (V.choose chosen).Inv W .chosen [] := by
  have F := I.faithful
  have hrefers {v : Nat} (h : v = 0 ∨ V.Refers W v) : v = 0 ∨ (V.choose chosen).Refers W v :=
    h.imp_right fun h => .inl (F.current_of_calm rfl h).1
  have hlive {o : Nat} (h : o ∈ W.objects) : V.Live o := (hexact (F.published h)).2 h
  have hcalm {o : Nat} : ¬ V.Relocating o := (F.states _).2 rfl
  refine ⟨I.layout.choose hc, ⟨F.published, F.count_pos, F.name_zero, F.name_pos, F.name_lt,
    F.name_inj, F.refs, F.bytes, fun {o i} ho hi => ?_, F.words, fun {c} hm hl => ?_, F.registered,
    fun {o} h => ?_, F.excused, fun i => ⟨?_, fun h => by cases h⟩, fun _ {o} h hl => ?_,
    fun _ {o} h _ => hlive h, fun h => by simp at h, fun _ => D.not_recorded⟩, fun h => by cases h⟩
  · obtain ⟨h1, h2⟩ := F.fields ho hi
    refine ⟨?_, h2⟩
    rcases hrefers (or_iff_not_imp_left.2 h1.refers) with h | h
    · exact .inl h
    · exact .inr (.inr ⟨h, .inl ⟨rfl, hlive ho⟩⟩)
  · obtain ⟨h1, h2⟩ := F.roots hm hl
    refine ⟨?_, h2⟩
    rcases hrefers (or_iff_not_imp_left.2 h1.refers) with h | h
    · exact .inl h
    · exact .inr (.inr ⟨rfl, h⟩)
  · rcases F.status h with h0 | ⟨hr, -⟩ | ⟨c, hm⟩
    · exact .inl h0
    · exact absurd hr hcalm
    · exact absurd hm.relocating hcalm
  · show (if i ∈ chosen then RegionState.relocating else V.states i) ≠ .marked
    split
    · simp
    · exact (F.states i).1
  · exact .inl ((hexact h).1 hl)

/-- Objects of one region fit into what is allocated of it. -/
theorem Layout.sum_size_le (L : V.Layout) {i : Nat} {s : Finset Nat}
    (hs : ∀ o ∈ s, V.Published o ∧ V.index o = i) :
    ∑ o ∈ s, Object.size V.memory o ≤ (V.region i).top - (V.region i).bottom := by
  refine sum_extents_le (fun o ho => ?_) fun o ho p hp hlt =>
    L.objects.apart (hs o ho).1 (hs p hp).1 hlt
  obtain ⟨hp, rfl⟩ := hs o ho
  exact ⟨(L.bounds hp).bottom_le, L.objects.below hp⟩

/-- **A region with an object that is not live has garbage.** -/
theorem Surveyed.garbage_pos (X : V.Surveyed) (L : V.Layout) (hp : V.Published o)
    (hl : ¬ V.Live o) : 0 < (V.region (V.index o)).garbage := by
  have hr := L.regions (V.index o)
  have hmem {p : Nat} : p ∈ (V.region (V.index o)).marks.members ↔ _ := hr.marks.mem_members
  have hnew : o ∉ (V.region (V.index o)).marks.members := fun h => hl (.inr (hmem.1 h))
  have hsum := L.sum_size_le (i := V.index o) (s := insert o (V.region (V.index o)).marks.members)
    fun p hp' => by
      rcases Finset.mem_insert.1 hp' with rfl | hp'
      · exact ⟨hp, rfl⟩
      · have hb := hr.marks.has_bounds (hmem.1 hp')
        rw [hr.bottom_eq] at hb
        exact ⟨X.marked (hmem.1 hp'), index_eq hb.1 hb.2⟩
  rw [Finset.sum_insert hnew, ← X.bytes] at hsum
  have hlimit := X.limit (V.index o)
  have hsize := (L.objects.fits hp).fields_le
  simp only [RegionView.garbage, RegionView.live]
  omega

/-- While nothing is relocated, a region with objects is a candidate unless it is in demand. -/
theorem Faithful.isCandidate (F : V.Faithful W .marking) (L : V.Layout) (hp : V.Published o)
    (hd : ¬ V.InDemand (V.index o)) : RegionHeap.IsCandidate V (V.index o) := by
  simp only [InDemand, not_or, not_not] at hd
  refine ⟨(L.bounds hp).committed, ?_, hd.1, hd.2.1, hd.2.2⟩
  have hstate : (V.region (V.index o)).state ≠ .empty := (L.bounds hp).state
  have hst := F.states (V.index o)
  rw [HeapView.states]
  cases hs : (V.region (V.index o)).state with
  | empty => exact absurd hs hstate
  | allocating => rfl
  | marked => exact absurd hs hst.1
  | relocating => exact absurd hs (hst.2 rfl)

/-- **Garbage is to be emptied**, but for what is in regions in demand. -/
theorem Inv.thorough (I : V.Inv W .marking ts) (X : V.Surveyed)
    (hexact : ∀ {o}, V.Published o → (V.Live o ↔ o ∈ W.objects))
    (hall : ∀ i, RegionHeap.IsCandidate V i → 0 < (V.region i).garbage → i ∈ chosen)
    (hp : V.Published o) (hd : ¬ V.InDemand (V.index o)) :
    (V.choose chosen).Relocating o ∨ o ∈ W.objects := by
  by_cases ho : o ∈ W.objects
  · exact .inr ho
  · have hg := X.garbage_pos I.layout hp (mt (hexact hp).1 ho)
    exact .inl (if_pos (hall _ (I.faithful.isCandidate I.layout hp hd) hg))

end

end HeapView

namespace RegionHeap

open HeapView

section
variable {h : RegionHeap} {W : World}

/-- The end of a marking, of which the rest is done by `mark`. -/
def finalMarkBy (mark : Action RegionHeap Bool) : Action RegionHeap Bool :=
  inPhase .concurrentMark "Final mark" false do
    synchronize do
      modifySatb (·.flushAll)
      let _ ← mark
      let h ← get
      if h.cancelRequested then
        abandonMarking
        return false
      else
        setGcState .idle
        let chosen ← chooseRegions
        if chosen.isEmpty then
          setPhase .idle
          finishCycle
          return false
        else
          setGcState .duringEvacuation
          setPhase .concurrentRelocate
          return true

theorem finalMark_eq : finalMark = finalMarkBy (drain false) := rfl

/-- The heap when the rest of the marking begins. -/
def flushed (h : RegionHeap) : RegionHeap :=
  { h.stopped with satb := h.satb.flushAll }

/-- The end of a cycle changes nothing that is seen. -/
theorem ends_finishCycle : Ends finishCycle h fun _ h' => h'.view = h.view := by
  simp only [finishCycle, updateUsage, ends_bind, ends_get, ends_set, ends_modify]
  rfl

/-- **The third step of a cycle** ends the marking, whoever does the rest of it, and chooses. -/
theorem ends_finalMarkBy {mark : Action RegionHeap Bool} (I : h.view.Inv W .marking [])
    (hs : h.view.InStage .marking) (hj : h.view.joined = 0)
    (hmark : Ends mark h.flushed fun _ h' => h'.view.Inv W .marking [] ∧
      Marks h.flushed.view h'.view ∧ Finished h'.view) :
    Ends (finalMarkBy mark) h fun b h' => Stepped h.view h'.view ∧
      (b = true → h'.view.Inv W .chosen [] ∧ h'.view.InStage .chosen) ∧
      (b = false → h'.view.Inv W .idle [] ∧ h'.view.InStage .idle) ∧
      (h.view.cancelRequested = false → Marked h.view W h'.view) := by
  rw [finalMarkBy, ends_inPhase (p := .concurrentMark) hs rfl, ends_synchronize hj]
  simp only [modifySatb, ends_bind, ends_modify]
  refine hmark.mono ?_
  rintro _ h₁ ⟨I₁, M, hgrey, hcompleted⟩
  have hcancel : h₁.view.cancelRequested = h.view.cancelRequested := by
    rw [M.frame]
    rfl
  have hspace : SameSpace h.view h₁.view := { M.space with }
  have hpub (o : Nat) : h₁.view.Published o ↔ h.view.Published o := M.published
  have hjoin : h₁.view.joined = h.view.joined := by
    rw [M.frame]
    rfl
  have hroots : h₁.view.roots = h.view.roots := by
    rw [M.frame]
    rfl
  have hoptions : h₁.view.options = h.view.options := by
    rw [M.frame]
    rfl
  have hmemory : h₁.view.memory = h.view.memory := M.memory
  have htally (X : h.view.Tallied) : h₁.view.Tallied := M.tallied { X with }
  rw [ends_get, ends_ite]
  refine ⟨fun hc => ?_, fun hc => ?_⟩
  · -- The cycle was cancelled.
    rw [ends_bind]
    refine ends_abandonMarking.mono fun _ h₂ hv => ?_
    rw [ends_pure]
    have hfinal : h₂.resumed.view = { h₁.view with
        gcState := .idle, phase := .idle, satb := h₁.view.satb.abandon, grey := ∅,
        pending := false } := by
      show ({ h₂.view with pending := false } : HeapView) = _
      rw [hv]
    rw [hfinal]
    refine ⟨.of_space { hspace with } hpub hmemory hoptions hjoin (fun _ => rfl)
      (fun hc _ => hroots ▸ hc) fun X => { htally X with }, fun h => (by cases h),
      fun _ => ⟨I₁.abandon.setControl, rfl, rfl⟩, fun hn => ?_⟩
    have hc' : h₁.view.cancelRequested = true := hc
    rw [hcancel, hn] at hc'
    cases hc'
  · have D : h₁.view.Drained := by
      refine ⟨hgrey, hcompleted, ?_⟩
      rw [M.buffers]
      exact I.flushAll.2
    have hexact {o : Nat} (h : h₁.view.Published o) : h₁.view.Live o ↔ o ∈ W.objects := by
      rw [(I₁.snapshot rfl).live_iff I₁.faithful hgrey D.not_recorded]
      exact ⟨fun hl => ⟨h, hl⟩, fun hl => hl.2⟩
    simp only [setGcState, ends_bind, ends_modify]
    refine (ends_chooseRegions (h := { h₁ with gcState := .idle }) I₁.setControl.layout
      fun i => (I₁.faithful.states i).1).mono ?_
    rintro chosen h₂ ⟨hcand, hall, hv⟩
    have hv₂ : h₂.view = { h₁.view.choose chosen with gcState := .idle } := hv
    have hkept (i : Nat) : (h₁.view.region i).evacFailed = false :=
      Bool.eq_false_iff.2 fun hk =>
        (I₁.faithful.states i).2 rfl ((I₁.layout.regions i).kept hk)
    have hthorough (X : h.view.Surveyed) (ho : h.view.options.heuristics = .aggressive) {o : Nat}
        (hp : h₁.view.Published o) (hd : ¬ h₁.view.InDemand (h₁.view.index o)) :
        (h₁.view.choose chosen).Relocating o ∨ o ∈ W.objects :=
      I₁.thorough (M.surveyed { X with }) hexact
        (fun i hi => hall (hoptions ▸ ho) i { hi with }) hp hd
    rw [ends_ite]
    refine ⟨fun hnil => ?_, fun _ => ?_⟩
    · -- Nothing is to be relocated.
      have hnil' : chosen = [] := List.isEmpty_iff.1 hnil
      subst hnil'
      simp only [setPhase, ends_bind, ends_modify]
      refine ends_finishCycle.mono fun _ h₃ hv₃ => ?_
      rw [ends_pure]
      have hfinal : h₃.resumed.view =
          { h₁.view with gcState := .idle, phase := .idle, pending := false } := by
        show ({ h₃.view with pending := false } : HeapView) = _
        rw [hv₃]
        show ({ h₂.view with phase := .idle, pending := false } : HeapView) = _
        rw [hv₂]
        simp [HeapView.choose, withStates, states]
      have hchoose : h₁.view.choose [] = h₁.view := by simp [HeapView.choose, withStates, states]
      rw [hchoose] at hthorough
      rw [hfinal]
      have I₂ : h₁.view.Inv W .idle [] :=
        ⟨I₁.layout, I₁.faithful.toIdle D.not_recorded fun hp hl => (hexact hp).1 hl,
          fun h => by cases h⟩
      exact ⟨.of_space { hspace with } hpub hmemory hoptions hjoin (fun _ => rfl)
        (fun hc _ => hroots ▸ hc) fun X => { htally X with }, fun h => (by cases h),
        fun _ => ⟨I₂.setControl, rfl, rfl⟩,
        fun _ => ⟨⟨D.grey, D.completed, D.buffers⟩, hpub, hexact, hcancel, hmemory, hroots, hkept,
          hthorough⟩⟩
    · simp only [setPhase, ends_bind, ends_modify, ends_pure]
      have hfinal : ({ h₂ with gcState := .duringEvacuation, phase := .concurrentRelocate } :
          RegionHeap).resumed.view = { h₁.view.choose chosen with
            gcState := .duringEvacuation, phase := .concurrentRelocate, pending := false } := by
        show ({ h₂.view with gcState := _, phase := _, pending := false } : HeapView) = _
        rw [hv₂]
        rfl
      rw [hfinal]
      have I₂ := I₁.choose D hexact fun i hi => { hcand i hi with }
      exact ⟨.of_space { hspace with } hpub hmemory hoptions hjoin (fun _ => rfl)
        (fun hc _ => hroots ▸ hc) fun X => { htally X with },
        fun _ => ⟨I₂.setControl, rfl, rfl⟩, fun h => (by cases h),
        fun _ => ⟨⟨D.grey, D.completed, D.buffers⟩, hpub, hexact, hcancel, hmemory, hroots, hkept,
          hthorough⟩⟩

/-- **The third step of a cycle**, with one worker. -/
theorem ends_finalMark (I : h.view.Inv W .marking []) (hs : h.view.InStage .marking)
    (hj : h.view.joined = 0) :
    Ends finalMark h fun b h' => Stepped h.view h'.view ∧
      (b = true → h'.view.Inv W .chosen [] ∧ h'.view.InStage .chosen) ∧
      (b = false → h'.view.Inv W .idle [] ∧ h'.view.InStage .idle) ∧
      (h.view.cancelRequested = false → Marked h.view W h'.view) := by
  have I₁ : h.flushed.view.Inv W .marking [] := I.flushAll.1.setControl
  refine ends_finalMarkBy I hs hj ((ends_drain_inv I₁).mono ?_)
  rintro b h' ⟨hno, hyes⟩
  cases b with
  | false => cases (hno rfl).1
  | true =>
    obtain ⟨I', M, -, hf⟩ := hyes rfl
    exact ⟨I', M, hf⟩

/-- **A request to cancel** changes nothing but the request. -/
theorem ends_cancel : Ends cancel h fun _ h' => ∃ c,
    h'.view = { h.view with cancelRequested := c } := by
  simp only [cancel, ends_bind, ends_get, ends_ite, ends_set]
  refine ⟨fun _ => ends_note fun h' hv => ?_, fun _ => ends_note fun h' hv => ?_⟩
  · exact ends_pure.2 ⟨true, hv⟩
  · exact ends_pure.2 ⟨h.view.cancelRequested, hv⟩

end

end RegionHeap

end ManagedHeap
