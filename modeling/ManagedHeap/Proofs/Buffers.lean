/-
# The buffers of mutators

A mutator allocates by moving the cursor of its buffer, and asks for another buffer when that one
is used up.  `ends_allocate` is the whole path: the buffer, a new buffer, or a place outside of
buffers.  What it gives is a claim; what is lost of the old buffer stays unused.
-/
import ManagedHeap.Proofs.Allocation

namespace ManagedHeap

/-! ## 1. Operations on a buffer -/

namespace Tlab

variable {t : Tlab} {n : Nat}

theorem ends_allocate {p : Option Nat → Tlab → Prop} (hn : 8 ∣ n)
    (hlt : t.cursor + n < wordLimit)
    (hnone : p none t)
    (hsome : t.start ≠ 0 → t.cursor + n ≤ t.limit →
      p (some t.cursor) { t with cursor := t.cursor + n }) :
    Ends (allocate n) t p := by
  have hn' : n % objectAlignment = 0 := by
    simp only [objectAlignment, wordBytes]
    omega
  have hsum : sum t.cursor n = .ok (t.cursor + n) := sum_eq_ok.2 ⟨hlt, rfl⟩
  simp only [allocate, ends_bind, ends_get, ends_lift, require_eq_ok, hn']
  refine ⟨(), trivial, _, hsum, ?_⟩
  simp only [ends_ite, ends_pure, ends_bind, ends_set]
  refine ⟨fun _ => hnone, fun h => hsome (fun h0 => h (.inr ?_)) ?_⟩
  · simp [isEmpty, h0]
  · exact Nat.le_of_not_lt fun hl => h (.inl hl)

theorem ends_reset {a : Nat} {p : Unit → Tlab → Prop} (hlt : a + n < wordLimit) :
    Ends (reset a n) t p ↔ p () ⟨a, a, a + n⟩ := by
  have hsum : sum a n = .ok (a + n) := sum_eq_ok.2 ⟨hlt, rfl⟩
  simp only [reset, ends_bind, ends_modify, ends_lift, hsum]
  simp

theorem ends_retire {p : Option Tlab → Tlab → Prop} :
    Ends retire t p ↔
      (t.start = 0 → p none t) ∧ (t.start ≠ 0 → p (some t) {}) := by
  simp only [retire, ends_bind, ends_get, ends_ite, ends_pure, ends_set]
  simp [isEmpty]

end Tlab

namespace Mutator

open HeapView RegionHeap

variable {α : Type} {h : RegionHeap} {m n : Nat} {t : Mutator}

/-! ## 2. The state of a mutator -/

theorem ends_getState {post : Mutator → RegionHeap → Prop} (hm : h.view.mutator? m = some t) :
    Ends (getState m) h post ↔ post t h := by
  have hm' : h.core.mutators[m]?.join = some t := hm
  have hc : (Heap.core h).mutators[m]?.join = some t := hm'
  simp only [getState, ends_bind, ends_get, hc, ends_pure]

theorem ends_setState {x : Option Mutator} {post : RegionHeap → Prop}
    (hpost : ∀ h', h'.view = h.view.setMutator m x → post h') :
    Ends (setState m x) h fun _ => post := by
  simp only [setState, Heap.modifyCore, ends_modify]
  exact hpost _ rfl

/-- An action on the buffer of a mutator. -/
theorem ends_onTlab {act : Action Tlab α} {post : α → Tlab → Prop}
    (hm : h.view.mutator? m = some t) (hact : Ends act t.tlab post) :
    Ends (onTlab m act) h fun a h' => ∃ b, post a b ∧
      h'.view = h.view.setMutator m (some { t with tlab := b }) := by
  simp only [onTlab, ends_bind]
  rw [ends_getState hm, ends_onPart]
  exact hact.mono fun a b hb => ⟨b, hb, rfl⟩

/-- A mutator that is put back where it was. -/
theorem setIfInBounds_self {x : Array (Option Mutator)} (hm : x[m]?.join = some t) :
    x.setIfInBounds m (some t) = x := by
  obtain ⟨hlt, hget⟩ := Array.getElem?_eq_some_iff.1 (Option.join_eq_some_iff.1 hm)
  refine Array.ext (by simp) fun j h1 h2 => ?_
  rw [Array.getElem_setIfInBounds h2]
  split
  · rename_i he
    subst he
    exact hget.symm
  · rfl

theorem setMutator_self {V : HeapView} (hm : V.mutator? m = some t) :
    V.setMutator m (some t) = V := by
  rw [HeapView.setMutator, setIfInBounds_self hm]

theorem mutator?_setMutator_self {V : HeapView} {x : Option Mutator}
    (hm : V.mutator? m = some t) : (V.setMutator m x).mutator? m = x := by
  rw [mutator?_setMutator hm, if_pos rfl]

/-! ## 3. Giving up a buffer -/

/-- A region counts a buffer less. -/
theorem Layout.uncountTlab {V : HeapView} {i : Nat} (L : V.Layout) (hu : (V.region i).InUse)
    (hc : V.tlabCount i ≤ (V.region i).activeTlabs - 1) :
    let r := { V.region i with activeTlabs := (V.region i).activeTlabs - 1 }
    (V.setRegion i r).Layout ∧ Grows V (V.setRegion i r) := by
  intro r
  have hr := L.regions i
  refine ⟨L.setRegion { hr with
    tlabs_le := Nat.le_trans (Nat.sub_le _ _) hr.tlabs_le
    relocating := fun he => absurd he hu.2 } rfl (Nat.le_refl _) hc fun _ => hu,
    Grows.setRegion (.setRegion rfl rfl rfl) rfl rfl (.inl rfl)⟩

/-- **A region stops counting a buffer** that no mutator has. -/
theorem ends_uncount {a i : Nat} (L : h.view.Layout) (hi : h.space.indexOf? a = some i)
    (hc : h.view.tlabCount i < (h.view.region i).activeTlabs) :
    Ends (RegionHeap.retireTlab a) h fun _ h' => h'.view.Layout ∧ Grows h.view h'.view ∧
      h'.view = h.view.setRegion i
        { h.view.region i with activeTlabs := (h.view.region i).activeTlabs - 1 } := by
  have hr := L.regions i
  have hu : (h.view.region i).InUse := by
    refine ⟨fun he => ?_, fun he => ?_⟩
    · have h1 := (hr.empty he).1
      have h2 := hr.tlabs_le
      omega
    · have := hr.relocating he
      omega
  have hlt : (h.view.region i).activeTlabs < wordLimit := by
    have h1 := hr.tlabs_le
    have h2 := hr.top_le
    have h3 := hr.limit_eq
    have h4 := L.geometry.size_lt
    omega
  obtain ⟨L', G⟩ := Layout.uncountTlab L hu (Nat.le_sub_one_of_lt hc)
  simp only [RegionHeap.retireTlab, onSpace, ends_onPart, RegionSpace.retireTlab, ends_bind, ends_get,
    hi]
  refine (ends_onRegionOf (h := h) (s := h.space) (L.lt_maxRegions hu.1)
    (Region.acts_tlabRetired (r := h.view.region i) (Nat.zero_lt_of_lt hc) hlt)).mono ?_
  rintro _ s ⟨r, rfl, hv⟩
  rw [view_putSpace_self] at hv
  rw [hv]
  exact ⟨L', G, rfl⟩

/-- A mutator without a buffer, and its region, which does not count it any more. -/
theorem Counted.retire {V : HeapView} {i : Nat} (h : V.Counted none) (hm : V.mutator? m = some t)
    (h0 : t.tlab.start ≠ 0) (hi : V.index t.tlab.start = i) :
    ((V.setMutator m (some { t with tlab := {} })).setRegion i
      { V.region i with activeTlabs := (V.region i).activeTlabs - 1 }).Counted none := fun j => by
  have h1 := tlabCount_setMutator (i := j) (x := some { t with tlab := {} }) hm
  have h2 : V.hasTlabIn j (some t) = decide (i = j) := by simp [hasTlabIn, h0, hi, Bool.beq_eq_decide_eq]
  have h3 : V.hasTlabIn j (some { t with tlab := {} }) = false := by simp [hasTlabIn]
  have h4 := h j
  rw [h2, h3] at h1
  simp only [decide_eq_true_eq, Bool.false_eq_true, if_false, reduceCtorEq] at h1 h4
  show (if j = i then _ else V.region j : RegionView).activeTlabs =
    (V.setMutator m (some { t with tlab := {} })).tlabCount j + 0
  by_cases he : j = i
  · subst he
    rw [if_pos rfl] at h1 ⊢
    dsimp only
    omega
  · rw [if_neg (Ne.symm he)] at h1
    rw [if_neg he]
    omega

/-- What a mutator's giving up of its buffer has done. -/
structure Retired (V : HeapView) (m : Nat) (t : Mutator) (V' : HeapView) : Prop where
  layout : V'.Layout
  grows : Grows V V'
  fills : Fills V V'
  counted : V.Counted none → V'.Counted none
  mutator : V'.mutator? m = some { t with tlab := {} }

/-- **A mutator gives up its buffer**, if it has one, and its region stops counting it. -/
theorem ends_retireTlab (L : h.view.Layout) (hm : h.view.mutator? m = some t) :
    Ends (retireTlab m) h fun _ h' => Retired h.view m t h'.view := by
  simp only [retireTlab, ends_bind]
  refine (ends_onTlab hm (Tlab.ends_retire (p := fun r b =>
    (t.tlab.start = 0 ∧ r = none ∧ b = t.tlab) ∨ (t.tlab.start ≠ 0 ∧ r = some t.tlab ∧ b = {})).2
    ⟨fun h0 => .inl ⟨h0, rfl, rfl⟩, fun h0 => .inr ⟨h0, rfl, rfl⟩⟩)).mono fun r h₁ h₁' => ?_
  obtain ⟨b, ⟨h0, rfl, rfl⟩ | ⟨h0, rfl, rfl⟩, hv⟩ := h₁'
  · have he : t.tlab = {} := by
      have h1 := L.tlabs.none hm h0
      cases ht : t.tlab with
      | mk start cursor limit => rw [ht] at h0 h1; simp only at h0 h1; rw [h0, h1.1, h1.2]
    refine ends_pure.2 ?_
    rw [show h₁.view = h.view by rw [hv]; exact setMutator_self hm]
    exact ⟨L, Grows.refl _, Fills.refl _, fun h => h,
      by rw [hm]; exact congrArg some (by rw [← he])⟩
  · have ht := L.tlabs.ok hm h0
    obtain ⟨-, hu⟩ := L.tlab_region hm h0
    obtain ⟨i, hi⟩ : ∃ i, i = h.view.index t.tlab.start := ⟨_, rfl⟩
    have hreg : h.view.regionOf t.tlab.start = h.view.region i := by rw [hi]; rfl
    rw [hreg] at hu
    have L₁ : (h.view.setMutator m (some { t with tlab := {} })).Layout := L.giveUp hm
    have G₁ : Grows h.view (h.view.setMutator m (some { t with tlab := {} })) :=
      Grows.setMutator hm rfl
    have F₁ : Fills h.view (h.view.setMutator m (some { t with tlab := {} })) :=
      (Fills.refl h.view).setMutator hm fun h => absurd h (Nat.lt_irrefl 0)
    have hcount := tlabCount_setMutator (i := i) (x := some { t with tlab := {} }) hm
    have hsame : (h₁.view.region i) = h.view.region i := by rw [hv]; rfl
    have hlt : h₁.view.tlabCount i < (h₁.view.region i).activeTlabs := by
      have h1 := L.tlabs.counted i
      have h2 : h.view.hasTlabIn i (some t) = true := by simp [hasTlabIn, h0, hi]
      have h3 : h.view.hasTlabIn i (some { t with tlab := {} }) = false := by simp [hasTlabIn]
      rw [h2, h3] at hcount
      rw [hv]
      show (h.view.setMutator m _).tlabCount i < (h.view.region i).activeTlabs
      simp only [if_true, Bool.false_eq_true, if_false] at hcount
      omega
    rw [← hv] at L₁ G₁ F₁
    have hi₁ : h₁.space.indexOf? t.tlab.start = some i := by
      have hc := L.committed_of_state hu.1
      rw [hi] at hc ⊢
      have hrange : h₁.space.range = h.space.range := by
        have h1 := congrArg HeapView.low hv
        have h2 := congrArg HeapView.high hv
        have h3 := congrArg HeapView.boundary hv
        cases hr₁ : h₁.space.range
        cases hr : h.space.range
        simp only [view, hr₁, hr, HeapView.setMutator] at h1 h2 h3
        rw [h1, h2, h3]
      have hsz : h₁.space.regionSize = h.space.regionSize := congrArg HeapView.regionSize hv
      unfold RegionSpace.indexOf?
      rw [hrange, hsz]
      exact if_pos ⟨ht.low_le, L.geometry.lt_high ht.low_le hc⟩
    refine (ends_uncount L₁ hi₁ hlt).mono ?_
    rintro _ h₂ ⟨L₂, G₂, hv₂⟩
    rw [hv₂] at L₂ G₂ ⊢
    refine ⟨L₂, G₁.trans G₂, F₁.setRegion rfl rfl rfl, fun hc => ?_, ?_⟩
    · rw [hsame, hv]
      exact Counted.retire hc hm h0 hi.symm
    · show h₁.view.mutator? m = _
      rw [hv]
      exact mutator?_setMutator_self hm

/-! ## 4. Allocation by a mutator -/

/-- What a mutator's allocation of `n` bytes may give. -/
structure Obtained (V : HeapView) (m n : Nat) (r : Option Nat) (V' : HeapView) : Prop where
  layout : V'.Layout
  grows : Grows V V'
  fills : Fills V V'
  counted : V.Counted none → V'.Counted none
  claim : ∀ a, r = some a → V'.Claim a n
  served : ∀ a, r = some a → V.arena.Serves V'.arena m a n

/-- A request takes a header at least, and whole words. -/
theorem roundedSize_eq {k : Nat} (hk : k ≤ Object.maxSize) :
    roundedSize k = (max k 16 + 7) / 8 * 8 := by
  refine alignUp_wordBytes ?_
  simp only [Object.minSize, Object.headerBytes, wordBytes, Object.maxSize_eq,
    Object.wordLimit_eq] at *
  omega

/-- A cursor is far below the end of a word. -/
theorem cursor_add_lt (L : h.view.Layout) (hm : h.view.mutator? m = some t)
    (hn : n ≤ Object.maxSize + 8) : t.tlab.cursor + n < wordLimit := by
  have hle : t.tlab.cursor ≤ rootBase := by
    by_cases h0 : t.tlab.start = 0
    · rw [(L.tlabs.none hm h0).1]
      exact Nat.zero_le _
    · have ht := L.tlabs.ok hm h0
      have hr := L.regions (h.view.index t.tlab.start)
      have hmax := L.lt_maxRegions (L.tlab_region hm h0).2.1
      have h1 : (h.view.index t.tlab.start + 1) * h.view.regionSize ≤
        h.view.maxRegions * h.view.regionSize := Nat.mul_le_mul_right _ hmax
      have h2 := L.geometry.boundary_eq
      have h3 := L.geometry.boundary_le
      have h4 := ht.cursor_le
      have h5 := ht.below
      have h6 := hr.top_le
      have h7 := hr.limit_eq
      have h8 := hr.bottom_eq
      rw [Nat.succ_mul] at h1
      simp only [regionOf] at h5
      omega
  have : rootBase + (4294967288 + 8) < wordLimit := by decide
  simp only [Object.maxSize_eq] at hn
  omega

theorem Obtained.refl {V : HeapView} (L : V.Layout) : Obtained V m n none V :=
  ⟨L, Grows.refl _, Fills.refl _, fun h => h, (fun _ h => by cases h), (fun _ h => by cases h)⟩

theorem Obtained.trans {V V' V'' : HeapView} {r : Option Nat} (O : Obtained V m n none V')
    (O' : Obtained V' m n r V'') : Obtained V m n r V'' where
  layout := O'.layout
  grows := O.grows.trans O'.grows
  fills := O.fills.trans O'.fills
  counted h := O'.counted (O.counted h)
  claim := O'.claim
  served a ha := (O'.served a ha).of_fills O.fills.arena

/-- The buffer of a mutator gives a claim, or has no room. -/
theorem ends_tlabAllocate (L : h.view.Layout) (hm : h.view.mutator? m = some t) (hn : 8 ∣ n)
    (hpos : 0 < n) (hmax : n ≤ Object.maxSize + 8) :
    Ends (onTlab m (Tlab.allocate n)) h fun r h' => Obtained h.view m n r h'.view ∧
      h'.view.mutator? m ≠ none := by
  refine (ends_onTlab hm (Tlab.ends_allocate (p := fun r b => (r = none ∧ b = t.tlab) ∨
    (t.tlab.start ≠ 0 ∧ t.tlab.cursor + n ≤ t.tlab.limit ∧ r = some t.tlab.cursor ∧
      b = { t.tlab with cursor := t.tlab.cursor + n })) hn (cursor_add_lt L hm hmax)
    (.inl ⟨rfl, rfl⟩) fun h0 hle => .inr ⟨h0, hle, rfl, rfl⟩)).mono fun r h₁ h₁' => ?_
  obtain ⟨b, ⟨rfl, rfl⟩ | ⟨h0, hle, rfl, rfl⟩, hv⟩ := h₁'
  · rw [show h₁.view = h.view by rw [hv]; exact setMutator_self hm]
    exact ⟨Obtained.refl L, by simp [hm]⟩
  · obtain ⟨L₁, C₁⟩ := L.advance hm h0 hn hpos hle
    have hlt := (L.tlabs.ok hm h0).nonempty
    rw [hv]
    refine ⟨⟨L₁, Grows.setMutator hm rfl, (Fills.refl h.view).setMutator hm fun _ => .inl ⟨_,
      buffer_eq_some.2 ⟨t, hm, rfl, hlt⟩, rfl, rfl, Nat.le_add_right _ _⟩,
      fun hc => hc.setMutator hm fun _ => rfl, fun a ha => ?_, fun a ha => ?_⟩, by rw [mutator?_setMutator_self hm]; simp⟩
    · cases ha
      exact C₁
    · cases ha
      refine .inr ⟨(L₁.claim_proper C₁).congr rfl, _, buffer_eq_some.2
        ⟨_, mutator?_setMutator_self hm, rfl, hlt⟩, L.start_le_cursor hm, Nat.le_refl _, hle,
        .inr ⟨_, buffer_eq_some.2 ⟨t, hm, rfl, hlt⟩, rfl, rfl, Nat.le_refl _⟩⟩

/-- What holds when a mutator without a buffer has been given one. -/
structure Refilled (V : HeapView) (m a k : Nat) (t : Mutator) (V' : HeapView) : Prop where
  layout : V'.Layout
  grows : Grows V V'
  view : V' = V.setMutator m (some { t with tlab := ⟨a, a, a + k⟩ })
  counted : V.Counted (some (V.index a)) → V'.Counted none

/-- A chunk becomes the buffer of a mutator without one. -/
theorem ends_refill {a k : Nat} (L : h.view.Layout) (hm : h.view.mutator? m = some t)
    (h0 : t.tlab.start = 0) (C : h.view.Chunk a k) (hc : h.view.tlabCount (h.view.index a) <
      (h.view.regionOf a).activeTlabs) :
    Ends (onTlab m (Tlab.reset a k)) h fun _ h' => Refilled h.view m a k t h'.view := by
  have hlt : a + k < wordLimit := by
    have h1 := (L.claim_bounds C.toClaim).2.2.2.2
    have h2 : rootBase < wordLimit := by decide
    omega
  have hpos : a ≠ 0 := Nat.ne_of_gt (Nat.lt_of_lt_of_le L.geometry.low_pos C.low_le)
  refine (ends_onTlab hm ((Tlab.ends_reset (p := fun _ b => b = ⟨a, a, a + k⟩) hlt).2
    rfl)).mono fun _ h₁ h₁' => ?_
  obtain ⟨b, rfl, hv⟩ := h₁'
  refine ⟨by rw [hv]; exact L.refill hm C.toClaim (fun _ _ hu => C.buffers hu) hc,
    by rw [hv]; exact Grows.setMutator hm rfl, hv, fun hcount => ?_⟩
  rw [hv]
  refine hcount.setMutator hm fun i => ?_
  have h1 : h.view.hasTlabIn i (some t) = false := by simp [hasTlabIn, h0]
  have h2 : h.view.hasTlabIn i (some { t with tlab := ⟨a, a, a + k⟩ }) =
      decide (h.view.index a = i) := by simp [hasTlabIn, hpos, Bool.beq_eq_decide_eq]
  simp [h1, h2]

/-- The sizing of a mutator is stored; its buffer and what was allocated stay. -/
theorem Chunk.setSizing {V : HeapView} {a k : Nat} {z : TlabSizing} (C : V.Chunk a k)
    (hm : V.mutator? m = some t) : (V.setMutator m (some { t with sizing := z })).Chunk a k := by
  have hget {m' : Nat} {u : Mutator}
      (h : (V.setMutator m (some { t with sizing := z })).mutator? m' = some u) :
      ∃ u', V.mutator? m' = some u' ∧ u'.tlab = u.tlab := by
    rw [mutator?_setMutator hm] at h
    split at h
    · rename_i he
      subst he
      cases h
      exact ⟨t, hm, rfl⟩
    · exact ⟨u, h, rfl⟩
  refine { C with tlabs := fun h => ?_, buffers := fun h => ?_ }
  · obtain ⟨u', hu, he⟩ := hget h
    rw [← he]
    exact C.tlabs hu
  · obtain ⟨u', hu, he⟩ := hget h
    rw [← he]
    exact C.buffers hu

/-- Allocation with a new buffer, or outside of buffers. -/
theorem ends_allocateSlow (L : h.view.Layout) (hm : h.view.mutator? m = some t) (hn : 8 ∣ n)
    (hpos : 0 < n) (hmax : n ≤ Object.maxSize + 8) :
    Ends (allocateSlow m n) h fun r h' => Obtained h.view m n r h'.view := by
  have hshared {h : RegionHeap} (L : h.view.Layout) :
      Ends (Heap.allocate n) h fun r h' => Obtained h.view m n r h'.view :=
    (RegionHeap.ends_allocate L hn).mono fun r h' A =>
      ⟨A.layout, A.grows, A.fills, A.counted, fun a ha => (A.chunk a ha hpos).1.toClaim,
        fun a ha => .inl (A.fresh a ha hpos)⟩
  simp only [allocateSlow, ends_bind, ends_get, ends_ite]
  refine ⟨fun _ => hshared L, fun _ => ?_⟩
  refine (ends_retireTlab L hm).mono fun _ h₁ R => ?_
  rw [ends_getState R.mutator]
  refine (RegionHeap.ends_allocateTlab R.layout (R.layout.tlabs.sizing R.mutator) hn
    (Nat.lt_of_lt_of_le hpos (Nat.le_max_left _ _))).mono
    fun r h₂ B => ?_
  have hm₂ : h₂.view.mutator? m = some { t with tlab := {} } := by
    unfold HeapView.mutator?
    rw [B.mutators]
    exact R.mutator
  obtain ⟨z, given⟩ := r
  refine ends_setState fun h₃ hv₃ => ?_
  have L₃ : h₃.view.Layout := by
    rw [hv₃]
    exact B.layout.setSizing hm₂ B.sizing
  have G₃ : Grows h.view h₃.view := by
    rw [hv₃]
    exact (R.grows.trans B.grows).trans (Grows.setMutator hm₂ rfl)
  have F₃ : Fills h.view h₃.view := by
    rw [hv₃]
    exact (R.fills.trans B.fills).setMutator hm₂ fun h => absurd h (Nat.lt_irrefl 0)
  have hc₃ (hc : h.view.Counted none) : h₃.view.Counted (given.map fun x => h₂.view.index x.1) := by
    rw [hv₃]
    exact (B.counted (R.counted hc)).setMutator hm₂ fun _ => rfl
  have hm₃ : h₃.view.mutator? m = some { t with tlab := {}, sizing := z } := by
    rw [hv₃]
    exact mutator?_setMutator_self hm₂
  cases given with
  | none =>
    exact (hshared L₃).mono fun r h₄ O =>
      Obtained.trans ⟨L₃, G₃, F₃, hc₃, (fun _ h => by cases h), (fun _ h => by cases h)⟩ O
  | some x =>
    obtain ⟨a, k⟩ := x
    obtain ⟨C, -, hcount⟩ := B.chunk a k rfl
    have hcount₃ : h₃.view.tlabCount (h₃.view.index a) < (h₃.view.regionOf a).activeTlabs := by
      have h1 := tlabCount_setMutator (i := h₂.view.index a)
        (x := some { t with tlab := {}, sizing := z }) hm₂
      have h2 {u : Mutator} (hu : u.tlab.start = 0) :
          h₂.view.hasTlabIn (h₂.view.index a) (some u) = false := by simp [hasTlabIn, hu]
      rw [h2 rfl, h2 rfl] at h1
      rw [hv₃]
      exact Nat.lt_of_le_of_lt (Nat.le_of_eq h1) hcount
    simp only [ends_bind]
    refine (ends_refill L₃ hm₃ rfl (by rw [hv₃]; exact Chunk.setSizing C hm₂) hcount₃).mono
      fun _ h₄ R₄ => ?_
    have hm₄ : h₄.view.mutator? m = some { t with tlab := ⟨a, a, a + k⟩, sizing := z } := by
      rw [R₄.view]
      exact mutator?_setMutator_self hm₃
    -- The new buffer was free before the old one was given up.
    have F₄ : Fills h.view h₄.view := by
      rw [R₄.view]
      exact F₃.setMutator hm₃ fun _ => .inr fun b h1 h2 =>
        R.fills.arena.untouched ((B.fresh a k rfl).unused b h1 h2)
    have hc₄ (hc : h.view.Counted none) : h₄.view.Counted none :=
      R₄.counted (by rw [show h₃.view.index a = h₂.view.index a by rw [hv₃]; rfl]; exact hc₃ hc)
    exact (ends_tlabAllocate R₄.layout hm₄ hn hpos hmax).mono fun r h₅ O =>
      Obtained.trans ⟨R₄.layout, G₃.trans R₄.grows, F₄, hc₄, (fun _ h => by cases h),
        (fun _ h => by cases h)⟩ O.1

/-- **A mutator's allocation** gives a claim of the rounded size, or nothing. -/
theorem ends_allocate {k : Nat} (L : h.view.Layout) (hm : h.view.mutator? m = some t) :
    Ends (allocate m k) h fun r h' => Obtained h.view m (roundedSize k) r h'.view ∧
      (r ≠ none → k ≤ Object.maxSize) := by
  simp only [allocate, ends_ite, ends_pure]
  refine ⟨fun _ => ⟨Obtained.refl L, fun h => absurd rfl h⟩, fun hle => ?_⟩
  have hk : k ≤ Object.maxSize := Nat.le_of_not_lt hle
  have hround := roundedSize_eq hk
  have hn : 8 ∣ roundedSize k := by omega
  have hpos : 0 < roundedSize k := by omega
  have hmax : roundedSize k ≤ Object.maxSize + 8 := by
    have : 16 ≤ Object.maxSize := by decide
    omega
  simp only [ends_bind]
  refine (ends_tlabAllocate L hm hn hpos hmax).mono fun r h₁ h₁' => ?_
  obtain ⟨O, hm₁⟩ := h₁'
  cases r with
  | some a => exact ends_pure.2 ⟨O, fun _ => hk⟩
  | none =>
    obtain ⟨u, hu⟩ := Option.ne_none_iff_exists'.1 hm₁
    exact (ends_allocateSlow O.layout hu hn hpos hmax).mono fun r h₂ O₂ =>
      ⟨O.trans O₂, fun _ => hk⟩

end Mutator

end ManagedHeap
