/-
# The bytes that are marked

A region counts the bytes of its objects that marking found.  A mark that is new adds the size in the
layout word of its object, and nothing takes a mark back before the next marking or the recycling of
the region.  So the count is right for as long as these words stay what they were, and that is more
than to say that objects keep their sizes: a region whose evacuation failed gives objects up and keeps
their marks.  What they leave behind is lost (`Lost`).  It is handed out to nobody, and so nobody
writes to it.

The count is that of whole objects below the snapshot, because nothing lies across a snapshot
(`Whole`): neither an object nor a buffer, from which objects below an older snapshot may still come.

* Section 1: the invariant (`Tallied`), and what it says of the live bytes of a region.
* Section 2: what does not touch the marks keeps it, if it hands out only what was free (`Retains`).
* Section 3: a mark.
-/
import ManagedHeap.Proofs.Allocation
import Mathlib.Algebra.Order.BigOperators.Group.Finset
import Mathlib.Order.Interval.Finset.Nat

namespace ManagedHeap

/-- Ranges that are apart fit into the range that they lie in. -/
theorem sum_extents_le {s : Finset Nat} {size : Nat → Nat} {a b : Nat}
    (hin : ∀ o ∈ s, a ≤ o ∧ o + size o ≤ b)
    (hapart : ∀ o ∈ s, ∀ p ∈ s, o < p → o + size o ≤ p) : ∑ o ∈ s, size o ≤ b - a := by
  let extent (o : Nat) : Finset Nat := Finset.Ico o (o + size o)
  have hdis : (s : Set Nat).PairwiseDisjoint extent := by
    intro o ho p hp hne
    refine Finset.disjoint_left.2 fun x h1 h2 => ?_
    rw [Finset.mem_Ico] at h1 h2
    rcases Nat.lt_or_gt_of_ne hne with hlt | hlt
    · have := hapart o ho p hp hlt
      omega
    · have := hapart p hp o ho hlt
      omega
  have hsub : s.biUnion extent ⊆ Finset.Ico a b := by
    intro x hx
    obtain ⟨o, ho, hmem⟩ := Finset.mem_biUnion.1 hx
    have := hin o ho
    rw [Finset.mem_Ico] at hmem ⊢
    omega
  calc ∑ o ∈ s, size o
    _ = ∑ o ∈ s, (extent o).card := by simp [extent]
    _ = (s.biUnion extent).card := (Finset.card_biUnion hdis).symm
    _ ≤ (Finset.Ico a b).card := Finset.card_le_card hsub
    _ = b - a := Nat.card_Ico _ _

namespace HeapView

/-! ## 1. The invariant -/

/-- The mark at an address is set. -/
def HasMark (V : HeapView) (o : Nat) : Prop := (V.regionOf o).marks.Has o

/-- A byte that is in no object, and that nothing is given until its region is recycled. -/
def Lost (V : HeapView) (b : Nat) : Prop :=
  ¬ V.arena.Free b ∧ ∀ p, V.Published p → b < p ∨ p + Object.size V.memory p ≤ b

/-- A range does not lie across the snapshot of its region. -/
def Whole (V : HeapView) (a n : Nat) : Prop :=
  a + n ≤ (V.regionOf a).markLimit ∨ (V.regionOf a).markLimit ≤ a

/-- **The regions count the bytes that are marked**, and these are whole objects below the snapshot,
apart from each other. -/
structure Tallied (V : HeapView) : Prop where
  bytes : ∀ i, (V.region i).markedBytes =
    ∑ o ∈ (V.region i).marks.members, Object.size V.memory o
  fits : ∀ {o}, V.HasMark o → Object.Fits V.memory o
  below : ∀ {o}, V.HasMark o → o + Object.size V.memory o ≤ (V.regionOf o).markLimit
  apart : ∀ {o p}, V.HasMark o → V.HasMark p → o < p → o + Object.size V.memory o ≤ p
  /-- What is marked is an object, or was one. -/
  kept : ∀ {o}, V.HasMark o →
    V.Published o ∨ ∀ b, o ≤ b → b < o + Object.size V.memory o → V.Lost b
  objects : ∀ {o}, V.Published o → V.Whole o (Object.size V.memory o)
  buffers : ∀ {m t}, V.arena.buffer m = some t → V.Whole t.start (t.limit - t.start)

section
variable {V V' : HeapView} {a n b i o : Nat}

/-- The members of the marks of a region are the marked addresses in it. -/
theorem Layout.mem_members (L : V.Layout) :
    o ∈ (V.region i).marks.members ↔ V.HasMark o ∧ V.low ≤ o ∧ V.index o = i := by
  have hr := L.regions i
  rw [hr.marks.mem_members]
  constructor
  · intro h
    have hb := hr.marks.has_bounds h
    rw [hr.bottom_eq] at hb
    have he : V.index o = i := index_eq hb.1 hb.2
    refine ⟨?_, Nat.le_trans (Nat.le_add_right _ _) hb.1, he⟩
    rw [HasMark, regionOf, he]
    exact h
  · rintro ⟨h, -, rfl⟩
    exact h

/-- No byte of an object is free. -/
theorem Layout.not_free (L : V.Layout) (h : V.Published o) (h1 : o ≤ b)
    (h2 : b < o + Object.size V.memory o) : ¬ V.arena.Free b := by
  rintro (hu | ⟨m, t, ht, hc, hl⟩)
  · exact L.not_spare h h1 h2 (.inl hu)
  · obtain ⟨u, hm, rfl, -⟩ := buffer_eq_some.1 ht
    exact L.not_spare h h1 h2 (.inr ⟨m, u, hm, hc, hl⟩)

theorem Lost.not_published (h : V.Lost b) (L : V.Layout) : ¬ V.Published b := fun hp => by
  have hsize := (L.objects.fits hp).size_pos
  rcases h.2 b hp with h | h <;> omega

/-- What is marked of a region fits between its bottom and its snapshot. -/
theorem Tallied.markedBytes_le (X : V.Tallied) (L : V.Layout) (i : Nat) :
    (V.region i).markedBytes ≤ (V.region i).markLimit - (V.region i).bottom := by
  rw [X.bytes]
  refine sum_extents_le (fun o ho => ?_) fun o ho p hp hlt => ?_
  · obtain ⟨hm, -, rfl⟩ := L.mem_members.1 ho
    exact ⟨((L.regions _).marks.has_bounds hm).1, X.below hm⟩
  · exact X.apart (L.mem_members.1 ho).1 (L.mem_members.1 hp).1 hlt

/-- What is marked is below the root cells. -/
theorem Tallied.end_le (X : V.Tallied) (L : V.Layout) (h : V.HasMark o) :
    o + Object.size V.memory o ≤ rootBase := by
  have hr := L.regions (V.index o)
  have hi := L.lt_maxRegions (i := V.index o) fun he => (hr.unmarked he).2 o h
  have h1 := X.below h
  have h2 := L.limit_le hi
  have h3 := hr.markLimit_le
  have h4 := hr.top_le
  rw [regionOf] at h1
  omega

/-- A marked object is in one region. -/
theorem Tallied.index_inside (X : V.Tallied) (L : V.Layout) (h : V.HasMark o) (h1 : o ≤ b)
    (h2 : b < o + Object.size V.memory o) : V.index b = V.index o := by
  have hr := L.regions (V.index o)
  have hb := (hr.marks.has_bounds h).1
  have h3 := X.below h
  have h4 := hr.markLimit_le
  have h5 := hr.top_le
  have h6 := hr.limit_eq
  have h7 := hr.bottom_eq
  rw [regionOf] at h3
  exact index_eq (by omega) (by omega)

/-- What is untouched lies above the snapshot. -/
theorem Layout.whole_of_untouched (L : V.Layout) (hn : 0 < n)
    (h : ∀ b, a ≤ b → b < a + n → V.Untouched b) : V.Whole a n := by
  have ha := (L.of_untouched (h a (Nat.le_refl a) (by omega))).2.2
  exact .inr (Nat.le_trans (L.regions _).markLimit_le ha)

/-- What is handed out as one does not lie across the snapshot. -/
theorem Tallied.whole_of_offers (X : V.Tallied) (L : V.Layout) (hn : 0 < n)
    (h : V.arena.Offers a n) : V.Whole a n := by
  rcases h with h | ⟨m, t, ht, hc, hl⟩
  · exact L.whole_of_untouched hn h
  · have hs := (L.orderly.bounds ht).1
    have hidx : V.index a = V.index t.start :=
      (L.orderly.proper ht).whole (Nat.le_trans hs hc) (by omega)
    have hw := X.buffers ht
    rw [Whole, regionOf, ← hidx] at hw
    rcases hw with hw | hw
    · exact .inl (by rw [regionOf]; omega)
    · exact .inr (by rw [regionOf]; omega)

end

/-! ## 2. What does not touch the marks -/

/-- From `V` to `V'` no mark was set, and the regions that are not `kept` were emptied.  What became an
object was to be had, and what is lost was left alone. -/
structure Retains (kept : Nat → Prop) (V V' : HeapView) : Prop where
  passes : V.arena.Passes kept V'.arena
  marks : ∀ {i}, kept i → (V'.region i).marks = (V.region i).marks
  markedBytes : ∀ {i}, kept i → (V'.region i).markedBytes = (V.region i).markedBytes
  markLimit : ∀ {i}, kept i → (V'.region i).markLimit = (V.region i).markLimit
  emptied : ∀ {i}, ¬ kept i → (V'.region i).state = .empty
  new : ∀ {o}, V'.Published o → V.Published o ∨ V.arena.Offers o (Object.size V'.memory o)
  shape : ∀ {o}, kept (V.index o) → V.Published o →
    V'.memory.read (o + 8) = V.memory.read (o + 8)
  lost : ∀ {b}, b < rootBase → kept (V.index b) → V.Lost b → V'.memory.read b = V.memory.read b

section
variable {V V' : HeapView} {kept : Nat → Prop} {a n b i o x : Nat}

theorem Retains.index (R : Retains kept V V') (a : Nat) : V'.index a = V.index a :=
  congrFun R.passes.region a

/-- What is in use was kept. -/
theorem Retains.kept_of_state (R : Retains kept V V') (h : (V'.regionOf a).state ≠ .empty) :
    kept (V.index a) := by
  by_contra hn
  refine h ?_
  rw [regionOf, R.index]
  exact R.emptied hn

theorem Retains.kept_of_published (R : Retains kept V V') (L' : V'.Layout) (h : V'.Published o) :
    kept (V.index o) := R.kept_of_state (L'.bounds h).state

theorem Retains.hasMark (R : Retains kept V V') (L' : V'.Layout) (h : V'.HasMark o) :
    kept (V.index o) ∧ V.HasMark o := by
  have hk : kept (V.index o) := R.kept_of_state fun he => ((L'.regions _).unmarked he).2 o h
  refine ⟨hk, ?_⟩
  rwa [HasMark, regionOf, R.index, R.marks hk] at h

theorem Retains.whole (R : Retains kept V V') (hk : kept (V.index a)) :
    V'.Whole a n ↔ V.Whole a n := by
  simp only [Whole, regionOf, R.index, R.markLimit hk]

theorem Retains.size (R : Retains kept V V') (hk : kept (V.index o)) (h : V.Published o) :
    Object.size V'.memory o = Object.size V.memory o := by
  simp only [Object.size, wordBytes, R.shape hk h]

/-- A byte that was not free is lost, if its region was kept and no object has it that there was. -/
theorem Retains.lost_of (R : Retains kept V V') (L' : V'.Layout) (hk : kept (V.index b))
    (hb : ¬ V.arena.Free b)
    (hout : ∀ p, V.Published p → V'.Published p → b < p ∨ p + Object.size V.memory p ≤ b) :
    V'.Lost b := by
  refine ⟨fun h => (R.passes.free L'.orderly h).elim hb fun hn => hn hk, fun p hp => ?_⟩
  rcases R.new hp with h | h
  · rw [R.size (R.kept_of_published L' hp) h]
    exact hout p h hp
  · by_contra hn
    exact hb (h.free (b := b) (by omega) (by omega))

/-- The layout word of a marked object stays what it was. -/
theorem Retains.markedShape (R : Retains kept V V') (X : V.Tallied) (L : V.Layout)
    (hk : kept (V.index o)) (h : V.HasMark o) :
    V'.memory.read (o + 8) = V.memory.read (o + 8) := by
  rcases X.kept h with hp | hl
  · exact R.shape hk hp
  · have hfit := (X.fits h).fields_le
    have hend := X.end_le L h
    have hidx : V.index (o + 8) = V.index o := X.index_inside L h (by omega) (by omega)
    exact R.lost (by omega) (hidx ▸ hk) (hl _ (by omega) (by omega))

/-- **The tally stays right** when no mark is set. -/
theorem Retains.tallied (R : Retains kept V V') (L : V.Layout) (L' : V'.Layout)
    (X : V.Tallied) : V'.Tallied := by
  have hsize {o : Nat} (hk : kept (V.index o)) (h : V.HasMark o) :
      Object.size V'.memory o = Object.size V.memory o := by
    simp only [Object.size, wordBytes, R.markedShape X L hk h]
  refine ⟨fun i => ?_, fun h => ?_, fun {o} h => ?_, fun {o p} h h' hlt => ?_, fun {o} h => ?_,
    fun {o} h => ?_, fun {m t} ht => ?_⟩
  · by_cases hk : kept i
    · rw [R.markedBytes hk, R.marks hk, X.bytes]
      refine Finset.sum_congr rfl fun o ho => (hsize ?_ ?_).symm
      · exact (L.mem_members.1 ho).2.2 ▸ hk
      · exact (L.mem_members.1 ho).1
    · have hr := L'.regions i
      have hempty := hr.unmarked (R.emptied hk)
      rw [hempty.1, hr.marks.members_eq_empty hempty.2, Finset.sum_empty]
  · obtain ⟨hk, hm⟩ := R.hasMark L' h
    exact (X.fits hm).congr (R.markedShape X L hk hm)
  · obtain ⟨hk, hm⟩ := R.hasMark L' h
    rw [hsize hk hm, regionOf, R.index, R.markLimit hk]
    exact X.below hm
  · obtain ⟨hk, hm⟩ := R.hasMark L' h
    rw [hsize hk hm]
    exact X.apart hm (R.hasMark L' h').2 hlt
  · obtain ⟨hk, hm⟩ := R.hasMark L' h
    rw [hsize hk hm]
    by_cases hp' : V'.Published o
    · exact .inl hp'
    refine .inr fun b h1 h2 => ?_
    have hkb : kept (V.index b) := X.index_inside L hm h1 h2 ▸ hk
    rcases X.kept hm with hp | hl
    · refine R.lost_of L' hkb (L.not_free hp h1 h2) fun p hq hq' => ?_
      rcases L.disjoint hp hq fun he => hp' (he ▸ hq') with h | h <;> omega
    · exact R.lost_of L' hkb (hl b h1 h2).1 fun p hq _ => (hl b h1 h2).2 p hq
  · have hk := R.kept_of_published L' h
    rw [R.whole hk]
    rcases R.new h with hp | hf
    · rw [R.size hk hp]
      exact X.objects hp
    · exact X.whole_of_offers L (L'.objects.fits h).size_pos hf
  · obtain ⟨u, hu, rfl, hlt⟩ := buffer_eq_some.1 ht
    rw [R.whole (R.kept_of_state (L'.tlab_region hu (L'.tlab_start hu hlt)).2.1)]
    rcases R.passes.buffers ht with ⟨t, ht, hs, hl, -⟩ | hfree
    · rw [← hs, ← hl]
      exact X.buffers ht
    · exact L.whole_of_untouched (Nat.sub_pos_of_lt hlt) fun b h1 h2 => hfree b h1 (by omega)

/-- Where no region is emptied. -/
theorem Retains.of_tally (T : SameTally V V') (F : Fills V V')
    (hnew : ∀ {o}, V'.Published o →
      V.Published o ∨ V.arena.Offers o (Object.size V'.memory o))
    (hshape : ∀ {o}, V.Published o → V'.memory.read (o + 8) = V.memory.read (o + 8))
    (hlost : ∀ {b}, b < rootBase → V.Lost b → V'.memory.read b = V.memory.read b) :
    Retains (fun _ => True) V V' :=
  ⟨F.arena.passes, fun _ => T.marks _, fun _ => T.markedBytes _, fun _ => T.markLimit _,
    fun h => absurd trivial h, hnew, fun _ => hshape, fun h _ => hlost h⟩

/-- Memory and objects are as they were. -/
theorem Retains.of_same (T : SameTally V V') (F : Fills V V')
    (hp : ∀ {o}, V'.Published o → V.Published o) (hm : V'.memory = V.memory) :
    Retains (fun _ => True) V V' :=
  .of_tally T F (fun h => .inl (hp h)) (fun _ => by rw [hm]) fun _ _ => by rw [hm]

theorem Grows.retains (G : Grows V V') (F : Fills V V') : Retains (fun _ => True) V V' :=
  .of_same G.toSameTally F G.published.1 G.memory

theorem sameTally_withObject {m : Memory} : SameTally V (V.withObject m a) :=
  { SameTally.setRegion (V := V) (i := V.index a)
      (r := { V.regionOf a with starts := (V.regionOf a).starts.adding a }) rfl rfl rfl with }

theorem sameSpace_withObject {m : Memory} : SameSpace V (V.withObject m a) :=
  { SameSpace.setRegion (V := V) (i := V.index a)
      (r := { V.regionOf a with starts := (V.regionOf a).starts.adding a }) rfl rfl rfl rfl with }

/-- **An object more**, in memory that was allocated for it. -/
theorem Grows.retains_withObject {m : Memory} (G : Grows V V') (F : Fills V V') (L' : V'.Layout)
    (C : V'.Claim a n) (hsize : Object.size m a = n) (ho : V.arena.Offers a n)
    (hrest : ∀ b, b < a ∨ a + n ≤ b → m.read b = V'.memory.read b) :
    Retains (fun _ => True) V (V'.withObject m a) := by
  have hold {p : Nat} (h : V.Published p) : m.read (p + 8) = V.memory.read (p + 8) := by
    have hp := G.published.2 h
    have := (L'.objects.fits hp).fields_le
    rw [← G.memory]
    exact hrest _ (by rcases C.objects hp with h1 | h1 <;> omega)
  refine .of_tally (G.toSameTally.trans sameTally_withObject)
    (F.trans sameSpace_withObject.fills) (fun {p} h => ?_) hold fun {b} _ hb => ?_
  · rcases (published_withObject L' C).1 h with rfl | h
    · exact .inr (hsize.symm ▸ ho)
    · exact .inl (G.published.1 h)
  · refine (hrest b ?_).trans (by rw [G.memory])
    by_contra hn
    exact hb.1 (ho.free (b := b) (by omega) (by omega))

/-- A word is overwritten that is in an object, or in no region, and is no layout word. -/
theorem Retains.write (hhead : ∀ {p}, V.Published p → p + 8 ≠ a)
    (hin : rootBase ≤ a ∨ ∃ p, V.Published p ∧ p ≤ a ∧ a < p + Object.size V.memory p) :
    Retains (fun _ => True) V { V with memory := V.memory.write a x } := by
  refine .of_tally ⟨fun _ => rfl, fun _ => rfl, fun _ => rfl⟩ ?_ .inl
    (fun h => Memory.read_write_of_ne _ (hhead h).symm _) fun {b} hb hl => ?_
  · exact SameSpace.fills ⟨⟨rfl, rfl, rfl⟩, rfl, rfl, fun _ => rfl, fun _ => rfl, fun _ => rfl,
      fun _ => rfl⟩
  · refine Memory.read_write_of_ne _ (fun he => ?_) _
    rcases hin with h | ⟨p, hp, h1, h2⟩
    · omega
    · rcases hl.2 p hp with h | h <;> omega

/-- A word of an object other than the layout word may be written. -/
theorem Layout.tallied_write (L : V.Layout) (h : V.Published o) (h1 : o ≤ a)
    (h2 : a < o + Object.size V.memory o) (hhead : ∀ {p}, V.Published p → p + 8 ≠ a)
    (X : V.Tallied) : ({ V with memory := V.memory.write a x }).Tallied :=
  (Retains.write hhead (.inr ⟨o, h, h1, h2⟩)).tallied L
    (L.write_object h h1 h2 (hhead h).symm) X

/-- A root cell may be written. -/
theorem Layout.tallied_write_root (L : V.Layout) (h : rootBase ≤ a) (X : V.Tallied) :
    ({ V with memory := V.memory.write a x }).Tallied := by
  refine (Retains.write (fun {p} hp he => ?_) (.inl h)).tallied L (L.write_root h) X
  have := (L.bounds hp).end_le
  have := (L.objects.fits hp).fields_le
  omega

end

/-! ## 3. A mark -/

section
variable {V : HeapView} {v o : Nat}

/-- Whether an address is not marked. -/
def isNew (V : HeapView) (v : Nat) : Bool :=
  !(V.regionOf v).marks.holds v

/-- The region of an address, with the address marked. -/
def withMark (V : HeapView) (v : Nat) : RegionView :=
  { V.regionOf v with
    marks := (V.regionOf v).marks.adding v
    markedBytes :=
      (V.regionOf v).markedBytes + if V.isNew v then Object.size V.memory v else 0 }

theorem Layout.lt_end (L : V.Layout) (hp : V.Published v) :
    v < (V.regionOf v).bottom + V.regionSize := by
  have := (L.bounds hp).lt_limit
  have := (L.regions (V.index v)).limit_eq
  simp only [regionOf] at *
  omega

/-- A new mark adds the size of its object to what the region counts. -/
theorem Layout.markedBytes_withMark (L : V.Layout) (hp : V.Published v)
    (h : (V.regionOf v).markedBytes =
      ∑ o ∈ (V.regionOf v).marks.members, Object.size V.memory o) :
    (V.withMark v).markedBytes =
      ∑ o ∈ (V.withMark v).marks.members, Object.size V.memory o := by
  have hB := L.bounds hp
  have hr := L.regions (V.index v)
  have hfit : (V.withMark v).marks.Fits (V.regionOf v).bottom V.regionSize :=
    hr.marks.adding hB.bottom_le (L.lt_end hp) hB.aligned L.geometry.size_aligned
  have hmem : (V.withMark v).marks.members = insert v (V.regionOf v).marks.members := by
    ext x
    rw [hfit.mem_members, Finset.mem_insert, regionOf, hr.marks.mem_members]
    exact hr.marks.has_adding hB.bottom_le hB.aligned
  have hnew : V.isNew v = true ↔ v ∉ (V.regionOf v).marks.members := by
    rw [isNew, Bool.not_eq_true', Bool.eq_false_iff, regionOf, hr.marks.mem_members, ne_eq,
      hr.marks.holds_iff hB.bottom_le hB.aligned]
  rw [hmem, withMark]
  by_cases hv : V.isNew v = true
  · rw [Finset.sum_insert (hnew.1 hv), if_pos hv, h, Nat.add_comm]
  · rw [Finset.insert_eq_of_mem (Decidable.not_not.1 (mt hnew.2 hv)), if_neg hv, h, Nat.add_zero]

theorem Layout.hasMark_withMark (L : V.Layout) (hp : V.Published v) :
    (V.setRegion (V.index v) (V.withMark v)).HasMark o ↔ o = v ∨ V.HasMark o := by
  have hB := L.bounds hp
  have hidx : (V.setRegion (V.index v) (V.withMark v)).index o = V.index o := rfl
  by_cases he : V.index o = V.index v
  · simp only [HasMark, regionOf, hidx, he, setRegion_region_self]
    exact (L.regions (V.index v)).marks.has_adding hB.bottom_le hB.aligned
  · have hne : o ≠ v := fun h => he (by rw [h])
    simp only [HasMark, regionOf, hidx, setRegion_region_of_ne he, hne, false_or]

/-- What is marked is apart from an object that is not. -/
theorem Tallied.apart_published (X : V.Tallied) (L : V.Layout) (h : V.HasMark o)
    (hp : V.Published v) (hne : o ≠ v) :
    o + Object.size V.memory o ≤ v ∨ v + Object.size V.memory v ≤ o := by
  rcases X.kept h with ho | hl
  · exact L.disjoint ho hp hne
  · have hsize := (X.fits h).size_pos
    have hv := (L.objects.fits hp).size_pos
    by_cases hlt : o < v
    · by_contra hn
      rcases (hl v (by omega) (by omega)).2 v hp with h1 | h1 <;> omega
    · rcases (hl o (Nat.le_refl o) (by omega)).2 v hp with h1 | h1 <;> omega

/-- **A mark is counted**, once. -/
theorem Tallied.mark (X : V.Tallied) (L : V.Layout) (hp : V.Published v)
    (hlt : v < (V.regionOf v).markLimit) :
    (V.setRegion (V.index v) (V.withMark v)).Tallied := by
  have hmark {o : Nat} := L.hasMark_withMark (o := o) hp
  have hpub {o : Nat} : (V.setRegion (V.index v) (V.withMark v)).Published o ↔ V.Published o :=
    published_setRegion rfl
  have harena : (V.setRegion (V.index v) (V.withMark v)).arena = V.arena :=
    (SameSpace.setRegion (V := V) (i := V.index v) (r := V.withMark v) rfl rfl rfl rfl).arena
  have hlimit := setRegion_congr (V := V) (i := V.index v) (r := V.withMark v) (·.markLimit) rfl
  have hwhole {a n : Nat} (h : V.Whole a n) :
      (V.setRegion (V.index v) (V.withMark v)).Whole a n := by
    rw [Whole, regionOf, hlimit]
    exact h
  refine ⟨fun i => ?_, fun {o} h => ?_, fun {o} h => ?_, fun {o p} h h' hop => ?_, fun {o} h => ?_,
    fun h => hwhole (X.objects (hpub.1 h)), fun ht => hwhole (X.buffers (harena ▸ ht))⟩
  · rw [setRegion_region]
    split
    · exact L.markedBytes_withMark hp (X.bytes _)
    · exact X.bytes i
  · rcases hmark.1 h with rfl | h
    · exact L.objects.fits hp
    · exact X.fits h
  · rw [regionOf, hlimit]
    rcases hmark.1 h with rfl | h
    · exact (X.objects hp).resolve_right (Nat.not_le.2 hlt)
    · exact X.below h
  · show o + Object.size V.memory o ≤ p
    rcases hmark.1 h with rfl | g <;> rcases hmark.1 h' with rfl | g'
    · exact absurd hop (Nat.lt_irrefl _)
    · have := X.apart_published L g' hp (Nat.ne_of_gt hop)
      have := (X.fits g').size_pos
      omega
    · have := X.apart_published L g hp (Nat.ne_of_lt hop)
      have := (L.objects.fits hp).size_pos
      omega
    · exact X.apart g g' hop
  · rcases hmark.1 h with rfl | h
    · exact .inl (hpub.2 hp)
    · refine (X.kept h).imp hpub.2 fun hl b h1 h2 => ?_
      exact ⟨harena ▸ (hl b h1 h2).1, fun q hq => (hl b h1 h2).2 q (hpub.1 hq)⟩

end

end HeapView

end ManagedHeap
