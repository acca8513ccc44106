/-
# Marking from a snapshot

Workers mark what was reachable when marking began, while mutators run.  A worker takes a grey
object or a completed buffer, and then has tasks: to load the slots of the object, to mark what it
loaded or was recorded, and to make grey what it marked.  Between any two of these steps other
workers and the mutators may do theirs, so the invariant (`Snapshot`) counts the tasks that are
left as work that will be done.

* Section 1: what every step of marking leaves alone.
* Section 2: the five steps of a worker keep the invariant, in whatever order they are taken.
* Section 3: when no work is left, exactly the objects of the snapshot and the new ones are live.
* Section 4: the code that marks an object, as steps of a worker.  It needs less than the invariant:
  that the objects which may be met are published (`Traceable`), whether they are in use or not.
* Section 5: the code that marks alone works in rounds; each object is marked once and each buffer is
  taken once, which bounds their number (`work`).
-/
import ManagedHeap.Proofs.Creation
import ManagedHeap.RegionHeap.Cycle
import Mathlib.Algebra.Order.BigOperators.Group.Finset

namespace ManagedHeap

namespace HeapView

/-! ## 1. What marking leaves alone -/

/-- The regions are counted up as marking began: nothing was allocated since, only objects are
marked, and the bytes that a region counts as marked are theirs. -/
structure Surveyed (V : HeapView) : Prop where
  limit : ∀ i, (V.region i).markLimit = (V.region i).top
  bytes : ∀ i, (V.region i).markedBytes =
    ∑ o ∈ (V.region i).marks.members, Object.size V.memory o
  marked : ∀ {i o}, (V.region i).marks.Has o → V.Published o

/-- Then the marks are those of whole objects below the snapshot, which is the top. -/
theorem Surveyed.tallied {V : HeapView} (S : V.Surveyed) (L : V.Layout) : V.Tallied where
  bytes := S.bytes
  fits h := L.objects.fits (S.marked h)
  below h := by
    rw [regionOf, S.limit]
    exact L.objects.below (S.marked h)
  apart h h' := L.objects.apart (S.marked h) (S.marked h')
  kept h := .inl (S.marked h)
  objects h := .inl (by
    rw [regionOf, S.limit]
    exact L.objects.below h)
  buffers {m t} ht := by
    obtain ⟨u, hm, rfl, hlt⟩ := buffer_eq_some.1 ht
    have hb := (L.tlabs.ok hm (L.tlab_start hm hlt)).below
    refine .inl ?_
    rw [regionOf, S.limit]
    rw [regionOf] at hb
    omega

/-- `V'` comes from `V` by steps of marking. -/
structure Marks (V V' : HeapView) : Prop where
  frame : V' = { V with region := V'.region, grey := V'.grey, satb := V'.satb }
  region : ∀ i, V'.region i =
    { V.region i with marks := (V'.region i).marks, markedBytes := (V'.region i).markedBytes }
  marks : ∀ {i a}, (V.region i).marks.Has a → (V'.region i).marks.Has a
  buffers : V'.satb.buffers = V.satb.buffers
  surveyed : V.Surveyed → V'.Surveyed
  tallied : V.Tallied → V'.Tallied

section
variable {V V' V'' : HeapView} {W : World} {ts ts' : List MarkTask} {o v : Nat}

/-- The queues may change. -/
theorem Marks.queues {g : Queue Nat} {q : SatbQueues} (hq : q.buffers = V.satb.buffers) :
    Marks V { V with grey := g, satb := q } :=
  ⟨rfl, fun _ => rfl, fun h => h, hq, fun h => ⟨h.limit, h.bytes, h.marked⟩, fun X => { X with }⟩

theorem Marks.refl (V : HeapView) : Marks V V := .queues rfl

theorem Marks.trans (M : Marks V V') (M' : Marks V' V'') : Marks V V'' := by
  refine ⟨by rw [M'.frame, M.frame], fun i => ?_, fun h => M'.marks (M.marks h),
    M'.buffers.trans M.buffers, fun h => M'.surveyed (M.surveyed h),
    fun h => M'.tallied (M.tallied h)⟩
  rw [M'.region i, M.region i]

theorem Marks.ids (M : Marks V V') : V'.satb.ids = V.satb.ids := by
  rw [SatbQueues.ids, SatbQueues.ids, M.buffers]

theorem Marks.memory (M : Marks V V') : V'.memory = V.memory := by rw [M.frame]

theorem Marks.index (M : Marks V V') (a : Nat) : V'.index a = V.index a := by
  rw [M.frame]
  rfl

theorem Marks.published (M : Marks V V') : V'.Published o ↔ V.Published o := by
  simp only [Published, regionOf, M.index]
  rw [M.region]

theorem Marks.relocating (M : Marks V V') : V'.Relocating o ↔ V.Relocating o := by
  simp only [Relocating, regionOf, M.index]
  rw [M.region]

theorem Marks.live (M : Marks V V') (h : V.Live o) : V'.Live o := by
  simp only [Live, regionOf, M.index] at h ⊢
  rw [M.region]
  exact h.imp_right M.marks

theorem Marks.places (M : Marks V V') : SamePlaces V V' where
  published _ := M.published
  relocating _ := M.relocating
  index := M.index
  failed i := by rw [M.region]
  status _ := by rw [M.memory]
  shape _ := by rw [M.memory]

theorem Marks.space (M : Marks V V') : SameSpace V V' := by
  refine ⟨⟨?_, ?_, ?_⟩, ?_, ?_, fun i => ?_, fun i => ?_, fun i => ?_, fun i => ?_⟩
  on_goal 1 => rw [M.frame]
  on_goal 1 => rw [M.frame]
  on_goal 1 => rw [M.frame]
  on_goal 1 => rw [M.frame]
  on_goal 1 => rw [M.frame]
  all_goals rw [M.region]

theorem Marks.evolves (M : Marks V V') (F : V.Faithful W .marking) : V.Evolves W V' W := by
  refine ⟨Persists.of_same F M.places rfl rfl rfl rfl rfl rfl M.space.fills M.space.counted ?_ ?_
    ?_ ?_ ?_ (fun hj => ?_) M.index M.tallied, fun hm => ?_, fun hc _ => ?_⟩
  all_goals rw [M.frame]
  · exact hj
  · exact hm
  · exact hc

/-- The objects are faithful whatever is marked. -/
theorem Marks.faithful (M : Marks V V') (F : V.Faithful W .marking) : V'.Faithful W .marking := by
  refine F.sameMemory M.places (fun h => absurd rfl h) M.memory (fun hc => ?_) ?_ (fun i => ?_)
    fun h => absurd rfl h
  · rw [M.frame] at hc
    exact hc
  · rw [M.frame]
  · rw [M.region]
    exact F.states i

/-- The layout does not depend on the queues. -/
theorem Marks.layout (M : Marks V V') (L : V.Layout) (hr : V'.region = V.region)
    (hreg : V'.satb.registered = V.satb.registered) : V'.Layout := by
  rw [M.frame, hr]
  exact L.setControl M.ids hreg

end

/-! ## 2. The steps of a worker -/

/-- The task `t` of `ts` was done, and `new` are tasks instead. -/
structure Replaces (ts : List MarkTask) (t : MarkTask) (new ts' : List MarkTask) : Prop where
  mem : t ∈ ts
  rest : ∀ {x}, x ∈ ts → x = t ∨ x ∈ ts'
  added : ∀ {x}, x ∈ new → x ∈ ts'
  only : ∀ {x}, x ∈ ts' → x ∈ ts ∨ x ∈ new

theorem Replaces.head {t : MarkTask} {l ts : List MarkTask} :
    Replaces (t :: ts) t l (l ++ ts) :=
  ⟨by simp, by simp +contextual, by simp +contextual, fun h =>
    (List.mem_append.1 h).elim .inr fun h => .inl (List.mem_cons_of_mem _ h)⟩

/-- The tasks to load the slots of an object. -/
def slotTasks (V : HeapView) (o : Nat) : List MarkTask :=
  (List.range (Object.refCount V.memory o)).map fun i => .slot (Object.field o i)

section
variable {V V' : HeapView} {W : World} {ts ts' : List MarkTask} {o v a : Nat} {new : Bool}
  {g : Queue Nat} {q : SatbQueues} {l : List Nat}

/-- A step of marking keeps the invariant if what was accounted for still is, and fields that were
not traced still are not, or were. -/
theorem Snapshot.step (X : V.Snapshot W ts) (M : Marks V V')
    (hacc : ∀ {v}, v ≠ 0 → V.Accounted ts v → V'.Accounted ts' v)
    (huntr : ∀ {o i}, o ∈ W.objects → i < Object.refCount V.memory o → V.Untraced ts o i →
      V'.Untraced ts' o i ∨ V'.Accounted ts' (V.memory.read (Object.field o i)))
    (hlive : ∀ {o}, V.Published o → V'.Live o → V.Live o ∨ o ∈ W.objects)
    (hrec : ∀ {v}, V'.satb.Recorded v → V.satb.Recorded v)
    (hgrey : ∀ {o}, o ∈ V'.grey.toList → o ∈ W.objects)
    (htasks : ∀ {t}, t ∈ ts' → V.TaskOk W t) : V'.Snapshot W ts' where
  base_mem := X.base_mem
  shape h := by
    rw [M.memory]
    exact X.shape h
  live_mem h hl := (hlive (M.published.1 h) hl).elim (X.live_mem (M.published.1 h)) id
  new_live h hb := M.live (X.new_live h hb)
  roots {v} h := by
    by_cases h0 : v = 0
    · exact .inl h0
    · exact .inr (hacc h0 ((X.roots h).resolve_left h0))
  traced {o i} h hi := by
    rw [M.memory] at hi ⊢
    by_cases h0 : W.snapshot.read (Object.field o i) = 0
    · exact .inl h0
    · rcases (X.traced h hi).resolve_left h0 with h1 | ⟨h1, h2⟩
      · exact .inr (.inl (hacc h0 h1))
      · rcases huntr (X.base_mem h) hi h1 with h3 | h3
        · exact .inr (.inr ⟨h3, h2⟩)
        · exact .inr (.inl (h2 ▸ h3))
  recorded h := X.recorded (hrec h)
  grey h := hgrey h
  tasks {t} h := by
    have ht := htasks h
    cases t with
    | slot a => rwa [TaskOk, M.memory]
    | entry v => exact ht
    | push o => exact ht

/-- A worker loads a slot, and is to mark what it holds. -/
theorem Inv.loadTask (I : V.Inv W .marking ts)
    (R : Replaces ts (.slot a) [.entry (V.memory.read a)] ts') : V.Inv W .marking ts' := by
  have X := I.snapshot rfl
  refine ⟨I.layout, I.faithful, fun _ => X.step (Marks.refl V) (fun {v} h0 h => ?_)
    (fun {o i} ho hi h => ?_) (fun _ h => .inl h) (fun h => h) X.grey fun {t} ht => ?_⟩
  · rcases h with h | h | h
    · exact .inl h
    · exact .inr (.inl h)
    · exact .inr (.inr ((R.rest h).resolve_left (by simp)))
  · rcases h with h | h | h | h
    · exact .inl (.inl h)
    · exact .inl (.inr (.inl h))
    · exact .inl (.inr (.inr (.inl ((R.rest h).resolve_left (by simp)))))
    · rcases R.rest h with he | h'
      · rw [MarkTask.slot.inj he]
        exact .inr (.inr (.inr (R.added (by simp))))
      · exact .inl (.inr (.inr (.inr h')))
  · rcases R.only ht with h | h
    · exact X.tasks h
    · obtain ⟨o, ho, i, hi, rfl⟩ := X.tasks R.mem
      simp only [List.mem_singleton] at h
      subst h
      by_cases h0 : V.memory.read (Object.field o i) = 0
      · exact .inl h0
      · exact .inr (I.faithful.current_of_calm rfl ((I.faithful.fields ho hi).1.refers h0)).1

/-- A worker drops null. -/
theorem Inv.dropTask (I : V.Inv W .marking ts) (R : Replaces ts (.entry 0) [] ts') :
    V.Inv W .marking ts' := by
  have X := I.snapshot rfl
  refine ⟨I.layout, I.faithful, fun _ => X.step (Marks.refl V) (fun {v} h0 h => ?_)
    (fun {o i} ho hi h => .inl ?_) (fun _ h => .inl h) (fun h => h) X.grey
    fun {t} ht => X.tasks ((R.only ht).resolve_right (by simp))⟩
  · rcases h with h | h | h
    · exact .inl h
    · exact .inr (.inl h)
    · exact .inr (.inr ((R.rest h).resolve_left fun he => h0 (MarkTask.entry.inj he)))
  · rcases h with h | h | h | h
    · exact .inl h
    · exact .inr (.inl h)
    · exact .inr (.inr (.inl ((R.rest h).resolve_left (by simp))))
    · exact .inr (.inr (.inr ((R.rest h).resolve_left (by simp))))

/-- How many words are left at which an object may start that is not marked. -/
def unmarked (V : HeapView) : Nat :=
  ∑ i ∈ Finset.range V.maxRegions, (V.regionSize / 8 - (V.region i).marks.count)

/-- `v` was marked, and `new` tells whether it was not live before. -/
structure MarkedAt (V : HeapView) (v : Nat) (new : Bool) (V' : HeapView) : Prop where
  marks : Marks V V'
  layout : V'.Layout
  grey : V'.grey = V.grey
  satb : V'.satb = V.satb
  count : V'.unmarked + new.toNat = V.unmarked
  old : new = false → V.Live v
  live : ∀ {o}, V.Published o → (V'.Live o ↔ V.Live o ∨ o = v)

/-- A worker marks an object, and is to make it grey if that was new. -/
theorem Inv.markTask (I : V.Inv W .marking ts) (M : MarkedAt V v new V') (h0 : v ≠ 0)
    (R : Replaces ts (.entry v) (if new then [.push v] else []) ts') :
    V'.Inv W .marking ts' := by
  have X := I.snapshot rfl
  have F := I.faithful
  have hv : v ∈ W.objects := (X.tasks R.mem).resolve_left h0
  have hlive : V'.Live v := (M.live (F.published hv)).2 (.inr rfl)
  refine ⟨M.layout, M.marks.faithful F, fun _ => X.step M.marks (fun {w} hw0 h => ?_)
    (fun {o i} ho hi h => .inl ?_) (fun hp h => ((M.live hp).1 h).imp_right fun h => by rw [h]; exact hv)
    (fun h => M.satb ▸ h) (fun h => X.grey (M.grey ▸ h)) fun {t} ht => ?_⟩
  · rcases h with h | h | h
    · exact .inl (M.marks.live h)
    · exact .inr (.inl (by rw [M.satb]; exact h))
    · rcases R.rest h with he | h'
      · rw [MarkTask.entry.inj he]
        exact .inl hlive
      · exact .inr (.inr h')
  · rcases h with h | h | h | h
    · by_cases hov : o = v
      · subst hov
        cases hn : new with
        | false => exact absurd (M.old hn) h
        | true => exact .inr (.inr (.inl (R.added (by rw [hn]; simp))))
      · exact .inl fun hl => ((M.live (F.published ho)).1 hl).elim h hov
    · exact .inr (.inl (by rw [M.grey]; exact h))
    · exact .inr (.inr (.inl ((R.rest h).resolve_left (by simp))))
    · exact .inr (.inr (.inr ((R.rest h).resolve_left (by simp))))
  · rcases R.only ht with h | h
    · exact X.tasks h
    · split at h
      · simp only [List.mem_singleton] at h
        subst h
        exact hv
      · cases h

/-- A worker makes a marked object grey. -/
theorem Inv.pushTask (I : V.Inv W .marking ts) (R : Replaces ts (.push o) [] ts') :
    ({ V with grey := V.grey.push o }).Inv W .marking ts' := by
  have X := I.snapshot rfl
  have F := I.faithful
  have M : Marks V { V with grey := V.grey.push o } := .queues rfl
  have hgrey {x : Nat} : x ∈ (V.grey.push o).toList ↔ x ∈ V.grey.toList ∨ x = o := by simp
  refine ⟨M.layout I.layout rfl rfl, M.faithful F,
    fun _ => X.step M (fun {w} hw0 h => ?_) (fun {p i} hp hi h => .inl ?_) (fun _ h => .inl h)
    (fun h => h) (fun {x} h => ?_) fun {t} ht => X.tasks ((R.only ht).resolve_right (by simp))⟩
  · rcases h with h | h | h
    · exact .inl h
    · exact .inr (.inl h)
    · exact .inr (.inr ((R.rest h).resolve_left (by simp)))
  · rcases h with h | h | h | h
    · exact .inl h
    · exact .inr (.inl (hgrey.2 (.inl h)))
    · rcases R.rest h with he | h'
      · exact .inr (.inl (hgrey.2 (.inr (MarkTask.push.inj he))))
      · exact .inr (.inr (.inl h'))
    · exact .inr (.inr (.inr ((R.rest h).resolve_left (by simp))))
  · rcases hgrey.1 h with h | rfl
    · exact X.grey h
    · exact X.tasks R.mem

/-- A worker takes a grey object, and is to load its slots. -/
theorem Inv.takeGrey (I : V.Inv W .marking ts) (ho : o ∈ V.grey.toList)
    (hg : ∀ {x}, x ∈ V.grey.toList → x = o ∨ x ∈ g.toList)
    (hg' : ∀ {x}, x ∈ g.toList → x ∈ V.grey.toList) :
    ({ V with grey := g }).Inv W .marking (V.slotTasks o ++ ts) := by
  have X := I.snapshot rfl
  have F := I.faithful
  have M : Marks V { V with grey := g } := .queues rfl
  refine ⟨M.layout I.layout rfl rfl, M.faithful F,
    fun _ => X.step M (fun {w} hw0 h => ?_) (fun {p i} hp hi h => .inl ?_) (fun _ h => .inl h)
    (fun h => h) (fun {x} h => X.grey (hg' h)) fun {t} ht => ?_⟩
  · rcases h with h | h | h
    · exact .inl h
    · exact .inr (.inl h)
    · exact .inr (.inr (List.mem_append_right _ h))
  · rcases h with h | h | h | h
    · exact .inl h
    · rcases hg h with rfl | h'
      · refine .inr (.inr (.inr (List.mem_append_left _ ?_)))
        exact List.mem_map.2 ⟨i, List.mem_range.2 hi, rfl⟩
      · exact .inr (.inl h')
    · exact .inr (.inr (.inl (List.mem_append_right _ h)))
    · exact .inr (.inr (.inr (List.mem_append_right _ h)))
  · rcases List.mem_append.1 ht with h | h
    · obtain ⟨i, hi, rfl⟩ := List.mem_map.1 h
      exact ⟨o, X.grey ho, i, List.mem_range.1 hi, rfl⟩
    · exact X.tasks h

/-- A worker takes a completed buffer, and is to mark what is in it. -/
theorem Inv.takeCompleted (I : V.Inv W .marking ts)
    (hq : ∀ {v}, V.satb.Recorded v ↔ q.Recorded v ∨ v ∈ l) (hbuf : q.buffers = V.satb.buffers)
    (hreg : q.registered = V.satb.registered) :
    ({ V with satb := q }).Inv W .marking (l.map MarkTask.entry ++ ts) := by
  have X := I.snapshot rfl
  have F := I.faithful
  have M : Marks V { V with satb := q } := .queues hbuf
  refine ⟨M.layout I.layout rfl hreg, M.faithful F,
    fun _ => X.step M (fun {w} hw0 h => ?_) (fun {p i} hp hi h => .inl ?_) (fun _ h => .inl h)
    (fun h => hq.2 (.inl h)) X.grey fun {t} ht => ?_⟩
  · rcases h with h | h | h
    · exact .inl h
    · rcases hq.1 h with h | h
      · exact .inr (.inl h)
      · exact .inr (.inr (List.mem_append_left _ (List.mem_map.2 ⟨w, h, rfl⟩)))
    · exact .inr (.inr (List.mem_append_right _ h))
  · rcases h with h | h | h | h
    · exact .inl h
    · exact .inr (.inl h)
    · exact .inr (.inr (.inl (List.mem_append_right _ h)))
    · exact .inr (.inr (.inr (List.mem_append_right _ h)))
  · rcases List.mem_append.1 ht with h | h
    · obtain ⟨v, hv, rfl⟩ := List.mem_map.1 h
      exact .inr (X.recorded (hq.2 (.inr hv)))
    · exact X.tasks h

end

/-! ## 3. The end of marking -/

section
variable {V : HeapView} {W : World} {o : Nat}

/-- **What was reachable is live** when no work is left. -/
theorem Snapshot.live_of_base (X : V.Snapshot W []) (hgrey : V.grey.toList = [])
    (hrec : ∀ v, ¬ V.satb.Recorded v) (h : W.Base o) : V.Live o := by
  have hacc {v : Nat} (h : V.Accounted [] v) : V.Live v := by
    rcases h with h | h | h
    · exact h
    · exact absurd h (hrec v)
    · cases h
  induction h with
  | root hv h0 => exact hacc ((X.roots hv).resolve_left h0)
  | @field o i ho hi h0 ih =>
    have hi' : i < Object.refCount V.memory o := by
      simp only [Object.refCount, wordBytes, ← X.shape ho] at hi ⊢
      exact hi
    rcases (X.traced ho hi').resolve_left h0 with h1 | ⟨h1, -⟩
    · exact hacc h1
    · rcases h1 with h1 | h1 | h1 | h1
      · exact absurd ih h1
      · rw [hgrey] at h1
        cases h1
      · cases h1
      · cases h1

/-- **Marking is exact.**  When no work is left, the live ones among the objects that were published
are the objects of the program. -/
theorem Snapshot.live_iff (X : V.Snapshot W []) (F : V.Faithful W .marking)
    (hgrey : V.grey.toList = []) (hrec : ∀ v, ¬ V.satb.Recorded v) :
    o ∈ W.objects ↔ V.Published o ∧ V.Live o := by
  refine ⟨fun h => ⟨F.published h, ?_⟩, fun h => X.live_mem h.1 h.2⟩
  by_cases hb : W.Base o
  · exact X.live_of_base hgrey hrec hb
  · exact X.new_live h hb

/-- Marks take words, one for each object that is marked. -/
theorem unmarked_setRegion {i : Nat} {r : RegionView} (hi : i < V.maxRegions) :
    (V.setRegion i r).unmarked + (V.regionSize / 8 - (V.region i).marks.count) =
      V.unmarked + (V.regionSize / 8 - r.marks.count) := by
  have hmem : i ∈ Finset.range V.maxRegions := Finset.mem_range.2 hi
  have hrest : ∑ j ∈ (Finset.range V.maxRegions).erase i,
      (V.regionSize / 8 - ((V.setRegion i r).region j).marks.count) =
        ∑ j ∈ (Finset.range V.maxRegions).erase i,
          (V.regionSize / 8 - (V.region j).marks.count) := by
    refine Finset.sum_congr rfl fun j hj => ?_
    rw [setRegion_region_of_ne (Finset.ne_of_mem_erase hj)]
  have h1 : (V.setRegion i r).unmarked = _ := (Finset.sum_erase_add _ _ hmem).symm
  have h2 : V.unmarked = _ := (Finset.sum_erase_add _ _ hmem).symm
  rw [show (V.setRegion i r).regionSize = V.regionSize from rfl, hrest, setRegion_region_self] at h1
  omega

/-- There is no more to mark than there are words. -/
theorem Geometry.unmarked_le (G : V.Geometry) : V.unmarked ≤ (V.boundary - V.low) / 8 := by
  have h : V.unmarked ≤ V.maxRegions * (V.regionSize / 8) := by
    refine (Finset.sum_le_sum fun i _ => Nat.sub_le _ _).trans ?_
    rw [Finset.sum_const_nat fun _ _ => rfl, Finset.card_range]
  obtain ⟨k, hk⟩ := G.size_aligned
  have hb : V.boundary - V.low = 8 * (V.maxRegions * k) := by
    rw [G.boundary_eq, hk, Nat.add_sub_cancel_left, Nat.mul_left_comm]
  rw [hb, Nat.mul_div_cancel_left _ (by decide)]
  rwa [hk, Nat.mul_div_cancel_left _ (by decide)] at h

/-- **A mark takes effect** on its object, and on nothing else. -/
theorem Layout.markedAt (L : V.Layout) (hp : V.Published v)
    (hlt : v < (V.regionOf v).markLimit) :
    V.MarkedAt v (V.isNew v) (V.setRegion (V.index v) (V.withMark v)) := by
  have hB := L.bounds hp
  have hr := L.regions (V.index v)
  have hfit : (V.withMark v).marks.Fits (V.regionOf v).bottom V.regionSize :=
    hr.marks.adding hB.bottom_le (L.lt_end hp) hB.aligned L.geometry.size_aligned
  have hhas {x : Nat} : (V.withMark v).marks.Has x ↔ x = v ∨ (V.regionOf v).marks.Has x :=
    hr.marks.has_adding hB.bottom_le hB.aligned
  refine ⟨⟨rfl, fun i => ?_, fun {i x} hx => ?_, rfl, fun hw => ⟨fun i => ?_, fun i => ?_,
    fun {i x} hx => (published_setRegion (V := V) (r := V.withMark v) rfl).2 ?_⟩,
    fun X => X.mark L hp hlt⟩, ?_, rfl, rfl, ?_, fun hb => ?_, fun {x} hx => ?_⟩
  · rw [setRegion_region]
    split
    · rename_i he
      subst he
      rfl
    · rfl
  · rw [setRegion_region]
    split
    · rename_i he
      subst he
      exact hhas.2 (.inr hx)
    · exact hx
  · rw [setRegion_region]
    split
    · rename_i he
      subst he
      exact hw.limit _
    · exact hw.limit i
  · rw [setRegion_region]
    split
    · rename_i he
      subst he
      exact L.markedBytes_withMark hp (hw.bytes _)
    · exact hw.bytes i
  · rw [setRegion_region] at hx
    split at hx
    · exact (hhas.1 hx).elim (fun he => he ▸ hp) hw.marked
    · exact hw.marked hx
  · refine L.setRegion { hr with marks := hfit, unmarked := fun h => absurd h hB.state } rfl
      (Nat.le_refl _) (L.tlabs.counted _) ?_
    rintro (hm | he)
    · exact L.mutatorRegion _ hm
    · exact L.evacRegion _ he
  · have h1 := unmarked_setRegion (r := V.withMark v) hB.lt_max
    have h2 : (V.withMark v).marks.count ≤ V.regionSize / 8 := hfit.count_le
    have h3 := hr.marks.count_adding hB.bottom_le (L.lt_end hp) hB.aligned L.geometry.size_aligned
    rw [show (V.region (V.index v)).marks.adding v = (V.withMark v).marks from rfl] at h3
    rw [isNew, regionOf]
    split at h3
    · rename_i hcon
      rw [hcon, Bool.not_true, Bool.toNat_false]
      omega
    · rename_i hcon
      rw [Bool.eq_false_iff.2 hcon, Bool.not_false, Bool.toNat_true]
      omega
  · refine .inr ((hr.marks.holds_iff hB.bottom_le hB.aligned).1 ?_)
    rw [isNew, regionOf] at hb
    simpa using hb
  · by_cases he : V.index x = V.index v
    · rw [Live, Live, show (V.setRegion (V.index v) (V.withMark v)).regionOf x = V.withMark v
        from if_pos he, hhas, show V.regionOf x = V.regionOf v from congrArg V.region he]
      show (V.regionOf v).markLimit ≤ x ∨ _ ↔ _
      tauto
    · have hne : x ≠ v := fun h => he (by rw [h])
      rw [Live, Live, show (V.setRegion (V.index v) (V.withMark v)).regionOf x = V.regionOf x
        from if_neg he]
      simp only [hne, or_false]

end

/-- What is left to do for the workers, but for the tasks they have begun. -/
def work (V : HeapView) : Nat := V.grey.size + V.satb.completed.size + V.unmarked

end HeapView

/-! ## 4. Marking of an object -/

namespace HeapView

/-- A task is about objects of a set. -/
def Concerns (V : HeapView) (O : Set Nat) : MarkTask → Prop
  | .slot a => ∃ o ∈ O, ∃ i < Object.refCount V.memory o, a = Object.field o i
  | .entry v => v = 0 ∨ v ∈ O
  | .push o => o ∈ O

/-- **What the workers need of a heap.**  Objects of a set are published and refer to each other, and
all work that is left is about them.  Whether they are in use does not matter. -/
structure Traceable (V : HeapView) (O : Set Nat) (ts : List MarkTask) : Prop where
  layout : V.Layout
  published : ∀ {o}, o ∈ O → V.Published o
  fields : ∀ {o i}, o ∈ O → i < Object.refCount V.memory o →
    V.memory.read (Object.field o i) = 0 ∨ V.memory.read (Object.field o i) ∈ O
  grey : ∀ {o}, o ∈ V.grey.toList → o ∈ O
  completed : ∀ {b v}, b ∈ V.satb.completed.toList → v ∈ b → v = 0 ∨ v ∈ O
  tasks : ∀ {t}, t ∈ ts → V.Concerns O t

section
variable {V V' : HeapView} {W : World} {O : Set Nat} {ts ts' : List MarkTask}

/-- While a cycle marks, the objects of the program are such a set. -/
theorem Inv.traceable (I : V.Inv W .marking ts) : V.Traceable W.objects ts where
  layout := I.layout
  published ho := I.faithful.published ho
  fields {o i} ho hi := by
    by_cases h0 : V.memory.read (Object.field o i) = 0
    · exact .inl h0
    · exact .inr (I.faithful.current_of_calm rfl ((I.faithful.fields ho hi).1.refers h0)).1
  grey ho := (I.snapshot rfl).grey ho
  completed hb hv := .inr ((I.snapshot rfl).recorded (.inr ⟨_, hb, hv⟩))
  tasks {t} ht := by
    have h := (I.snapshot rfl).tasks ht
    cases t <;> exact h

/-- A step of marking leaves a heap that can be traced, if it leaves no other work. -/
theorem Traceable.step (T : V.Traceable O ts) (M : Marks V V') (hl : V'.Layout)
    (hgrey : ∀ {o}, o ∈ V'.grey.toList → o ∈ O)
    (hcompleted : ∀ {b v}, b ∈ V'.satb.completed.toList → v ∈ b → v = 0 ∨ v ∈ O)
    (htasks : ∀ {t}, t ∈ ts' → V.Concerns O t) : V'.Traceable O ts' where
  layout := hl
  published ho := M.published.2 (T.published ho)
  fields := by
    rw [M.memory]
    exact T.fields
  grey := hgrey
  completed := hcompleted
  tasks {t} ht := by
    have h := htasks ht
    cases t with
    | slot a => rwa [Concerns, M.memory]
    | entry v => exact h
    | push o => exact h

theorem Traceable.reorder (T : V.Traceable O ts) (h : ts.Perm ts') : V.Traceable O ts' :=
  { T with tasks := fun ht => T.tasks (h.mem_iff.2 ht) }

/-- A request to stop does not matter. -/
theorem Traceable.setControl (T : V.Traceable O ts) {c : Bool} :
    { V with cancelRequested := c }.Traceable O ts where
  layout := T.layout.setControl rfl rfl
  published := T.published
  fields := T.fields
  grey := T.grey
  completed := T.completed
  tasks {t} ht := by
    have h := T.tasks ht
    cases t <;> exact h

end

end HeapView

namespace RegionHeap

open HeapView

/-- A step of a worker, from a heap and the tasks that it has begun, the next one first.  A worker
that has begun nothing takes any grey object or any completed buffer. -/
inductive WorkerStep : RegionHeap × List MarkTask → RegionHeap × List MarkTask → Prop where
  | takeGrey {h : RegionHeap} {o : Nat} {l r : List Nat} {g : Queue Nat} :
    h.queue.grey.toList = l ++ o :: r → g.toList = l ++ r →
      WorkerStep (h, []) ({ h with queue := { h.queue with grey := g } }, h.view.slotTasks o)
  | takeCompleted {h : RegionHeap} {b : List Nat} {l r : List (List Nat)} {c : Queue (List Nat)} :
    h.satb.completed.toList = l ++ b :: r → c.toList = l ++ r →
      WorkerStep (h, []) ({ h with satb := { h.satb with completed := c } }, b.map .entry)
  | load {h : RegionHeap} {a : Nat} {ts : List MarkTask} :
    WorkerStep (h, .slot a :: ts) (h, .entry (h.core.memory.read a) :: ts)
  | drop {h : RegionHeap} {ts : List MarkTask} : WorkerStep (h, .entry null :: ts) (h, ts)
  | mark {h h' : RegionHeap} {v : Nat} {new : Bool} {ts : List MarkTask} :
    v ≠ null → markObject v h = .ok new h' →
      WorkerStep (h, .entry v :: ts) (h', (if new then [.push v] else []) ++ ts)
  | push {h : RegionHeap} {o : Nat} {ts : List MarkTask} :
    WorkerStep (h, .push o :: ts)
      ({ h with queue := { grey := h.queue.grey.push o, marked := h.queue.marked + 1 } }, ts)

/-- Steps of one worker, one after the other. -/
def WorkerSteps : RegionHeap × List MarkTask → RegionHeap × List MarkTask → Prop :=
  Relation.ReflTransGen WorkerStep

/-- Steps of a worker that has begun something, one after the other. -/
def TaskSteps : RegionHeap × List MarkTask → RegionHeap × List MarkTask → Prop :=
  Relation.ReflTransGen fun x y => x.2 ≠ [] ∧ WorkerStep x y

/-- A worker that came from `h` and the tasks `ts` to `h'` and `ts'`, with as much work left. -/
structure Worked (h : RegionHeap) (O : Set Nat) (ts : List MarkTask) (h' : RegionHeap)
    (ts' : List MarkTask) : Prop where
  traceable : h'.view.Traceable O ts'
  marks : Marks h.view h'.view
  work : h'.view.work = h.view.work
  steps : TaskSteps (h, ts) (h', ts')

section
variable {h h' h'' : RegionHeap} {W : World} {O : Set Nat} {ts ts' ts'' os : List MarkTask}
  {v a o n : Nat} {t : MarkTask} {x y : RegionHeap × List MarkTask}

theorem TaskSteps.single (K : WorkerStep (h, t :: ts) y) : TaskSteps (h, t :: ts) y :=
  Relation.ReflTransGen.single ⟨List.cons_ne_nil _ _, K⟩

theorem TaskSteps.steps (K : TaskSteps x y) : WorkerSteps x y :=
  K.lift id fun _ _ h => h.2

theorem Worked.refl (T : h.view.Traceable O ts) : h.Worked O ts h ts :=
  ⟨T, Marks.refl _, rfl, .refl⟩

theorem Worked.trans (K : h.Worked O ts h' ts') (K' : h'.Worked O ts' h'' ts'') :
    h.Worked O ts h'' ts'' :=
  ⟨K'.traceable, K.marks.trans K'.marks, K'.work.trans K.work, K.steps.trans K'.steps⟩

/-- What a worker takes is no work that is left. -/
theorem work_takeGrey {l r : List Nat} {g : Queue Nat}
    (hg : h.queue.grey.toList = l ++ o :: r) (hg' : g.toList = l ++ r) :
    { h with queue := { h.queue with grey := g } }.view.work + 1 = h.view.work := by
  have hsize : g.size + 1 = h.queue.grey.size := by
    rw [Queue.size_eq_length, Queue.size_eq_length, hg, hg']
    simp only [List.length_append, List.length_cons]
    omega
  show g.size + h.satb.completed.size + h.view.unmarked + 1 =
    h.queue.grey.size + h.satb.completed.size + h.view.unmarked
  omega

theorem work_takeCompleted {b : List Nat} {l r : List (List Nat)} {c : Queue (List Nat)}
    (hc : h.satb.completed.toList = l ++ b :: r) (hc' : c.toList = l ++ r) :
    { h with satb := { h.satb with completed := c } }.view.work + 1 = h.view.work := by
  have hsize : c.size + 1 = h.satb.completed.size := by
    rw [Queue.size_eq_length, Queue.size_eq_length, hc, hc']
    simp only [List.length_append, List.length_cons]
    omega
  show h.queue.grey.size + c.size + h.view.unmarked + 1 =
    h.queue.grey.size + h.satb.completed.size + h.view.unmarked
  omega

theorem work_push {m : Nat} :
    { h with queue := { grey := h.queue.grey.push o, marked := m } }.view.work =
      h.view.work + 1 := by
  show h.queue.grey.size + 1 + h.satb.completed.size + h.view.unmarked =
    h.queue.grey.size + h.satb.completed.size + h.view.unmarked + 1
  omega

/-- An object above the snapshot is not marked.  Below it the mark is set. -/
theorem ends_markObject_eq (L : h.view.Layout) (hp : h.view.Published v) :
    Ends (markObject v) h fun b h' =>
      ((h.view.regionOf v).markLimit ≤ v ∧ b = false ∧ h'.view = h.view) ∨
      (v < (h.view.regionOf v).markLimit ∧ b = h.view.isNew v ∧
        h'.view = h.view.setRegion (h.view.index v) (h.view.withMark v)) := by
  have hB := L.bounds hp
  have hc : (h.view.regionOf v).marks.checkIndex v = .ok () :=
    (L.regions _).marks.checkIndex_eq hB.bottom_le (L.lt_end hp) hB.aligned
      L.geometry.size_aligned
  simp only [markObject, ends_bind, ends_regionOfPublished L hp, ends_getMemory]
  refine (ends_onRegion hB.lt_max (Region.acts_mark hc)).mono ?_
  rintro b h' ⟨r, ⟨hl, rfl, rfl⟩ | ⟨hlt, rfl, rfl⟩, hv⟩
  · rw [setRegion_self] at hv
    exact .inl ⟨hl, rfl, hv⟩
  · exact .inr ⟨hlt, rfl, hv⟩

/-- **An object is marked**, if it was not live. -/
theorem ends_markObject (L : h.view.Layout) (hp : h.view.Published v) :
    Ends (markObject v) h fun b h' => h.view.MarkedAt v b h'.view := by
  refine (ends_markObject_eq L hp).mono ?_
  rintro b h' (⟨hl, rfl, hv⟩ | ⟨hlt, rfl, hv⟩)
  · rw [hv]
    exact ⟨Marks.refl _, L, rfl, rfl, rfl, fun _ => .inl hl,
      fun _ => ⟨.inl, fun h => h.elim id fun h => h ▸ .inl hl⟩⟩
  · rw [hv]
    exact L.markedAt hp hlt

/-- **A step of a worker** leaves a heap that can be traced, whatever the tasks of the others are. -/
theorem WorkerStep.traceable (K : WorkerStep (h, ts) (h', ts'))
    (T : h.view.Traceable O (ts ++ os)) :
    h'.view.Traceable O (ts' ++ os) ∧ Marks h.view h'.view := by
  have hrest {t t' : MarkTask} {l l' : List MarkTask} (hl : l = t' :: l')
      (hts : ∀ {x}, x ∈ l ++ os → h.view.Concerns O x) (ht : t ∈ l' ++ os) : h.view.Concerns O t :=
    hts (hl ▸ List.mem_cons_of_mem _ ht)
  cases K with
  | @takeGrey _ o l r g hg hg' =>
    have hsub {x : Nat} (hx : x ∈ g.toList) : x ∈ h.queue.grey.toList := by
      simp only [hg, hg', List.mem_append, List.mem_cons] at hx ⊢
      tauto
    have ho : o ∈ O := T.grey (show o ∈ h.queue.grey.toList by simp [hg])
    have M : Marks h.view { h.view with grey := g } := .queues rfl
    refine ⟨T.step M (M.layout T.layout rfl rfl) (fun hx => T.grey (hsub hx)) T.completed
      fun {t} ht => ?_, M⟩
    rcases List.mem_append.1 ht with ht | ht
    · obtain ⟨i, hi, rfl⟩ := List.mem_map.1 ht
      exact ⟨o, ho, i, List.mem_range.1 hi, rfl⟩
    · exact T.tasks ht
  | @takeCompleted _ b l r d hd hd' =>
    have hsub {x : List Nat} (hx : x ∈ d.toList) : x ∈ h.satb.completed.toList := by
      simp only [hd, hd', List.mem_append, List.mem_cons] at hx ⊢
      tauto
    have hb : b ∈ h.view.satb.completed.toList := show b ∈ h.satb.completed.toList by simp [hd]
    have M : Marks h.view { h.view with satb := { h.satb with completed := d } } := .queues rfl
    refine ⟨T.step M (M.layout T.layout rfl rfl) T.grey (fun hx hv => T.completed (hsub hx) hv)
      fun {t} ht => ?_, M⟩
    rcases List.mem_append.1 ht with ht | ht
    · obtain ⟨v, hv, rfl⟩ := List.mem_map.1 ht
      exact T.completed hb hv
    · exact T.tasks ht
  | load =>
    refine ⟨T.step (.refl _) T.layout T.grey T.completed fun {t} ht => ?_, .refl _⟩
    rcases List.mem_cons.1 ht with rfl | ht
    · obtain ⟨o, ho, i, hi, rfl⟩ := T.tasks List.mem_cons_self
      exact T.fields ho hi
    · exact hrest rfl T.tasks ht
  | drop =>
    exact ⟨T.step (.refl _) T.layout T.grey T.completed fun ht => hrest rfl T.tasks ht, .refl _⟩
  | @mark _ _ v new _ hv hrun =>
    have hmem : v ∈ O := (T.tasks List.mem_cons_self).resolve_left hv
    have M := (ends_markObject T.layout (T.published hmem)).of_ok hrun
    refine ⟨T.step M.marks M.layout (fun hx => T.grey (M.grey ▸ hx))
      (fun hx => T.completed (M.satb ▸ hx)) fun {t} ht => ?_, M.marks⟩
    rw [List.append_assoc] at ht
    rcases List.mem_append.1 ht with ht | ht
    · cases new with
      | false => cases ht
      | true =>
        rw [List.mem_singleton.1 ht]
        exact hmem
    · exact hrest rfl T.tasks ht
  | @push _ o _ =>
    have M : Marks h.view { h.view with grey := h.view.grey.push o } := .queues rfl
    refine ⟨T.step M (M.layout T.layout rfl rfl) (fun {x} hx => ?_) T.completed
      fun ht => hrest rfl T.tasks ht, M⟩
    have hmem : x ∈ h.queue.grey.toList ∨ x = o := by
      rw [← List.mem_singleton, ← List.mem_append, ← Queue.toList_push]
      exact hx
    rcases hmem with hx | rfl
    · exact T.grey hx
    · exact T.tasks List.mem_cons_self

theorem WorkerSteps.traceable (K : WorkerSteps x y) (T : x.1.view.Traceable O x.2) :
    y.1.view.Traceable O y.2 ∧ Marks x.1.view y.1.view := by
  induction K with
  | refl => exact ⟨T, .refl _⟩
  | @tail y z _ hstep ih =>
    obtain ⟨h₁, ts₁⟩ := y
    obtain ⟨h₂, ts₂⟩ := z
    obtain ⟨T₁, M₁⟩ := ih
    rw [← List.append_nil ts₁] at T₁
    obtain ⟨T₂, M₂⟩ := hstep.traceable T₁
    rw [List.append_nil] at T₂
    exact ⟨T₂, M₁.trans M₂⟩

/-- **A step of a worker** keeps the invariant of marking, whatever the tasks of the others are. -/
theorem WorkerStep.inv (K : WorkerStep (h, ts) (h', ts')) (I : h.view.Inv W .marking (ts ++ os)) :
    h'.view.Inv W .marking (ts' ++ os) ∧ Marks h.view h'.view := by
  cases K with
  | @takeGrey _ o l r g hg hg' =>
    refine ⟨I.takeGrey (o := o) (g := g) ?_ ?_ ?_, .queues rfl⟩
    · show o ∈ h.queue.grey.toList
      simp [hg]
    · intro x hx
      replace hx : x ∈ h.queue.grey.toList := hx
      simp only [hg, hg', List.mem_append, List.mem_cons] at hx ⊢
      tauto
    · intro x hx
      show x ∈ h.queue.grey.toList
      simp only [hg, hg', List.mem_append, List.mem_cons] at hx ⊢
      tauto
  | @takeCompleted _ b l r d hd hd' =>
    exact ⟨I.takeCompleted (SatbQueues.recorded_take hd hd') rfl rfl, .queues rfl⟩
  | load => exact ⟨I.loadTask Replaces.head, .refl _⟩
  | drop => exact ⟨I.dropTask Replaces.head, .refl _⟩
  | mark hv hrun =>
    have hmem := ((I.snapshot rfl).tasks List.mem_cons_self).resolve_left hv
    have M := (ends_markObject I.layout (I.faithful.published hmem)).of_ok hrun
    rw [List.append_assoc]
    exact ⟨I.markTask M hv Replaces.head, M.marks⟩
  | push => exact ⟨I.pushTask Replaces.head, .queues rfl⟩

theorem WorkerSteps.inv (K : WorkerSteps x y) (I : x.1.view.Inv W .marking x.2) :
    y.1.view.Inv W .marking y.2 := by
  induction K with
  | refl => exact I
  | @tail y z _ hstep ih =>
    obtain ⟨h₁, ts₁⟩ := y
    obtain ⟨h₂, ts₂⟩ := z
    rw [← List.append_nil ts₁] at ih
    rw [← List.append_nil ts₂]
    exact (hstep.inv ih).1

theorem Worked.inv (K : h.Worked O ts h' ts') (I : h.view.Inv W .marking ts) :
    h'.view.Inv W .marking ts' := K.steps.steps.inv I

/-- Tasks that were done. -/
theorem TaskSteps.worked (K : TaskSteps (h, ts) (h', ts')) (T : h.view.Traceable O ts)
    (hw : h'.view.work = h.view.work) : h.Worked O ts h' ts' :=
  let ⟨T', M⟩ := K.steps.traceable T
  ⟨T', M, hw, K⟩

/-- **An object is marked and made grey**, if it was not live. -/
theorem ends_markAndPush (T : h.view.Traceable O (.entry v :: ts)) :
    Ends (markAndPush v) h fun _ h' => h.Worked O (.entry v :: ts) h' ts := by
  by_cases h0 : v = null
  · subst h0
    simp only [markAndPush, ne_eq, not_true, if_false, ends_pure]
    exact (TaskSteps.single .drop).worked T rfl
  have hv : v ∈ O := (T.tasks List.mem_cons_self).resolve_left h0
  simp only [markAndPush, h0, ne_eq, not_false_eq_true, if_true, ends_bind]
  obtain ⟨new, h₁, hrun, M⟩ := ends_markObject T.layout (T.published hv)
  refine ⟨new, h₁, hrun, ?_⟩
  have hmark : WorkerStep (h, .entry v :: ts) (h₁, (if new then [.push v] else []) ++ ts) :=
    .mark h0 hrun
  cases new with
  | false =>
    simp only [Bool.false_eq_true, if_false, ends_pure]
    refine (TaskSteps.single hmark).worked T ?_
    have := M.count
    simp only [work, M.grey, M.satb, Bool.toNat_false] at this ⊢
    omega
  | true =>
    simp only [if_true, modifyQueue, ends_modify]
    have hpush : TaskSteps (h₁, .push v :: ts) (_, ts) := .single .push
    have K : TaskSteps (h, .entry v :: ts) (_, ts) := (TaskSteps.single hmark).trans hpush
    refine K.worked T ?_
    have := M.count
    rw [work_push]
    simp only [work, M.grey, M.satb, Bool.toNat_true] at this ⊢
    omega

theorem ends_markSlot (T : h.view.Traceable O (.slot a :: ts)) :
    Ends (markSlot a) h fun _ h' => h.Worked O (.slot a :: ts) h' ts := by
  simp only [markSlot, ends_bind, ends_loadSlot]
  have K : h.Worked O (.slot a :: ts) h (.entry (h.core.memory.read a) :: ts) :=
    (TaskSteps.single .load).worked T rfl
  exact (ends_markAndPush K.traceable).mono fun _ h' K' => K.trans K'

end

/-! ## 5. The work of one worker -/

/-- Nothing is left to do for a worker that looks for work. -/
def Finished (V : HeapView) : Prop := V.grey.toList = [] ∧ V.satb.completed.toList = []

/-- A round of the worker that marks alone: it takes the oldest grey object, or the oldest completed
buffer when nothing is grey, and does the tasks. -/
inductive Round (h h' : RegionHeap) : Prop where
  | grey {o : Nat} {g : Queue Nat} : h.queue.grey.toList = o :: g.toList →
    TaskSteps ({ h with queue := { h.queue with grey := g } }, h.view.slotTasks o) (h', []) →
      Round h h'
  | completed {b : List Nat} {c : Queue (List Nat)} : h.queue.grey.toList = [] →
    h.satb.completed.toList = b :: c.toList →
    TaskSteps ({ h with satb := { h.satb with completed := c } }, b.map .entry) (h', []) →
      Round h h'

section
variable {h h' : RegionHeap} {W : World} {O : Set Nat} {ts : List MarkTask} {o n : Nat}

theorem Round.steps (R : Round h h') : WorkerSteps (h, []) (h', []) := by
  cases R with
  | grey hg K => exact .head (.takeGrey (l := []) hg rfl) K.steps
  | completed _ hd K => exact .head (.takeCompleted (l := []) hd rfl) K.steps

/-- The fields of an object are traced. -/
theorem ends_trace (hp : h.view.Published o) (T : h.view.Traceable O (h.view.slotTasks o ++ ts)) :
    Ends (Object.eachSlot (HasMemory.memory (σ := RegionHeap)) o markSlot) h
      fun _ h' => h.Worked O (h.view.slotTasks o ++ ts) h' ts := by
  have hend : (h.view.slotTasks o).drop (Object.refCount h.view.memory o) = [] :=
    List.drop_eq_nil_of_le (by simp [slotTasks])
  refine (Object.ends_eachSlot
    (fun k h' => h.Worked O (h.view.slotTasks o ++ ts) h' ((h.view.slotTasks o).drop k ++ ts))
    (T.layout.bounds hp).aligned (.refl T) (fun k h' K => ?_)
    fun k h' hk K => ?_).mono fun _ h' K => ?_
  · show Object.refCount h'.view.memory o = _
    rw [K.marks.memory]
    rfl
  · have hk' : k < (h.view.slotTasks o).length := by
      rw [slotTasks, List.length_map, List.length_range]
      exact hk
    have hget : (h.view.slotTasks o)[k] = .slot (Object.field o k) := by
      simp [slotTasks]
    rw [List.drop_eq_getElem_cons hk', hget] at K
    exact (ends_markSlot K.traceable).mono fun _ h'' K' => K.trans K'
  · rw [show HasMemory.memory h = h.view.memory from rfl, hend] at K
    exact K

/-- What is in a buffer is marked. -/
theorem ends_markEntries {l : List Nat} (T : h.view.Traceable O (l.map MarkTask.entry ++ ts)) :
    Ends (Action.each l markAndPush) h
      fun _ h' => h.Worked O (l.map MarkTask.entry ++ ts) h' ts := by
  refine ends_each (fun _ rest (h' : RegionHeap) =>
    h.Worked O (l.map MarkTask.entry ++ ts) h' (rest.map MarkTask.entry ++ ts))
    (.refl T) fun done x rest h' _ K => ?_
  exact (ends_markAndPush K.traceable).mono fun _ h'' K' => K.trans K'

/-- **A worker takes work**, if there is some, and there is less of it afterwards. -/
theorem ends_markStep (T : h.view.Traceable O []) :
    Ends markStep h fun b h' => h'.view.Traceable O [] ∧
      (b = true → Round h h' ∧ h'.view.work + 1 = h.view.work) ∧
      (b = false → h' = h ∧ Finished h.view) := by
  simp only [markStep, ends_bind, ends_get]
  cases hg : h.queue.grey.pop? with
  | some x =>
    obtain ⟨o, rest⟩ := x
    have hlist : h.queue.grey.toList = o :: rest.toList := Queue.toList_of_pop? hg
    have ho : o ∈ O := T.grey (show o ∈ h.queue.grey.toList by simp [hlist])
    have T₀ : h.view.Traceable O ([] ++ []) := T
    obtain ⟨T', -⟩ := (WorkerStep.takeGrey (l := []) hlist rfl).traceable T₀
    simp only [ends_bind, ends_set, ends_pure]
    refine (ends_trace (h := { h with queue := { h.queue with grey := rest } })
      (T'.published ho) T').mono fun _ h' K => ⟨K.traceable, fun _ => ?_, fun h => by cases h⟩
    have htasks := K.steps
    rw [List.append_nil] at htasks
    exact ⟨.grey hlist htasks, by rw [K.work, work_takeGrey (l := []) hlist rfl]⟩
  | none =>
    have hgrey : h.queue.grey.toList = [] := (Queue.pop?_eq_none_iff _).1 hg
    cases hp : h.satb.pop with
    | mk x q =>
      cases x with
      | none =>
        simp only [ends_pure]
        exact ⟨T, fun h => (by cases h), fun _ => ⟨trivial, hgrey, SatbQueues.pop_eq_none hp⟩⟩
      | some l =>
        obtain ⟨c, hlist, rfl⟩ := SatbQueues.pop_eq_some hp
        have T₀ : h.view.Traceable O ([] ++ []) := T
        obtain ⟨T', -⟩ := (WorkerStep.takeCompleted (l := []) hlist rfl).traceable T₀
        simp only [ends_bind, ends_set, ends_pure]
        refine (ends_markEntries (h := { h with satb := { h.satb with completed := c } }) T').mono
          fun _ h' K => ⟨K.traceable, fun _ => ?_, fun h => by cases h⟩
        have htasks := K.steps
        rw [List.append_nil] at htasks
        exact ⟨.completed hgrey hlist htasks, by
          rw [K.work, work_takeCompleted (l := []) hlist rfl]⟩

/-- Rounds of the worker that marks alone, until nothing is left. -/
def Rounds (h h' : RegionHeap) : Prop := Relation.ReflTransGen Round h h' ∧ Finished h'.view

theorem Rounds.steps (R : Rounds h h') : WorkerSteps (h, []) (h', []) :=
  R.1.lift' (fun x => (x, [])) fun _ _ r => r.steps

/-- **Marking comes to an end** when there are more steps than there is work. -/
theorem ends_markSteps (T : h.view.Traceable O []) (hn : h.view.work < n) :
    Ends (markSteps n) h fun _ h' => Rounds h h' := by
  induction n generalizing h with
  | zero => omega
  | succ n ih =>
    simp only [markSteps, ends_bind]
    refine (ends_markStep T).mono ?_
    rintro b h₁ ⟨T', hround, hdone⟩
    cases b with
    | false =>
      simp only [Bool.false_eq_true, if_false, ends_pure]
      obtain ⟨rfl, hf⟩ := hdone rfl
      exact ⟨.refl, hf⟩
    | true =>
      obtain ⟨R, hwork⟩ := hround rfl
      simp only [if_true]
      exact (ih T' (by omega)).mono fun _ h' K => ⟨.head R K.1, K.2⟩

/-- **The rounds that the code allows are enough.** -/
theorem ends_drain {cancellable : Bool} (T : h.view.Traceable O []) :
    Ends (drain cancellable) h fun b h' =>
      (b = false → cancellable = true ∧ h.cancelRequested = true ∧ h' = h) ∧
      (b = true → (cancellable && h.cancelRequested) = false ∧ Rounds h h') := by
  simp only [drain, ends_bind, ends_get, ends_ite, ends_pure]
  refine ⟨fun hc => ⟨fun _ => by simpa using hc, fun h => by cases h⟩, fun hc => ?_⟩
  refine (ends_markSteps T ?_).mono fun _ h' K => ⟨fun h => (by cases h), fun _ =>
    ⟨Bool.eq_false_iff.2 hc, K⟩⟩
  have h1 := T.layout.geometry.unmarked_le
  show h.view.grey.size + h.view.satb.completed.size + h.view.unmarked <
    h.view.grey.size + h.view.satb.completed.size + (h.view.boundary - h.view.low) / 8 + 1
  omega

/-- **Marking alone** keeps the invariant of marking. -/
theorem ends_drain_inv {cancellable : Bool} (I : h.view.Inv W .marking []) :
    Ends (drain cancellable) h fun b h' =>
      (b = false → cancellable = true ∧ h.cancelRequested = true ∧ h' = h) ∧
      (b = true → h'.view.Inv W .marking [] ∧ Marks h.view h'.view ∧
        WorkerSteps (h, []) (h', []) ∧ Finished h'.view) := by
  refine (ends_drain I.traceable).mono fun b h' H => ⟨H.1, fun hb => ?_⟩
  obtain ⟨-, R⟩ := H.2 hb
  exact ⟨R.steps.inv I, (R.steps.traceable I.traceable).2, R.steps, R.2⟩

end

end RegionHeap

end ManagedHeap
