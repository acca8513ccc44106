/-
# What marking marks

Workers take grey objects and completed buffers in any order, and what they find they queue again.  In
the end the marks that are new are those of the objects that were due when they began (`Due`): this is
said of the heap before, and so the order makes no difference.

The invariant (`Headway`) relates a heap on the way to the one before, with the tasks that are begun,
the objects that were traced and those that are newly marked.  An object that was grey, or is newly
marked, was traced, is grey or is to be made grey, and that once.  What an object that was traced
refers to is marked, or will be.

* Section 1: what is due.
* Section 2: one mark, exactly.
* Section 3: the invariant.  It is kept by each step of a worker, whatever the tasks of the others are.
* Section 4: when no work is left, what is newly marked is what was due.
-/
import ManagedHeap.Proofs.Workers

namespace ManagedHeap

namespace HeapView

/-! ## 1. What is due -/

/-- Marking an object would set its mark. -/
def Markable (V : HeapView) (o : Nat) : Prop :=
  o ≠ 0 ∧ o < (V.regionOf o).markLimit ∧ ¬ V.HasMark o

/-- **An object is due** if it can be marked, and is in a completed buffer, or a grey object refers to
it, or one that is due. -/
inductive Due (V : HeapView) : Nat → Prop where
  | entry {b : List Nat} {v : Nat} : b ∈ V.satb.completed.toList → v ∈ b → V.Markable v → Due V v
  | grey {o i : Nat} : o ∈ V.grey.toList → i < Object.refCount V.memory o →
      V.Markable (V.memory.read (Object.field o i)) → Due V (V.memory.read (Object.field o i))
  | field {o i : Nat} : Due V o → i < Object.refCount V.memory o →
      V.Markable (V.memory.read (Object.field o i)) → Due V (V.memory.read (Object.field o i))

theorem Due.markable {V : HeapView} {o : Nat} (h : V.Due o) : V.Markable o := by
  cases h with
  | entry _ _ h => exact h
  | grey _ _ h => exact h
  | field _ _ h => exact h

/-! ## 2. One mark -/

/-- The mark of `v` is set, unless `v` is above the snapshot, and `new` tells whether it was not. -/
structure MarkSet (V : HeapView) (v : Nat) (new : Bool) (V' : HeapView) : Prop where
  new_iff : new = true ↔ v < (V.regionOf v).markLimit ∧ ¬ V.HasMark v
  hasMark : ∀ {o}, V'.HasMark o ↔ V.HasMark o ∨ (new = true ∧ o = v)
  bytes : ∀ i, (V'.region i).markedBytes = (V.region i).markedBytes +
    if new = true ∧ V.index v = i then Object.size V.memory v else 0

/-- Whether a mark is new. -/
theorem Layout.isNew_iff {V : HeapView} {v : Nat} (L : V.Layout) (hp : V.Published v) :
    V.isNew v = true ↔ ¬ V.HasMark v := by
  have hB := L.bounds hp
  rw [isNew, Bool.not_eq_true', Bool.eq_false_iff, HasMark, regionOf, ne_eq,
    (L.regions (V.index v)).marks.holds_iff hB.bottom_le hB.aligned]

theorem Layout.markSet {V : HeapView} {v : Nat} (L : V.Layout) (hp : V.Published v)
    (hlt : v < (V.regionOf v).markLimit) :
    V.MarkSet v (V.isNew v) (V.setRegion (V.index v) (V.withMark v)) := by
  refine ⟨?_, fun {o} => ?_, fun i => ?_⟩
  · rw [L.isNew_iff hp]
    exact (and_iff_right hlt).symm
  · rw [L.hasMark_withMark hp]
    constructor
    · rintro (rfl | h)
      · by_cases hm : V.HasMark o
        · exact .inl hm
        · exact .inr ⟨(L.isNew_iff hp).2 hm, rfl⟩
      · exact .inl h
    · rintro (h | ⟨-, rfl⟩)
      · exact .inr h
      · exact .inl rfl
  · rw [setRegion_region]
    by_cases hi : i = V.index v
    · subst hi
      simp only [if_true, and_true]
      rfl
    · rw [if_neg hi, if_neg fun h => hi h.2.symm, Nat.add_zero]

end HeapView

namespace RegionHeap

open HeapView

/-- **The effect of one mark**, to the bit. -/
theorem ends_markObject_set {h : RegionHeap} {v : Nat} (L : h.view.Layout)
    (hp : h.view.Published v) :
    Ends (markObject v) h fun b h' => h.view.MarkSet v b h'.view := by
  refine (ends_markObject_eq L hp).mono ?_
  rintro b h' (⟨hl, rfl, hv⟩ | ⟨hlt, rfl, hv⟩)
  · rw [hv]
    exact ⟨by simp [Nat.not_lt.2 hl], by simp, by simp⟩
  · rw [hv]
    exact L.markSet hp hlt

/-- A mark changes no queue. -/
theorem after_markObject {h : RegionHeap} {v : Nat} :
    After (markObject v) h fun _ h' => h'.queue = h.queue := by
  have hpreorder : IsPreorder RegionHeap fun h h' => h'.queue = h.queue :=
    { refl := fun _ => rfl
      trans := fun _ _ _ e e' => e'.trans e }
  have hkeeps : Keeps (fun h h' : RegionHeap => h'.queue = h.queue) (markObject v) :=
    keeps_regionOfObject.bind fun _ => keeps_getMemory.bind fun _ => keeps_onPart fun _ _ => rfl
  exact hkeeps h

/-! ## 3. How far marking has come -/

/-- A worker has begun to look at a reference, or it is in a completed buffer. -/
def Pending (V : HeapView) (ts : List MarkTask) (v : Nat) : Prop :=
  .entry v ∈ ts ∨ (∃ a, .slot a ∈ ts ∧ V.memory.read a = v) ∨
    ∃ b ∈ V.satb.completed.toList, v ∈ b

section
variable {V V' : HeapView} {ts ts' : List MarkTask} {a o v w : Nat}

theorem pending_slot : Pending V (.slot a :: ts) v ↔ v = V.memory.read a ∨ Pending V ts v := by
  simp only [Pending, List.mem_cons, reduceCtorEq, false_or, MarkTask.slot.injEq, or_and_right,
    exists_or, exists_eq_left]
  rw [eq_comm (a := v), or_assoc, or_left_comm]

theorem pending_entry : Pending V (.entry w :: ts) v ↔ v = w ∨ Pending V ts v := by
  simp only [Pending, List.mem_cons, reduceCtorEq, false_or, MarkTask.entry.injEq, or_assoc]

theorem pending_push : Pending V (.push o :: ts) v ↔ Pending V ts v := by
  simp only [Pending, List.mem_cons, reduceCtorEq, false_or]

theorem pending_slots {l : List Nat} : Pending V (l.map .slot ++ ts) v ↔
    (∃ a ∈ l, v = V.memory.read a) ∨ Pending V ts v := by
  induction l with
  | nil => simp
  | cons a l ih =>
    rw [List.map_cons, List.cons_append, pending_slot, ih]
    simp only [List.mem_cons, or_and_right, exists_or, exists_eq_left, or_assoc]

/-- A worker that takes an object is to look at its fields. -/
theorem pending_slotTasks : Pending V (V'.slotTasks o ++ ts) v ↔
    (∃ i < Object.refCount V'.memory o, v = V.memory.read (Object.field o i)) ∨ Pending V ts v := by
  have hmap : V'.slotTasks o =
      ((List.range (Object.refCount V'.memory o)).map (Object.field o)).map .slot := by
    rw [List.map_map]
    rfl
  rw [hmap, pending_slots]
  simp only [List.mem_map, List.mem_range, exists_exists_and_eq_and]

theorem pending_entries {b : List Nat} :
    Pending V (b.map .entry ++ ts) v ↔ v ∈ b ∨ Pending V ts v := by
  induction b with
  | nil => simp
  | cons w b ih => rw [List.map_cons, List.cons_append, pending_entry, ih, List.mem_cons, or_assoc]

theorem pending_congr (hmem : V'.memory = V.memory) (hsatb : V'.satb = V.satb) :
    Pending V' ts v ↔ Pending V ts v := by
  rw [Pending, Pending, hmem, hsatb]

/-- Of what a worker takes nothing is marked yet. -/
theorem count_push_slotTasks : (V.slotTasks o).count (.push v) = 0 := by
  refine List.count_eq_zero.2 fun hp => ?_
  obtain ⟨i, -, hi⟩ := List.mem_map.1 hp
  cases hi

theorem count_push_entries {b : List Nat} : (b.map MarkTask.entry).count (.push v) = 0 := by
  refine List.count_eq_zero.2 fun hp => ?_
  obtain ⟨w, -, hw⟩ := List.mem_map.1 hp
  cases hw

end

/-- **How far marking has come**, from `h` to `h'` with the tasks `ts`: the objects in `done` were
traced, and those in `new` are newly marked. -/
structure Headway (h h' : RegionHeap) (ts : List MarkTask) (done : List Nat) (new : Finset Nat) :
    Prop where
  memory : h'.view.memory = h.view.memory
  index : ∀ a, h'.view.index a = h.view.index a
  limit : ∀ i, (h'.view.region i).markLimit = (h.view.region i).markLimit
  due : ∀ {o}, o ∈ new → h.view.Due o
  hasMark : ∀ {o}, h'.view.HasMark o ↔ h.view.HasMark o ∨ o ∈ new
  bytes : ∀ i, (h'.view.region i).markedBytes = (h.view.region i).markedBytes +
    ∑ o ∈ new with h.view.index o = i, Object.size h.view.memory o
  /-- An object that was grey or is new was traced, is grey, or is to be made grey. -/
  objects : ∀ o, done.count o + h'.queue.grey.toList.count o + ts.count (.push o) =
    h.queue.grey.toList.count o + if o ∈ new then 1 else 0
  marked : h'.queue.marked + pushes ts = h.queue.marked + new.card
  called : ∀ {v}, Pending h'.view ts v → h.view.Markable v → h.view.Due v
  entries : ∀ {b v}, b ∈ h.view.satb.completed.toList → v ∈ b → h.view.Markable v →
    v ∈ new ∨ Pending h'.view ts v
  fields : ∀ {o i}, o ∈ done → i < Object.refCount h.view.memory o →
    h.view.Markable (h.view.memory.read (Object.field o i)) →
    h.view.memory.read (Object.field o i) ∈ new ∨
      Pending h'.view ts (h.view.memory.read (Object.field o i))

namespace Headway

variable {h h₁ h₂ : RegionHeap} {O : Set Nat} {ts ts' os : List MarkTask} {done done' : List Nat}
  {new : Finset Nat} {o v : Nat} {t : MarkTask}

/-- At the beginning nothing is done. -/
theorem start (h : RegionHeap) : Headway h h [] [] ∅ where
  memory := rfl
  index _ := rfl
  limit _ := rfl
  due ho := absurd ho (Finset.notMem_empty _)
  hasMark := by simp
  bytes := by simp
  objects := by simp
  marked := rfl
  called {v} hv hm := by
    rcases hv with hv | ⟨a, ha, -⟩ | ⟨b, hb, hv⟩
    · cases hv
    · cases ha
    · exact .entry hb hv hm
  entries hb hv _ := .inr (.inr (.inr ⟨_, hb, hv⟩))
  fields ho := absurd ho List.not_mem_nil

/-- In which order tasks are listed does not matter. -/
theorem reorder (H : Headway h h₁ ts done new) (hts : ts.Perm ts') : Headway h h₁ ts' done new := by
  have hpending {v : Nat} : Pending h₁.view ts v ↔ Pending h₁.view ts' v := by
    simp only [Pending, hts.mem_iff]
  refine { H with objects := fun o => ?_, marked := ?_, called := ?_, entries := ?_, fields := ?_ }
  · rw [← hts.count_eq]
    exact H.objects o
  · rw [pushes, ← hts.countP_eq]
    exact H.marked
  · simp only [← hpending]
    exact H.called
  · simp only [← hpending]
    exact H.entries
  · simp only [← hpending]
    exact H.fields

/-- What is grey was, or is new. -/
theorem grey (H : Headway h h₁ ts done new) (ho : o ∈ h₁.queue.grey.toList) :
    o ∈ h.queue.grey.toList ∨ o ∈ new := by
  have hobjects := H.objects o
  have hpos : 0 < h₁.queue.grey.toList.count o := List.count_pos_iff.2 ho
  by_cases hn : o ∈ new
  · exact .inr hn
  · rw [if_neg hn] at hobjects
    exact .inl (List.count_pos_iff.1 (by omega))

/-- A field of an object that is grey refers to something due, if that can be marked. -/
theorem due_field (H : Headway h h₁ ts done new) (ho : o ∈ h₁.queue.grey.toList) {i : Nat}
    (hi : i < Object.refCount h.view.memory o)
    (hm : h.view.Markable (h.view.memory.read (Object.field o i))) :
    h.view.Due (h.view.memory.read (Object.field o i)) :=
  (H.grey ho).elim (fun hg => .grey hg hi hm) fun hn => .field (H.due hn) hi hm

/-- A step that sets no mark. -/
theorem move (H : Headway h h₁ ts done new) (hmem : h₂.view.memory = h₁.view.memory)
    (hindex : ∀ a, h₂.view.index a = h₁.view.index a) (hregion : h₂.view.region = h₁.view.region)
    (hobjects : ∀ o, done'.count o + h₂.queue.grey.toList.count o + ts'.count (.push o) =
      done.count o + h₁.queue.grey.toList.count o + ts.count (.push o))
    (hmarked : h₂.queue.marked + pushes ts' = h₁.queue.marked + pushes ts)
    (hkeep : ∀ {v}, v ≠ 0 → Pending h₁.view ts v → Pending h₂.view ts' v)
    (hcalled : ∀ {v}, Pending h₂.view ts' v → h.view.Markable v → h.view.Due v)
    (hdone : ∀ {o i}, o ∈ done' → i < Object.refCount h.view.memory o →
      o ∈ done ∨ Pending h₂.view ts' (h.view.memory.read (Object.field o i))) :
    Headway h h₂ ts' done' new where
  memory := hmem.trans H.memory
  index a := (hindex a).trans (H.index a)
  limit i := by
    rw [hregion]
    exact H.limit i
  due := H.due
  hasMark := by
    simp only [HasMark, regionOf, hindex, hregion]
    exact H.hasMark
  bytes i := by
    rw [hregion]
    exact H.bytes i
  objects o := (hobjects o).trans (H.objects o)
  marked := hmarked.trans H.marked
  called := hcalled
  entries hb hv hm := (H.entries hb hv hm).imp_right (hkeep hm.1)
  fields ho hi hm := by
    rcases hdone ho hi with ho | hp
    · exact (H.fields ho hi hm).imp_right (hkeep hm.1)
    · exact .inr hp

/-- A worker takes a grey object, and is to load its slots. -/
theorem takeGrey (H : Headway h h₁ os done new) {l r : List Nat} {g : Queue Nat}
    (hg : h₁.queue.grey.toList = l ++ o :: r) (hg' : g.toList = l ++ r) :
    Headway h { h₁ with queue := { h₁.queue with grey := g } } (h₁.view.slotTasks o ++ os)
      (done ++ [o]) new := by
  have ho : o ∈ h₁.queue.grey.toList := by simp [hg]
  refine H.move rfl (fun _ => rfl) rfl (fun p => ?_) ?_
    (fun _ hv => pending_slotTasks.2 (.inr hv)) (fun {v} hv hm => ?_) fun {p i} hp hi => ?_
  · show (done ++ [o]).count p + g.toList.count p + _ = _
    rw [hg, hg', List.count_append, List.count_append, List.count_append, List.count_append,
      count_push_slotTasks, List.count_cons, List.count_cons, List.count_nil]
    omega
  · rw [pushes_append, pushes_slotTasks, Nat.zero_add]
  · rcases pending_slotTasks.1 hv with ⟨i, hi, rfl⟩ | hv
    · have hmemory : ({ h₁ with queue := { h₁.queue with grey := g } } : RegionHeap).view.memory =
        h.view.memory := H.memory
      rw [H.memory] at hi
      rw [hmemory] at hm ⊢
      exact H.due_field ho hi hm
    · exact H.called hv hm
  · rcases List.mem_append.1 hp with hp | hp
    · exact .inl hp
    · rw [List.mem_singleton] at hp
      subst hp
      rw [← H.memory] at hi ⊢
      exact .inr (pending_slotTasks.2 (.inl ⟨i, hi, rfl⟩))

/-- A worker takes a completed buffer, and is to mark what is in it. -/
theorem takeCompleted (H : Headway h h₁ os done new) {b : List Nat} {l r : List (List Nat)}
    {c : Queue (List Nat)} (hc : h₁.satb.completed.toList = l ++ b :: r) (hc' : c.toList = l ++ r) :
    Headway h { h₁ with satb := { h₁.satb with completed := c } } (b.map .entry ++ os) done new := by
  have hpending {v : Nat} : Pending ({ h₁ with satb := { h₁.satb with completed := c } } :
      RegionHeap).view (b.map .entry ++ os) v ↔ Pending h₁.view os v := by
    have hold : (∃ b' ∈ h₁.view.satb.completed.toList, v ∈ b') ↔
        v ∈ b ∨ ∃ b' ∈ c.toList, v ∈ b' := by
      show (∃ b' ∈ h₁.satb.completed.toList, v ∈ b') ↔ _
      rw [hc, hc']
      simp only [List.mem_append, List.mem_cons, or_and_right, exists_or, exists_eq_left]
      exact or_left_comm
    rw [pending_entries, Pending, Pending, hold]
    show _ ∨ (_ ∨ (∃ a, _ ∧ h₁.view.memory.read a = v) ∨ ∃ b' ∈ c.toList, v ∈ b') ↔ _
    rw [or_left_comm (b := v ∈ b), or_left_comm (b := v ∈ b)]
  refine H.move rfl (fun _ => rfl) rfl (fun p => ?_) ?_ (fun _ hv => hpending.2 hv)
    (fun hv => H.called (hpending.1 hv)) fun hp _ => .inl hp
  · show done.count p + h₁.queue.grey.toList.count p + _ = _
    rw [List.count_append, count_push_entries, Nat.zero_add]
  · rw [pushes_append, pushes_entries, Nat.zero_add]

/-- Whether a mark is new. -/
theorem new_iff (H : Headway h h₁ ts done new) (hv : v ≠ 0) {b : Bool}
    (S : h₁.view.MarkSet v b h₂.view) : b = true ↔ h.view.Markable v ∧ v ∉ new := by
  rw [S.new_iff, regionOf, H.index, H.limit, H.hasMark, Markable, regionOf]
  tauto

/-- A worker meets an object that is marked already, or cannot be marked. -/
theorem markOld (H : Headway h h₁ (.entry v :: os) done new) (hv : v ≠ 0)
    (M : Marks h₁.view h₂.view) (hsatb : h₂.view.satb = h₁.view.satb) (hqueue : h₂.queue = h₁.queue)
    (S : h₁.view.MarkSet v false h₂.view) : Headway h h₂ os done new := by
  have hold : h.view.Markable v → v ∈ new := fun hm => by
    by_contra hn
    exact Bool.false_ne_true ((H.new_iff hv S).2 ⟨hm, hn⟩)
  have hkeep {w : Nat} (hm : h.view.Markable w)
      (hw : w ∈ new ∨ Pending h₁.view (.entry v :: os) w) : w ∈ new ∨ Pending h₂.view os w := by
    rw [pending_congr M.memory hsatb]
    rw [pending_entry] at hw
    rcases hw with hw | rfl | hw
    · exact .inl hw
    · exact .inl (hold hm)
    · exact .inr hw
  refine ⟨M.memory.trans H.memory, fun a => (M.index a).trans (H.index a), fun i => ?_, H.due,
    fun {o} => ?_, fun i => ?_, fun o => ?_, ?_, fun hw hm => H.called ?_ hm,
    fun hb hw hm => hkeep hm (H.entries hb hw hm), fun ho hi hm => hkeep hm (H.fields ho hi hm)⟩
  · rw [M.region]
    exact H.limit i
  · rw [S.hasMark, H.hasMark]
    simp
  · rw [S.bytes, H.bytes]
    simp
  · have hobjects := H.objects o
    rw [List.count_cons_of_ne (by simp)] at hobjects
    rwa [hqueue]
  · have hmarked := H.marked
    rw [pushes_entry] at hmarked
    rwa [hqueue]
  · rw [pending_congr M.memory hsatb] at hw
    exact pending_entry.2 (.inr hw)

/-- A worker sets a new mark, and is to make the object grey. -/
theorem markNew (H : Headway h h₁ (.entry v :: os) done new) (hv : v ≠ 0)
    (M : Marks h₁.view h₂.view) (hsatb : h₂.view.satb = h₁.view.satb) (hqueue : h₂.queue = h₁.queue)
    (S : h₁.view.MarkSet v true h₂.view) :
    Headway h h₂ (.push v :: os) done (insert v new) := by
  obtain ⟨hmarkable, hn⟩ := (H.new_iff hv S).1 rfl
  have hpending {w : Nat} : Pending h₂.view (.push v :: os) w ↔ Pending h₁.view os w :=
    pending_push.trans (pending_congr M.memory hsatb)
  have hkeep {w : Nat} (hw : w ∈ new ∨ Pending h₁.view (.entry v :: os) w) :
      w ∈ insert v new ∨ Pending h₂.view (.push v :: os) w := by
    rw [pending_entry] at hw
    rw [hpending, Finset.mem_insert]
    tauto
  refine ⟨M.memory.trans H.memory, fun a => (M.index a).trans (H.index a), fun i => ?_,
    fun {o} ho => ?_, fun {o} => ?_, fun i => ?_, fun o => ?_, ?_,
    fun hw hm => H.called (pending_entry.2 (.inr (hpending.1 hw))) hm,
    fun hb hw hm => hkeep (H.entries hb hw hm), fun ho hi hm => hkeep (H.fields ho hi hm)⟩
  · rw [M.region]
    exact H.limit i
  · rcases Finset.mem_insert.1 ho with rfl | ho
    · exact H.called (pending_entry.2 (.inl rfl)) hmarkable
    · exact H.due ho
  · rw [S.hasMark, H.hasMark, Finset.mem_insert]
    tauto
  · have hnot : v ∉ new.filter fun o => h.view.index o = i :=
      fun hv => hn (Finset.mem_filter.1 hv).1
    rw [S.bytes, H.bytes, H.index, H.memory, Nat.add_assoc, Finset.filter_insert]
    congr 1
    by_cases hi : h.view.index v = i
    · rw [if_pos ⟨rfl, hi⟩, if_pos hi, Finset.sum_insert hnot, Nat.add_comm]
    · rw [if_neg fun h => hi h.2, if_neg hi, Nat.add_zero]
  · have hobjects := H.objects o
    rw [List.count_cons_of_ne (by simp)] at hobjects
    rw [hqueue, List.count_cons]
    by_cases ho : o = v
    · subst ho
      rw [if_neg hn] at hobjects
      rw [beq_self_eq_true, if_pos rfl, if_pos (Finset.mem_insert_self _ _)]
      omega
    · have hne : (MarkTask.push v == MarkTask.push o) = false := by simp [Ne.symm ho]
      rw [hne]
      simpa [Finset.mem_insert, ho] using hobjects
  · have hmarked := H.marked
    rw [pushes_entry] at hmarked
    rw [hqueue, pushes_push, Finset.card_insert_of_notMem hn]
    omega

/-- **A worker goes on with a task.** -/
theorem task (H : Headway h h₁ (t :: ts ++ os) done new)
    (T : h₁.view.Traceable O (t :: ts ++ os)) (K : WorkerStep (h₁, t :: ts) (h₂, ts')) :
    ∃ new', Headway h h₂ (ts' ++ os) done new' := by
  cases K with
  | @load _ a _ =>
    have hpending {v : Nat} : Pending h₁.view (.entry (h₁.core.memory.read a) :: ts ++ os) v ↔
        Pending h₁.view (.slot a :: ts ++ os) v := by
      rw [List.cons_append, List.cons_append, pending_entry, pending_slot]
      rfl
    refine ⟨new, H.move rfl (fun _ => rfl) rfl (fun o => ?_) ?_ (fun _ hv => hpending.2 hv)
      (fun hv => H.called (hpending.1 hv)) fun ho _ => .inl ho⟩
    · simp
    · simp
  | drop =>
    refine ⟨new, H.move rfl (fun _ => rfl) rfl (fun o => ?_) ?_ (fun {v} h0 hv => ?_)
      (fun {v} hv => H.called (pending_entry.2 (.inr hv))) fun ho _ => .inl ho⟩
    · simp
    · simp
    · exact (pending_entry.1 hv).resolve_left h0
  | @mark _ _ v b _ hv hrun =>
    have hmem := (T.tasks List.mem_cons_self).resolve_left hv
    have M := (ends_markObject T.layout (T.published hmem)).of_ok hrun
    have S := (ends_markObject_set T.layout (T.published hmem)).of_ok hrun
    have hqueue := after_markObject _ _ hrun
    cases b with
    | false => exact ⟨_, H.markOld hv M.marks M.satb hqueue S⟩
    | true => exact ⟨_, H.markNew hv M.marks M.satb hqueue S⟩
  | @push _ o _ =>
    refine ⟨new, H.move rfl (fun _ => rfl) rfl (fun p => ?_) ?_
      (fun _ hv => pending_push.1 hv) (fun hv => H.called (pending_push.2 hv))
      fun ho _ => .inl ho⟩
    · show done.count p + (h₁.queue.grey.push o).toList.count p + _ = _
      have hsame : (MarkTask.push o == MarkTask.push p) = (o == p) := by
        rw [Bool.eq_iff_iff, beq_iff_eq, beq_iff_eq, MarkTask.push.injEq]
      rw [Queue.toList_push, List.count_append, List.cons_append, List.count_singleton,
        List.count_cons, hsame]
      omega
    · show h₁.queue.marked + 1 + _ = _
      rw [List.cons_append, pushes_push]
      omega

/-! ## 4. When no work is left -/

/-- **What is newly marked is what was due**, when no work is left. -/
theorem mem_iff (H : Headway h h₁ [] done new) (hf : Finished h₁.view) :
    o ∈ new ↔ h.view.Due o := by
  have hnone {v : Nat} : ¬ Pending h₁.view [] v := by
    rintro (hv | ⟨a, ha, -⟩ | ⟨b, hb, -⟩)
    · cases hv
    · cases ha
    · rw [hf.2] at hb
      cases hb
  have hdone {p : Nat} (hp : p ∈ h.queue.grey.toList ∨ p ∈ new) : p ∈ done := by
    have hobjects := H.objects p
    have hgrey : h₁.queue.grey.toList = [] := hf.1
    rw [hgrey, List.count_nil, List.count_nil] at hobjects
    rcases hp with hp | hp
    · have := List.count_pos_iff.2 hp
      exact List.count_pos_iff.1 (by omega)
    · rw [if_pos hp] at hobjects
      exact List.count_pos_iff.1 (by omega)
  refine ⟨H.due, fun hd => ?_⟩
  induction hd with
  | entry hb hv hm => exact (H.entries hb hv hm).resolve_right hnone
  | grey ho hi hm => exact (H.fields (hdone (.inl ho)) hi hm).resolve_right hnone
  | field _ hi hm ih => exact (H.fields (hdone (.inr ih)) hi hm).resolve_right hnone

end Headway

end RegionHeap

end ManagedHeap
