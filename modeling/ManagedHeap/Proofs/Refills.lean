/-
# Buffers and the memory behind them

A mutator allocates from its buffer.  When that is used up it retires it and asks the heap for a new
one, which is twice as large as the last, within bounds; when there is none of that size it may get a
smaller one, and when there is no buffer at all it allocates without one.  With all these detours it
gets what it asks for exactly if its buffer has room or the heap can give it a single piece of memory
of that size: a buffer is never refused for want of memory that a single object would get, and never
given where a single object finds none.  If there is nothing to be had, the heap is as it was, but
for the buffer that was given up.

Nothing of that depends on the heap.  `Heap.Supplies` says what it takes; both heaps have it
(sections 3 and 4), in all the states that requests lead to.

* Section 1: what a heap supplies.
* Section 2: allocation by a mutator.
* Section 3: the relocating heap.
* Section 4: the heap that never collects.
* Section 5: the result.
-/
import ManagedHeap.Proofs.Construction
import ManagedHeap.Proofs.Supply

namespace ManagedHeap

/-! ## 1. What a heap supplies -/

/-- The buffer of a mutator. -/
def Heap.tlab? {H : Type} [Heap H] (h : H) (m : Nat) : Option Tlab :=
  ((Heap.core h).mutators[m]?.join).map (·.tlab)

/-- The buffer has some bytes left. -/
def Tlab.HasRoom (t : Tlab) (n : Nat) : Prop := t.isEmpty = false ∧ t.cursor + n ≤ t.limit

/-- The heap grants some sizes, whether for buffers or for single objects, and it is the same when
it grants none.  `Alike` heaps have the same memory in the same use, and `Same` ones in the same
buffers as well. -/
structure Heap.Supplies {H : Type} [Heap H] (Ok : H → Prop) (Alike Same : H → H → Prop)
    (Grants : H → Nat → Prop) : Prop where
  core_setCore : ∀ (c : HeapCore) (h : H), Heap.core (Heap.setCore c h) = c
  setCore_core : ∀ h : H, Heap.setCore (Heap.core h) h = h
  alike : IsPreorder H Alike
  same : IsPreorder H Same
  alike_of_same : ∀ {h h'}, Same h h' → Alike h h'
  grants_of_alike : ∀ {h h' n}, Alike h h' → (Grants h' n ↔ Grants h n)
  ok_of_same : ∀ {h h'}, Ok h → Same h h' → Ok h'
  mutators : ∀ h x, Same h (Heap.setCore { Heap.core h with mutators := x } h)
  allocate : ∀ {h n}, Ok h → After (Heap.allocate n) h fun r h' =>
    (r.isSome = true ↔ Grants h n) ∧
      (r = none → Same h h' ∧ (Heap.core h').mutators = (Heap.core h).mutators)
  ends_allocate : ∀ {h n}, Ok h → 8 ∣ n → Grants h n →
    Ends (Heap.allocate n) h fun r _ => r.isSome = true
  allocateTlab : ∀ {h z n}, Ok h → After (Heap.allocateTlab z n) h fun x h' =>
    (Heap.core h').mutators = (Heap.core h).mutators ∧ (x.2 = none → Same h h') ∧
      ∀ a k, x.2 = some (a, k) → a ≠ 0 ∧ n ≤ k ∧ Grants h n
  retireTlab : ∀ {h a}, Ok h → After (Heap.retireTlab a) h fun _ h' => Ok h' ∧ Alike h h'

/-! ## 2. Allocation by a mutator -/

namespace Mutator

variable {H : Type} [Heap H] {Ok : H → Prop} {Alike Same : H → H → Prop} {Grants : H → Nat → Prop}
  {h h' : H} {m n size : Nat} {t : Mutator} {r : Option Nat}

/-- What is promised of an allocation by a mutator. -/
structure Promised (Alike Same : H → H → Prop) (m size : Nat) (h : H) (r : Option Nat) (h' : H) :
    Prop where
  /-- Above the limit for objects nothing is allocated. -/
  large : Object.maxSize < size → r = none
  /-- Otherwise the request for so many bytes, but at least a header, in whole words, is met exactly
  if the buffer has room for them or the heap can give them outside of buffers. -/
  met : size ≤ Object.maxSize → (r.isSome = true ↔
    (∃ t, Heap.tlab? h m = some t ∧ t.HasRoom ((max size 16 + 7) / 8 * 8)) ∨
      ∃ a h'', Heap.allocate ((max size 16 + 7) / 8 * 8) h = .ok (some a) h'')
  /-- If it is not met, the heap has the same memory in the same use. -/
  alike : r = none → Alike h h'
  /-- All that has happened is that the buffer may have been given up. -/
  retired : r = none → ∃ g, (g = h ∨ retireTlab m h = .ok () g) ∧ Same g h' ∧
    ∀ k, Heap.tlab? h' k = Heap.tlab? g k

section
variable {post : Mutator → H → Prop}

theorem after_getState (h₀ : ∀ t, (Heap.core h).mutators[m]?.join = some t → post t h) :
    After (getState m) h post := by
  rw [getState, after_bind, after_get]
  split
  · rename_i t ht
    exact after_pure.2 (h₀ t ht)
  · exact after_throw

theorem tlab?_of_mutators (he : (Heap.core h').mutators = (Heap.core h).mutators) (k : Nat) :
    Heap.tlab? h' k = Heap.tlab? h k := by
  rw [Heap.tlab?, he]
  rfl

end

section
variable (S : Heap.Supplies Ok Alike Same Grants)

include S

theorem tlab?_setIfInBounds {t' : Mutator} (hm : (Heap.core h).mutators[m]?.join = some t) (k : Nat) :
    Heap.tlab? (Heap.setCore { Heap.core h with
      mutators := (Heap.core h).mutators.setIfInBounds m (some t') } h) k =
      if k = m then some t'.tlab else Heap.tlab? h k := by
  obtain ⟨hlt, -⟩ := Array.getElem?_eq_some_iff.1 (Option.join_eq_some_iff.1 hm)
  rw [Heap.tlab?, S.core_setCore, Array.getElem?_setIfInBounds]
  by_cases hk : k = m
  · subst hk
    simp [hlt]
  · rw [if_neg (Ne.symm hk), if_neg hk]
    rfl

/-- **From its buffer** a mutator gets what the buffer has room for, and otherwise nothing. -/
theorem after_allocateTlab : After (onTlab m (Tlab.allocate n)) h fun r h' =>
    ∃ t, Heap.tlab? h m = some t ∧ (r.isSome = true ↔ t.HasRoom n) ∧ (r = none → h' = h) := by
  rw [onTlab, after_bind]
  refine after_getState fun t ht => ?_
  have htlab : Heap.tlab? h m = some t.tlab := congrArg (Option.map Mutator.tlab) ht
  simp only [after_onPart, Tlab.allocate, after_bind, after_get, after_lift, after_ite, after_pure,
    after_set, sum_eq_ok]
  rintro _ _ _ ⟨-, rfl⟩
  refine ⟨fun hfull => ⟨t.tlab, htlab, ?_, fun _ => ?_⟩, fun hroom => ⟨t.tlab, htlab, ?_, (by simp)⟩⟩
  · simp only [Option.isSome_none, Bool.false_eq_true, false_iff, Tlab.HasRoom, not_and, not_le]
    intro he
    simpa [he] using hfull
  · show Heap.setCore { Heap.core h with
      mutators := (Heap.core h).mutators.setIfInBounds m (some t) } h = h
    rw [setIfInBounds_self ht]
    exact S.setCore_core h
  · rw [not_or, Nat.not_lt, Bool.not_eq_true] at hroom
    simpa [Tlab.HasRoom] using hroom.symm

/-- A buffer is given up. -/
theorem after_retireTlab (hok : Ok h) :
    After (retireTlab m) h fun _ h' => Ok h' ∧ Alike h h' := by
  rw [retireTlab, after_bind, onTlab, after_bind]
  refine after_getState fun t _ => ?_
  rw [after_onPart]
  intro r b _
  have hsame := S.mutators h
    ((Heap.core h).mutators.setIfInBounds m (some { t with tlab := b }))
  cases r with
  | none => exact after_pure.2 ⟨S.ok_of_same hok hsame, S.alike_of_same hsame⟩
  | some b =>
    refine (S.retireTlab (S.ok_of_same hok hsame)).mono fun _ h' hr => ⟨hr.1, ?_⟩
    exact S.alike.trans _ _ _ (S.alike_of_same hsame) hr.2

/-- A buffer that was just given has room for what it was asked for. -/
theorem after_refill {a k : Nat} (ha : a ≠ 0) (hn : n ≤ k) : After (do
    onTlab m (Tlab.reset a k)
    onTlab m (Tlab.allocate n)) h fun r _ => r.isSome = true := by
  rw [after_bind, onTlab, after_bind]
  refine after_getState fun t ht => ?_
  simp only [after_onPart, Tlab.reset, after_bind, after_modify, after_lift, sum_eq_ok]
  rintro _ ⟨-, rfl⟩
  refine (after_allocateTlab S).mono fun r h₁ hr => ?_
  obtain ⟨b, hb, hroom, -⟩ := hr
  rw [tlab?_setIfInBounds S ht, if_pos rfl] at hb
  cases hb
  exact hroom.2 ⟨by simpa [Tlab.isEmpty] using ha, Nat.add_le_add_left hn a⟩

/-- What the heap grants is what it gives outside of buffers. -/
theorem grants_iff (hok : Ok h) (hn : 8 ∣ n) :
    Grants h n ↔ ∃ a h'', Heap.allocate n h = .ok (some a) h'' := by
  constructor
  · intro hg
    obtain ⟨r, h'', hrun, hr⟩ := S.ends_allocate hok hn hg
    obtain ⟨a, rfl⟩ := Option.isSome_iff_exists.1 hr
    exact ⟨a, h'', hrun⟩
  · rintro ⟨a, h'', hrun⟩
    exact (S.allocate hok _ _ hrun).1.1 rfl

/-- **Without the current buffer** a mutator gets what the heap grants. -/
theorem after_allocateSlow (hok : Ok h) :
    After (allocateSlow m n) h fun r h' => (r.isSome = true ↔ Grants h n) ∧
      (r = none → Alike h h' ∧ ∃ g, (g = h ∨ retireTlab m h = .ok () g) ∧ Same g h' ∧
        ∀ k, Heap.tlab? h' k = Heap.tlab? g k) := by
  rw [allocateSlow, after_bind, after_get, after_ite]
  constructor
  · -- The request is too large for a buffer.
    intro _
    refine (S.allocate hok).mono fun r h' hr => ⟨hr.1, fun hnone => ?_⟩
    obtain ⟨hsame, hm⟩ := hr.2 hnone
    exact ⟨S.alike_of_same hsame, h, .inl rfl, hsame, tlab?_of_mutators hm⟩
  intro _
  rw [after_bind]
  intro u g hretire
  obtain ⟨hokg, hlike⟩ := after_retireTlab S hok u g hretire
  rw [after_bind]
  refine after_getState fun t ht => ?_
  rw [after_bind]
  refine (S.allocateTlab hokg).mono ?_
  rintro ⟨sizing, given⟩ g₁ ⟨hm₁, hnone, hsome⟩
  have ht₁ : (Heap.core g₁).mutators[m]?.join = some t := hm₁ ▸ ht
  rw [after_bind, setState, Heap.modifyCore, after_modify]
  cases given with
  | some x =>
    obtain ⟨a, k⟩ := x
    obtain ⟨ha, hk, hgrants⟩ := hsome a k rfl
    refine (after_refill S ha hk).mono fun r h' hr => ?_
    refine ⟨iff_of_true hr ((S.grants_of_alike hlike).1 hgrants), fun he => ?_⟩
    rw [he] at hr
    cases hr
  | none =>
    have hsame₁ := hnone rfl
    have hsame₂ := S.mutators g₁ ((Heap.core g₁).mutators.setIfInBounds m (some { t with sizing }))
    have hsame := S.same.trans _ _ _ hsame₁ hsame₂
    refine (S.allocate (S.ok_of_same hokg hsame)).mono fun r h' hr => ?_
    refine ⟨hr.1.trans ((S.grants_of_alike (S.alike_of_same hsame)).trans (S.grants_of_alike hlike)),
      fun he => ?_⟩
    obtain ⟨hsame₃, hm₃⟩ := hr.2 he
    have hall := S.same.trans _ _ _ hsame hsame₃
    refine ⟨S.alike.trans _ _ _ hlike (S.alike_of_same hall), g, .inr hretire, hall, fun k => ?_⟩
    rw [tlab?_of_mutators hm₃, tlab?_setIfInBounds S ht₁]
    split
    · rename_i he
      rw [he, Heap.tlab?, ht]
      rfl
    · exact tlab?_of_mutators hm₁ k

/-- **An allocation by a mutator** is met exactly if its buffer or the heap has room. -/
theorem after_allocate (hok : Ok h) :
    After (allocate m size) h fun r h' => Promised Alike Same m size h r h' := by
  rw [allocate, after_ite]
  constructor
  · intro hlarge
    refine after_pure.2 ⟨fun _ => rfl, fun hle => absurd hlarge (Nat.not_lt.2 hle),
      fun _ => S.alike.refl h, fun _ => ⟨h, .inl rfl, S.same.refl h, fun _ => rfl⟩⟩
  intro hsmall
  have hround := roundedSize_eq (Nat.not_lt.1 hsmall)
  generalize hn : (max size 16 + 7) / 8 * 8 = n at hround
  have h8 : 8 ∣ n := by omega
  rw [hround, after_bind]
  refine (after_allocateTlab S).mono ?_
  rintro r h₁ ⟨t, ht, hroom, hnone⟩
  cases r with
  | some a =>
    refine after_pure.2 ⟨fun h => absurd h hsmall, fun _ => ?_, (by simp), (by simp)⟩
    rw [hn]
    exact iff_of_true rfl (.inl ⟨t, ht, hroom.1 rfl⟩)
  | none =>
    cases hnone rfl
    refine (after_allocateSlow S hok).mono fun r h' hr => ?_
    refine ⟨fun h => absurd h hsmall, fun _ => ?_, fun he => (hr.2 he).1, fun he => (hr.2 he).2⟩
    rw [hn, hr.1, ← grants_iff S hok h8]
    refine (or_iff_right ?_).symm
    rintro ⟨t', ht', hroom'⟩
    cases ht.symm.trans ht'
    cases hroom.2 hroom'

end

end Mutator

/-- The size of a buffer is at least what it is needed for. -/
theorem TlabSizing.le_of_next {z z' : TlabSizing} {n most now k : Nat} {o : Options}
    (hmost : most + 7 < wordLimit) (h : z.next n most o now = .ok (z', some k)) : n ≤ k := by
  have hup {x : Nat} (hx : x ≤ most) : x ≤ alignUp x objectAlignment := by
    rw [show alignUp x objectAlignment = (x + 7) / 8 * 8 from
      alignUp_wordBytes (Nat.lt_of_le_of_lt (Nat.add_le_add_right hx 7) hmost)]
    omega
  have hle : TlabSizing.most o most ≤ most := Nat.min_le_left _ _
  unfold TlabSizing.next at h
  split at h
  · cases h
  · rename_i hn
    have hleast : n ≤ least o n most := by
      unfold least
      omega
    have hleast' : least o n most ≤ TlabSizing.most o most := Nat.min_le_right _ _
    split at h
    · cases h
      exact Nat.le_trans hleast (hup (Nat.le_trans hleast' hle))
    · obtain ⟨wanted, -, h⟩ := Except.bind_eq_ok.1 h
      cases h
      refine Nat.le_trans ?_ (hup (Nat.le_trans (Nat.min_le_right _ _) hle))
      exact Nat.le_min.2 ⟨Nat.le_trans hleast (Nat.le_max_right _ _), Nat.le_trans hleast hleast'⟩

/-! ## 3. The relocating heap -/

namespace RegionHeap

open RegionSpace

variable {h h' : RegionHeap} {n size smallest : Nat} {kind : AllocKind} {cause : Cause}

/-- The regions are in order, and so is the limit of a buffer. -/
structure Supplied (h : RegionHeap) : Prop where
  tidy : h.space.Tidy
  maxTlab : h.maxTlab + 7 < wordLimit

theorem after_requestCycle : After (requestCycle cause) h fun _ h' => Regional Same h h' ∧
    h'.core.mutators = h.core.mutators := by
  have hmut : After (requestCycle cause) h fun _ h' => h'.core.mutators = h.core.mutators := by
    rw [requestCycle, after_bind, after_get]
    cases h.controller with
    | none => exact after_pure.2 rfl
    | some c =>
      simp only [after_ite, after_bind, after_set, after_pure, note, noteAll, after_modify]
      exact ⟨fun _ => ⟨fun _ => trivial, fun _ => trivial⟩, fun _ => trivial⟩
  exact fun a h' hr => ⟨Upholds.keeps_requestCycle h a h' hr, hmut a h' hr⟩

/-- Regions that were put back without what they reported. -/
theorem regional_putSpace {s : RegionSpace} (S : Same h.space s) :
    Regional Same h (putSpace s h) := ⟨trans_of Same S same_reports, rfl, rfl, rfl⟩

theorem Supplied.of_alike (O : h.Supplied) (A : Regional Alike h h') : h'.Supplied :=
  ⟨O.tidy.of_alike A.regions, A.maxTlab ▸ O.maxTlab⟩

theorem alike_of_same (S : Regional Same h h') : Regional Alike h h' :=
  { S with regions := S.regions.toAlike }

theorem Supplied.after_allocate (O : h.Supplied) : After (RegionHeap.allocate n) h fun r h' =>
    (r.isSome = true ↔ h.space.Grants .shared n) ∧
      (r = none → Regional Same h h' ∧ h'.core.mutators = h.core.mutators) := by
  rw [RegionHeap.allocate, after_bind, after_lift]
  intro _ _
  rw [after_bind]
  refine (allocateIn_answered O.tidy).after.mono ?_
  rintro r _ ⟨s, A, rfl⟩
  cases r with
  | some a => exact after_pure.2 ⟨A.isSome, (by simp)⟩
  | none =>
    rw [after_bind]
    refine after_requestCycle.mono ?_
    rintro _ h₁ ⟨R, hm⟩
    refine after_pure.2 ⟨A.isSome, fun _ => ⟨?_, hm⟩⟩
    exact trans_of (Regional Same) (regional_putSpace (A.same rfl)) R

theorem Supplied.ends_allocate (O : h.Supplied) (hn : 8 ∣ n) (hg : h.space.Grants .shared n) :
    Ends (RegionHeap.allocate n) h fun r _ => r.isSome = true := by
  simp only [RegionHeap.allocate, ends_bind, ends_lift, require_eq_ok]
  refine ⟨(), Nat.mod_eq_zero_of_dvd hn, ((allocateIn_answered O.tidy).ends hn).mono ?_⟩
  rintro r h₁ ⟨s, A, rfl⟩
  cases r with
  | some a => exact ends_pure.2 rfl
  | none => cases A.isSome.2 hg

/-- **A buffer** of the size that is wanted, or of the least size that serves, is given only where a
single object finds room. -/
theorem Supplied.after_allocateTlabOf (O : h.Supplied) (hsize : n ≤ size)
    (hsmallest : n ≤ smallest) : After (allocateTlabOf size smallest) h fun x h' =>
      h'.core.mutators = h.core.mutators ∧ (x = none → Regional Same h h') ∧
        ∀ a k, x = some (a, k) → a ≠ 0 ∧ n ≤ k ∧ h.space.Grants .shared n := by
  have hgiven {s s' : RegionSpace} {a k : Nat} {r : Option Nat} (hk : n ≤ k) (S : Same h.space s)
      (A : Answered .tlab k (s.Grants .tlab k) s r s') (hr : r = some a) :
      a ≠ 0 ∧ n ≤ k ∧ h.space.Grants .shared n := by
    have hg : s.Grants .tlab k := A.isSome.1 (by rw [hr]; rfl)
    exact ⟨Nat.ne_of_gt (A.pos a hr), hk, (S.grants.1 (grants_tlab.1 hg)).mono hk⟩
  rw [allocateTlabOf, after_bind]
  refine (allocateIn_answered O.tidy).after.mono ?_
  rintro r _ ⟨s, A, rfl⟩
  cases r with
  | some a =>
    refine after_pure.2 ⟨rfl, (by simp), fun b k hb => ?_⟩
    cases hb
    exact hgiven hsize (refl_of Same _) A rfl
  | none =>
    have S₁ := regional_putSpace (A.same rfl)
    rw [after_ite]
    refine ⟨fun _ => ?_, fun _ => after_pure.2 ⟨rfl, fun _ => S₁, (by simp)⟩⟩
    rw [after_bind]
    refine (allocateIn_answered (O.of_alike (alike_of_same S₁)).tidy).after.mono ?_
    rintro r _ ⟨s', A', rfl⟩
    refine after_pure.2 ⟨rfl, fun hr => ?_, fun b k hb => ?_⟩
    · exact trans_of (Regional Same) S₁ (regional_putSpace (A'.same (Option.map_eq_none_iff.1 hr)))
    · obtain ⟨a, ha, hb⟩ := Option.map_eq_some_iff.1 hb
      cases hb
      exact hgiven hsmallest S₁.regions A' ha

/-- **The relocating heap supplies its mutators.** -/
theorem supplies : Heap.Supplies Supplied (Regional Alike) (Regional Same)
    fun h n => h.space.Grants .shared n where
  core_setCore _ _ := rfl
  setCore_core _ := rfl
  alike := inferInstance
  same := inferInstance
  alike_of_same := alike_of_same
  grants_of_alike A := A.regions.grants
  ok_of_same O S := O.of_alike (alike_of_same S)
  mutators _ _ := regional_of_eq rfl
  allocate O := O.after_allocate
  ends_allocate O hn hg := O.ends_allocate hn hg
  allocateTlab {h z n} O := by
    show After (RegionHeap.allocateTlab z n) h _
    rw [RegionHeap.allocateTlab, after_bind, after_get, after_bind, after_lift]
    rintro ⟨sizing, size⟩ hnext
    cases size with
    | none => exact after_pure.2 ⟨rfl, fun _ => refl_of (Regional Same) h, (by simp)⟩
    | some size =>
      have hsize := TlabSizing.le_of_next O.maxTlab hnext
      rw [after_bind]
      refine (O.after_allocateTlabOf hsize (Nat.le_max_left _ _)).mono ?_
      rintro x h₁ ⟨hm, hnone, hsome⟩
      cases x with
      | some x =>
        refine after_pure.2 ⟨hm, (by simp), fun a k hx => ?_⟩
        cases hx
        exact hsome _ _ rfl
      | none =>
        rw [after_bind]
        refine after_requestCycle.mono ?_
        rintro _ h₂ ⟨R, hm'⟩
        refine after_pure.2 ?_
        exact ⟨hm'.trans hm, fun _ => trans_of (Regional Same) (hnone rfl) R, (by simp)⟩
  retireTlab {h a} O := by
    have hretire : Keeps (Regional Alike) (RegionHeap.retireTlab a) :=
      alike_retireTlab.onPart fun _ _ A => ⟨trans_of Alike A same_reports.toAlike, rfl, rfl, rfl⟩
    exact (hretire h).mono fun _ _ A => ⟨O.of_alike A, A⟩

/-- A heap with its memory in order supplies its mutators. -/
theorem supplied_of_layout (L : h.view.Layout) : h.Supplied where
  tidy := tidy_of_layout L
  maxTlab := by
    have G := L.geometry
    have h1 : h.maxTlab ≤ h.view.regionSize := G.maxTlab_le
    have h2 := G.size_lt
    obtain ⟨k, hk⟩ := G.page
    have h3 := G.size_pos
    omega

end RegionHeap

/-! ## 4. The heap that never collects -/

namespace BumpHeap

variable {h h' : BumpHeap} {n k bytes rounds : Nat}

/-- The space is within the reservation, and the sizes are such that no sum of them overflows. -/
structure Supplied (h : BumpHeap) : Prop where
  fit : h.Fit
  low_pos : 0 < h.range.low
  maxTlab : h.maxTlab + 7 < wordLimit
  maxCapacity : h.maxCapacity + 4095 < wordLimit
  minHeapExpand : h.core.options.minHeapExpand < wordLimit

/-- The space and the settings are the same. -/
structure Same (h h' : BumpHeap) : Prop where
  space : h'.space = h.space
  range : h'.range = h.range
  settings : h'.settings = h.settings

instance : IsPreorder BumpHeap Same where
  refl _ := ⟨rfl, rfl, rfl⟩
  trans _ _ _ S S' := ⟨S'.space.trans S.space, S'.range.trans S.range, S'.settings.trans S.settings⟩

/-- The heap has some bytes left, or grows by enough for them. -/
def HasRoom (h : BumpHeap) (n : Nat) : Prop :=
  n ≤ h.space.free ∨ ∃ bytes, h.growth? n = some bytes ∧ 0 < bytes ∧ 4096 ∣ bytes

/-- An allocation finds room. -/
def Grants (h : BumpHeap) (n : Nat) : Prop := n ≤ h.maxCapacity ∧ h.HasRoom n

theorem Same.options (S : Same h h') : h'.core.options = h.core.options :=
  congrArg (·.2.2.2) S.settings

theorem Same.grants (S : Same h h') : h'.Grants n ↔ h.Grants n := by
  simp only [Grants, HasRoom, growth?, maxCapacity, S.space, S.range, S.options]

theorem Supplied.of_settings (O : h.Supplied) (F : h'.Fit) (hs : h'.settings = h.settings) :
    h'.Supplied := by
  simp only [settings, Prod.mk.injEq] at hs
  obtain ⟨hlow, hboundary, hmax, ho⟩ := hs
  constructor
  · exact F
  · exact hlow ▸ O.low_pos
  · exact hmax ▸ O.maxTlab
  · rw [BumpHeap.maxCapacity, Reservation.reserved, hlow, hboundary]
    exact O.maxCapacity
  · exact ho ▸ O.minHeapExpand

theorem Supplied.of_same (O : h.Supplied) (S : Same h h') : h'.Supplied := by
  refine O.of_settings ⟨?_, ?_, ?_, ?_, ?_⟩ S.settings
  all_goals
    simp only [S.space, S.range]
  · exact O.fit.bottom_eq
  · exact O.fit.bottom_le
  · exact O.fit.top_le
  · exact O.fit.limit_eq
  · exact O.fit.high_le

/-- Rounding up to pages. -/
theorem alignUp_page (hn : n < wordLimit) : alignUp n pageBytes =
    if roundUp n 4096 < wordLimit then roundUp n 4096 else 0 :=
  alignUp_eq_roundUp ⟨12, rfl⟩ (by decide) hn

/-- By how much the heap grows: at least by the least step, if that is left, and otherwise by all
that is left, if that is enough. -/
theorem Supplied.growth?_eq (O : h.Supplied) (hn : n ≤ h.maxCapacity) : h.growth? n =
    if roundUp (max n h.core.options.minHeapExpand) 4096 ≤ h.range.uncommitted then
      some (roundUp (max n h.core.options.minHeapExpand) 4096)
    else if wordLimit ≤ roundUp (max n h.core.options.minHeapExpand) 4096 then some 0
    else if roundUp (n - h.space.free) 4096 ≤ h.range.uncommitted ∧ 0 < h.range.uncommitted then
      some h.range.uncommitted
    else none := by
  have hcap := O.maxCapacity
  have hleft : h.range.uncommitted ≤ h.maxCapacity := by
    have h1 := O.fit.bottom_eq
    have h2 := O.fit.bottom_le
    have h3 := O.fit.top_le
    have h4 := O.fit.limit_eq
    show h.range.boundary - h.range.high ≤ h.range.boundary - h.range.low
    omega
  have hwanted : max n h.core.options.minHeapExpand < wordLimit :=
    Nat.max_lt.2 ⟨by omega, O.minHeapExpand⟩
  have hneeded : alignUp (n - h.space.free) pageBytes = roundUp (n - h.space.free) 4096 := by
    have hle : roundUp (n - h.space.free) 4096 ≤ n - h.space.free + 4095 := roundUp_le_add
    rw [alignUp_page (by omega), if_pos (by omega)]
  rw [growth?, alignUp_page hwanted, hneeded]
  by_cases hover : wordLimit ≤ roundUp (max n h.core.options.minHeapExpand) 4096
  · have hgt : ¬ roundUp (max n h.core.options.minHeapExpand) 4096 ≤ h.range.uncommitted := by omega
    simp [hover, hgt, Nat.not_lt.2 hover]
  · simp only [hover, Nat.not_le.1 hover, if_true, if_false]

/-- **A growth by any memory is by enough.** -/
theorem Supplied.le_of_growth? (O : h.Supplied) (hn : n ≤ h.maxCapacity)
    (hg : h.growth? n = some bytes) (hpos : 0 < bytes) :
    n ≤ h.space.free + bytes ∧ bytes ≤ h.range.uncommitted := by
  have hround {x : Nat} : x ≤ roundUp x 4096 := le_roundUp (by decide)
  rw [O.growth?_eq hn] at hg
  split at hg
  · cases hg
    have := hround (x := max n h.core.options.minHeapExpand)
    omega
  split at hg
  · cases hg
    cases hpos
  split at hg
  · cases hg
    have := hround (x := n - h.space.free)
    omega
  · cases hg

/-- **A smaller request is granted where a larger one is.** -/
theorem Supplied.grants_mono (O : h.Supplied) (hg : h.Grants k) (hn : n ≤ k) : h.Grants n := by
  obtain ⟨hk, hroom⟩ := hg
  have hcap := Nat.le_trans hn hk
  refine ⟨hcap, ?_⟩
  by_cases hfree : n ≤ h.space.free
  · exact .inl hfree
  obtain hroom | ⟨bytes, hbytes, hpos, hpage⟩ := hroom
  · exact absurd (Nat.le_trans hn hroom) hfree
  have hround {x : Nat} : x ≤ roundUp x 4096 := le_roundUp (by decide)
  have hmono : roundUp (max n h.core.options.minHeapExpand) 4096 ≤
      roundUp (max k h.core.options.minHeapExpand) 4096 := roundUp_mono (by omega)
  have hneed : roundUp (n - h.space.free) 4096 ≤ roundUp (k - h.space.free) 4096 :=
    roundUp_mono (by omega)
  have hwanted := hround (x := max n h.core.options.minHeapExpand)
  refine .inr ?_
  rw [O.growth?_eq hk] at hbytes
  rw [O.growth?_eq hcap]
  -- The least step is left for the smaller request too, or all that is left is enough for it.
  by_cases hleft : roundUp (max n h.core.options.minHeapExpand) 4096 ≤ h.range.uncommitted
  · exact ⟨_, if_pos hleft, by omega, dvd_roundUp⟩
  rw [if_neg (by omega)] at hbytes
  rw [if_neg hleft]
  split at hbytes
  · cases hbytes
    cases hpos
  split at hbytes
  · cases hbytes
    exact ⟨h.range.uncommitted, by rw [if_neg (by omega), if_pos (by omega)], hpos, hpage⟩
  · cases hbytes

/-- In the space there is room or there is none. -/
theorem allocateSpace (F : h.Fit) :
    EndsIf (8 ∣ n) (onSpace (BumpSpace.allocate n)) h fun r h' =>
      (n ≤ h.space.free ∧ r = some h.space.top ∧
        h' = { h with space := { h.space with top := h.space.top + n } }) ∨
      (h.space.free < n ∧ r = none ∧ h' = h) := by
  have hd : distance h.space.limit h.space.top = .ok h.space.free := distance_eq_ok.2 ⟨F.top_le, rfl⟩
  by_cases hn : n % objectAlignment = 0
  · refine Ends.endsIf ?_
    simp only [onSpace, ends_onPart, BumpSpace.allocate, ends_bind, ends_get, ends_lift,
      require_eq_ok, hn, hd, ends_ite, ends_pure, ends_set]
    exact ⟨(), trivial, _, rfl, fun hfull => .inr ⟨hfull, trivial, trivial⟩,
      fun hroom => .inl ⟨Nat.not_lt.1 hroom, trivial, trivial⟩⟩
  · refine ⟨?_, fun h8 => absurd (Nat.mod_eq_zero_of_dvd h8) hn⟩
    simp only [onSpace, after_onPart, BumpSpace.allocate, after_bind, after_get, after_lift,
      require_eq_ok]
    exact fun _ hn' => absurd hn' hn

/-- What there is after the heap has grown. -/
def grown (h : BumpHeap) (bytes : Nat) : BumpHeap :=
  { h with
    range := { h.range with high := h.range.high + bytes }
    space := { h.space with limit := h.range.high + bytes } }

/-- **The heap grows** by pages that are left. -/
theorem grow_grown (F : h.Fit) (hleft : bytes ≤ h.range.uncommitted) :
    EndsIf (4096 ∣ bytes) (grow bytes) h fun b h' => b = true ∧ 4096 ∣ bytes ∧ h' =
      { h.grown bytes with core := { h.core with
        journal := h.core.journal.push (.heapExpanded bytes (h.grown bytes).capacity) } } := by
  have hle : h.range.high ≤ h.range.boundary := F.high_le
  have hd : distance h.range.boundary h.range.high = .ok h.range.uncommitted :=
    distance_eq_ok.2 ⟨hle, rfl⟩
  have hmove : h.space.limit ≤ h.range.high + bytes := F.limit_eq ▸ Nat.le_add_right _ _
  by_cases hpage : isAligned bytes pageBytes = true
  · refine Ends.endsIf ?_
    simp only [grow, Reservation.expand, onSpace, BumpSpace.setLimit, note, ends_onPart, ends_bind,
      ends_get, ends_lift, require_eq_ok, hpage, hd]
    refine ⟨(), trivial, _, rfl, ?_⟩
    simp only [Nat.not_lt.2 hleft, if_false, ends_bind, ends_set, ends_pure, ends_get, ends_onPart,
      ends_lift, require_eq_ok, ends_modify]
    exact ⟨(), hmove, trivial, isAligned_pageBytes.1 hpage, rfl⟩
  · refine ⟨?_, fun hdvd => absurd (isAligned_pageBytes.2 hdvd) hpage⟩
    simp only [grow, Reservation.expand, after_onPart, after_bind, after_get, after_lift,
      require_eq_ok]
    exact fun _ h' => absurd h' hpage

theorem Fit.grown (F : h.Fit) (hleft : bytes ≤ h.range.uncommitted) : (h.grown bytes).Fit where
  bottom_eq := F.bottom_eq
  bottom_le := F.bottom_le
  top_le := Nat.le_trans F.top_le (F.limit_eq ▸ Nat.le_add_right _ _)
  limit_eq := rfl
  high_le := by
    have h1 := F.high_le
    have h2 : bytes ≤ h.range.boundary - h.range.high := hleft
    show h.range.high + bytes ≤ h.range.boundary
    omega

theorem Fit.grown_zero (F : h.Fit) : h.grown 0 = h := by
  have hspace : { h.space with limit := h.range.high } = h.space := by rw [← F.limit_eq]
  show { h with space := { h.space with limit := h.range.high } } = h
  rw [hspace]

/-- A heap that grows by nothing tries for ever. -/
theorem not_after_stall (F : h.Fit) (hfull : h.space.free < n) (hg : h.growth? n = some 0) :
    After (allocateRounds n rounds) h fun _ _ => False := by
  induction rounds generalizing h with
  | zero => exact after_throw
  | succ rounds ih =>
    rw [allocateRounds, after_bind]
    refine (allocateSpace F).after.mono ?_
    rintro _ h₁ (⟨hroom, -⟩ | ⟨-, rfl, rfl⟩)
    · exact absurd hroom (Nat.not_le.2 hfull)
    simp only [after_bind, after_get, hg]
    refine (grow_grown F (Nat.zero_le _)).after.mono ?_
    rintro _ _ ⟨rfl, -, rfl⟩
    rw [if_pos rfl, F.grown_zero]
    exact ih { F with } hfull hg

/-- Where there is room, one round is enough. -/
theorem allocateRounds_of_le (F : h.Fit) (hroom : n ≤ h.space.free) :
    EndsIf (8 ∣ n ∧ 0 < rounds) (allocateRounds n rounds) h fun r h' => r = some h.space.top ∧
      h' = { h with space := { h.space with top := h.space.top + n } } := by
  cases rounds with
  | zero => exact ⟨after_throw, fun h => absurd h.2 (Nat.lt_irrefl 0)⟩
  | succ rounds =>
    refine ((allocateSpace F).imp And.left).bind ?_
    rintro _ h₁ (⟨-, rfl, rfl⟩ | ⟨hfull, -⟩)
    · exact endsIf_pure ⟨rfl, rfl⟩
    · exact absurd hroom (Nat.not_le.2 hfull)

/-- **Growing once is enough.** -/
theorem Supplied.allocateRounds (O : h.Supplied) (hn : n ≤ h.maxCapacity) :
    EndsIf (8 ∣ n ∧ 1 < rounds ∧ h.HasRoom n) (allocateRounds n rounds) h fun r h' =>
      h'.core.mutators = h.core.mutators ∧ (∀ a, r = some a → a = h.space.top) ∧
        (r.isSome = true ↔ h.HasRoom n) ∧ (r = none → Same h h') := by
  cases rounds with
  | zero => exact ⟨after_throw, fun h => absurd h.2.1 (Nat.not_lt_zero 1)⟩
  | succ rounds =>
    rw [BumpHeap.allocateRounds]
    refine ((allocateSpace O.fit).imp And.left).bind ?_
    rintro _ h₁ (⟨hroom, rfl, rfl⟩ | ⟨hfull, rfl, rfl⟩)
    · exact endsIf_pure ⟨rfl, fun _ ha => (Option.some.inj ha).symm, by simp [HasRoom, hroom], (by simp)⟩
    rw [endsIf_get_bind]
    have hiff : h₁.HasRoom n ↔ ∃ bytes, h₁.growth? n = some bytes ∧ 0 < bytes ∧ 4096 ∣ bytes := by
      rw [HasRoom, or_iff_right (Nat.not_le.2 hfull)]
    cases hg : h₁.growth? n with
    | none =>
      have hno : ¬ h₁.HasRoom n := by simp [hiff, hg]
      refine Ends.endsIf ?_
      simp only [note, ends_bind, ends_modify, ends_pure]
      exact ⟨trivial, (by simp), by simp [hno], fun _ => ⟨rfl, rfl, rfl⟩⟩
    | some bytes =>
      by_cases hzero : bytes = 0
      · -- The heap would try for ever.
        subst hzero
        have hno : ¬ h₁.HasRoom n := by simp [hiff, hg]
        refine ⟨?_, fun h => absurd h.2.2 hno⟩
        rw [after_bind]
        refine (grow_grown O.fit (Nat.zero_le _)).after.mono ?_
        rintro _ h₂ ⟨rfl, -, rfl⟩
        rw [if_pos rfl, O.fit.grown_zero]
        exact After.mono (not_after_stall (O.fit.of_core rfl) hfull hg) fun _ _ => False.elim
      · have hpos := Nat.pos_of_ne_zero hzero
        obtain ⟨henough, hleft⟩ := O.le_of_growth? hn hg hpos
        have hpage (hroom : h₁.HasRoom n) : 4096 ∣ bytes := by
          obtain ⟨b, hb, -, hdvd⟩ := hiff.1 hroom
          cases hg.symm.trans hb
          exact hdvd
        refine ((grow_grown O.fit hleft).imp fun h => hpage h.2.2).bind ?_
        rintro _ _ ⟨rfl, hdvd, rfl⟩
        rw [if_pos rfl]
        have hfree : n ≤ (h₁.grown bytes).space.free := by
          show n ≤ h₁.range.high + bytes - h₁.space.top
          have h1 := O.fit.limit_eq
          have h2 := O.fit.top_le
          have h3 : h₁.space.free = h₁.space.limit - h₁.space.top := rfl
          omega
        have F := O.fit.grown hleft
        refine EndsIf.mono (EndsIf.imp (allocateRounds_of_le (F.of_core rfl) hfree) fun hc =>
          ⟨hc.1, Nat.lt_of_succ_lt_succ hc.2.1⟩) ?_
        rintro _ _ ⟨rfl, rfl⟩
        exact ⟨rfl, fun _ ha => (Option.some.inj ha).symm,
          iff_of_true rfl (hiff.2 ⟨bytes, hg, hpos, hdvd⟩), (by simp)⟩

theorem ends_refreshCounters :
    Ends refreshCounters h fun _ h' => h'.core.mutators = h.core.mutators := by
  simp only [refreshCounters, updateUsage, ends_bind, ends_get, ends_ite, ends_set, ends_modify,
    ends_pure]
  exact ⟨fun _ => trivial, fun _ => trivial⟩

theorem ends_reportOccupancy :
    Ends reportOccupancy h fun _ h' => h'.core.mutators = h.core.mutators := by
  simp only [reportOccupancy, note, ends_bind, ends_get, ends_ite, ends_set, ends_modify, ends_pure]
  exact ⟨fun _ => trivial, fun _ => trivial⟩

/-- **An allocation finds room exactly if it is granted.** -/
theorem Supplied.allocateBytes (O : h.Supplied) :
    EndsIf (8 ∣ n ∧ h.Grants n) (allocateBytes n) h fun r h' =>
      h'.core.mutators = h.core.mutators ∧ (∀ a, r = some a → a ≠ 0) ∧
        (r.isSome = true ↔ h.Grants n) ∧ (r = none → Same h h') := by
  have hpos : h.space.top ≠ 0 := by
    have h1 := O.low_pos
    have h2 := O.fit.bottom_eq
    have h3 := O.fit.bottom_le
    omega
  rw [BumpHeap.allocateBytes, endsIf_get_bind]
  by_cases hcap : h.maxCapacity < n
  · rw [if_pos hcap]
    refine Ends.endsIf ?_
    simp only [note, ends_bind, ends_modify, ends_pure]
    refine ⟨trivial, (by simp), ?_, fun _ => ⟨rfl, rfl, rfl⟩⟩
    simp [Grants, Nat.not_le.2 hcap]
  have hcap' := Nat.not_lt.1 hcap
  have hgrants : h.Grants n ↔ h.HasRoom n := and_iff_right hcap'
  rw [if_neg hcap]
  refine ((O.allocateRounds hcap').imp fun h => ⟨h.1, Nat.le_add_left 2 _, h.2.2⟩).bind ?_
  rintro r h₁ ⟨hm, htop, hsome, hnone⟩
  cases r with
  | none => exact endsIf_pure ⟨hm, (by simp), hsome.trans hgrants.symm, hnone⟩
  | some a =>
    have hdone : Ends (do
        refreshCounters
        reportOccupancy
        return some a) h₁ fun r h' => r = some a ∧ h'.core.mutators = h₁.core.mutators := by
      rw [ends_bind]
      refine ends_refreshCounters.mono fun _ h₂ h₂' => ?_
      rw [ends_bind]
      exact ends_reportOccupancy.mono fun _ h₃ h₃' => ends_pure.2 ⟨rfl, h₃'.trans h₂'⟩
    refine hdone.endsIf.mono ?_
    rintro _ h₂ ⟨rfl, hm'⟩
    refine ⟨hm'.trans hm, fun b hb => ?_, hsome.trans hgrants.symm, (by simp)⟩
    cases hb
    rw [htop a rfl]
    exact hpos

/-- **The heap that never collects supplies its mutators.** -/
theorem supplies : Heap.Supplies Supplied Same Same Grants where
  core_setCore _ _ := rfl
  setCore_core _ := rfl
  alike := inferInstance
  same := inferInstance
  alike_of_same := id
  grants_of_alike := Same.grants
  ok_of_same := Supplied.of_same
  mutators _ _ := ⟨rfl, rfl, rfl⟩
  allocate {h n} O := by
    show After (BumpHeap.allocate n) h _
    rw [BumpHeap.allocate, after_bind, after_lift]
    exact fun _ _ => O.allocateBytes.after.mono fun r h' hr => ⟨hr.2.2.1, fun he => ⟨hr.2.2.2 he, hr.1⟩⟩
  ends_allocate {h n} O hn hg := by
    show Ends (BumpHeap.allocate n) h _
    rw [BumpHeap.allocate, ends_bind, ends_lift]
    exact ⟨(), require_eq_ok.2 (Nat.mod_eq_zero_of_dvd hn),
      (O.allocateBytes.ends ⟨hn, hg⟩).mono fun r h' hr => hr.2.2.1.2 hg⟩
  allocateTlab {h z n} O := by
    show After (BumpHeap.allocateTlab z n) h _
    rw [BumpHeap.allocateTlab, after_bind, after_get, after_bind, after_lift]
    rintro ⟨sizing, size⟩ hnext
    cases size with
    | none => exact after_pure.2 ⟨rfl, fun _ => refl_of Same h, (by simp)⟩
    | some size =>
      have hsize := TlabSizing.le_of_next O.maxTlab hnext
      rw [after_bind]
      refine O.allocateBytes.after.mono ?_
      rintro r h₁ ⟨hm, hpos, hsome, hnone⟩
      cases r with
      | none => exact after_pure.2 ⟨hm, fun _ => hnone rfl, (by simp)⟩
      | some a =>
        refine after_pure.2 ⟨hm, (by simp), fun b k hb => ?_⟩
        cases hb
        exact ⟨hpos a rfl, hsize, O.grants_mono (hsome.1 rfl) hsize⟩
  retireTlab {h a} O := after_pure.2 ⟨O, refl_of Same h⟩

/-- A heap that was built supplies its mutators. -/
theorem supplied_of_build {place : Place} {o : Options} (P : o.Proper)
    (hb : AnyHeap.build place o = .ok (.ok (.bump h))) : h.Supplied := by
  have F := fresh_of_build hb
  have G := F.granted
  have hword : wordLimit = 18446744073709551616 := rfl
  have hlimit : reservationLimit = 140737488355328 := rfl
  constructor
  · exact F.fit
  · exact G.low_pos
  · have hlt := P.maxTlabSize.1
    rw [F.maxTlab, objectAlignment, alignDown_wordBytes]
    omega
  · have hsize := G.size_lt
    have hcap : h.maxCapacity = alignUp o.maxHeapSize pageBytes := by
      rw [BumpHeap.maxCapacity, Reservation.reserved, G.boundary_eq, Nat.add_sub_cancel_left]
    rw [hcap]
    simp only [pageBytes] at hsize ⊢
    omega
  · rw [F.options]
    exact P.minHeapExpand.1

end BumpHeap

/-! ## 5. The result -/

namespace AnyHeap

/-- The heap, if it is a relocating one. -/
def region? : AnyHeap → Option RegionHeap
  | region h => some h
  | bump _ => none

/-- The heap, if it is one that never collects. -/
def bump? : AnyHeap → Option BumpHeap
  | bump h => some h
  | region _ => none

theorem region?_eq_some {x : AnyHeap} {h : RegionHeap} : x.region? = some h ↔ x = region h := by
  cases x <;> simp [region?]

theorem bump?_eq_some {x : AnyHeap} {h : BumpHeap} : x.bump? = some h ↔ x = bump h := by
  cases x <;> simp [bump?]

end AnyHeap

namespace Mutator

/-- **A mutator is refused nothing that a single object would get, and gets nothing else**, on both
heaps and in every state that requests lead to.  When it is refused, the heap has the same memory in
the same use, and all that has happened is that the buffer may have been given up.

The requests come in any order and with any addresses, as long as they end; a cycle that fails a
check, which ends the controller that runs it, is no end. -/
theorem allocates_as_promised :
    (∀ {place o} {h g g' : RegionHeap} {rs as m size r},
      AnyHeap.build place o = .ok (.ok (.region h)) →
      Action.runAll RegionRequest.run rs h = .ok as g → g.isStopped = false →
      allocate m size g = .ok r g' →
      Promised (RegionHeap.Regional RegionSpace.Alike) (RegionHeap.Regional RegionSpace.Same)
        m size g r g') ∧
    (∀ {place o} {h g g' : BumpHeap} {rs as m size r}, o.Reached →
      AnyHeap.build place o = .ok (.ok (.bump h)) →
      Action.runAll Request.run rs h = .ok as g → allocate m size g = .ok r g' →
      Promised BumpHeap.Same BumpHeap.Same m size g r g') := by
  constructor
  · intro place o h g g' rs as m size r hb hrun hfine hr
    have O := RegionHeap.supplied_of_layout (RegionHeap.pristine_of_build hb).layout
    have K := keeps_runAll RegionRequest.serves_run rs h as g hrun hfine
    have O' : g.Supplied := ⟨K.regions O.tidy, K.maxTlab ▸ O.maxTlab⟩
    exact after_allocate RegionHeap.supplies O' r g' hr
  · intro place o h g g' rs as m size r ho hb hrun hr
    have O := BumpHeap.supplied_of_build ho.proper hb
    have K := keeps_runAll BumpHeap.sustains_fit.keeps_request rs h as g hrun
    exact after_allocate BumpHeap.supplies (O.of_settings (K.fit O.fit) K.settings) r g' hr

/-- Whether options are accepted, and requests lead to a heap with some property. -/
def leads {H γ α : Type} (select : AnyHeap → Option H) (step : γ → Action H α) (place : Place)
    (o : Options) (rs : List γ) (p : H → Bool) : Bool :=
  match AnyHeap.build place o with
  | .ok (.ok x) =>
    (select x).any fun h =>
      match Action.runAll step rs h with
      | .ok _ g => p g
      | .error _ _ => false
  | _ => false

theorem leads_iff {H γ α : Type} {select : AnyHeap → Option H} {step : γ → Action H α} {place : Place}
    {o : Options} {rs : List γ} {p : H → Bool} : leads select step place o rs p = true ↔
      ∃ x h as g, AnyHeap.build place o = .ok (.ok x) ∧ select x = some h ∧
        Action.runAll step rs h = .ok as g ∧ p g = true := by
  unfold leads
  constructor
  · intro hp
    split at hp
    · rename_i x hb
      cases hx : select x with
      | none => simp [hx] at hp
      | some h =>
        simp only [hx, Option.any_some] at hp
        split at hp
        · rename_i as g hrun
          exact ⟨x, h, as, g, hb, hx, hrun, hp⟩
        · cases hp
    · cases hp
  · rintro ⟨x, h, as, g, hb, hx, hrun, hp⟩
    simp only [hb, hx, Option.any_some, hrun, hp]

/-- Four regions, of which the last is left to evacuation. -/
def crampedHeap : Options where
  collector := .shenandoah
  initialHeapSize := 4096
  maxHeapSize := 16384
  regionSize := 4096
  minTlabSize := 512
  maxTlabSize := 1024
  evacReserve := 25

/-- The regions of mutators are filled.  The mutator has the rest of a buffer left. -/
def cramming : List RegionRequest := [
  .common (.operation .create), .common (.operation (.allocRaw 0 64)), .common (.allocate 3000),
  .takeDirty, .common (.allocate 4096), .common (.allocate 4096)]

/-- Four pages that never shrink. -/
def filling : List Request := [
  .operation .create, .operation (.allocRaw 0 64), .allocate 4096, .allocate 4096, .sleep 10,
  .allocate 4096, .allocate 3184]

theorem growingHeap_reached : growingHeap.Reached := by
  have h : Options.setAll {} [("Collector", "Epsilon"), ("InitialHeapSize", "4096"),
    ("MaxHeapSize", "16384"), ("MinTlabSize", "512"), ("MaxTlabSize", "1024"),
    ("MinHeapExpand", "4096"), ("PrintHeapSteps", "2")] = .ok growingHeap := by decide +kernel
  exact (Options.Reached.builtin 1 (by decide)).setAll h

/-- Both heaps are full but for a buffer, in which there is no room for the request. -/
theorem allocates_as_promised_full :
    (∃ h as g g', AnyHeap.build Place.first crampedHeap = .ok (.ok (.region h)) ∧
      Action.runAll RegionRequest.run cramming h = .ok as g ∧ g.isStopped = false ∧
      allocate 0 600 g = .ok none g' ∧
      Promised (RegionHeap.Regional RegionSpace.Alike) (RegionHeap.Regional RegionSpace.Same)
        0 600 g none g') ∧
    ∃ h as g g', growingHeap.Reached ∧
      AnyHeap.build Place.first growingHeap = .ok (.ok (.bump h)) ∧
      Action.runAll Request.run filling h = .ok as g ∧ allocate 0 600 g = .ok none g' ∧
      Promised BumpHeap.Same BumpHeap.Same 0 600 g none g' := by
  obtain ⟨x, h, as, g, hb, hx, hrun, hg⟩ := leads_iff.1
    (show leads AnyHeap.region? RegionRequest.run Place.first crampedHeap cramming
      (fun g => !g.isStopped &&
        decide (Ends (allocate 0 600) g fun r _ => r = none)) = true by decide +kernel)
  obtain ⟨y, k, as', l, hk, hy, hrun', hl⟩ := leads_iff.1
    (show leads AnyHeap.bump? Request.run Place.first growingHeap filling
      (fun g => decide (Ends (allocate 0 600) g fun r _ => r = none)) = true by decide +kernel)
  simp only [Bool.and_eq_true, Bool.not_eq_true', decide_eq_true_eq] at hg hl
  obtain ⟨hfine, _, g', hg', rfl⟩ := hg
  obtain ⟨_, l', hl', rfl⟩ := hl
  cases AnyHeap.region?_eq_some.1 hx
  cases AnyHeap.bump?_eq_some.1 hy
  exact ⟨⟨h, as, g, g', hb, hrun, hfine, hg', allocates_as_promised.1 hb hrun hfine hg'⟩,
    k, as', l, l', growingHeap_reached, hk, hrun', hl',
    allocates_as_promised.2 growingHeap_reached hk hrun' hl'⟩

end Mutator

end ManagedHeap
