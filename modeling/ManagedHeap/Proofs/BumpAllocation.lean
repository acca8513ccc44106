/-
# Memory from a heap that never collects

A `BumpHeap` hands out the bytes of its reservation from the top of its space on, and its mutators
allocate from buffers that they were handed out.  So a byte may still be handed out if it is above the
top, or if it is left in a buffer; that is all there is to its arena (`BumpHeap.arena`).

An allocation moves the top over what it gives, or the cursor of a buffer, and does nothing else to
memory (`BumpHeap.Gives`).  What a mutator is given was free and is not free any more, also where its
buffer is given up and another one takes its place (`BumpHeap.Obtained`).

Allocations of this heap may fail to come to an end, where growth by nothing is tried again and again,
so what is said of them is said of those that end.

* Section 1: the arena of the heap, and when its memory is in order.
* Section 2: allocation from the space.
* Section 3: the buffers of mutators.
* Section 4: allocation by a mutator.
-/
import ManagedHeap.Proofs.Ledger
import ManagedHeap.Proofs.Refills

namespace ManagedHeap

/-! ## 1. The arena -/

namespace BumpHeap

/-- The mutator with a number. -/
def mutator? (h : BumpHeap) (m : Nat) : Option Mutator := h.core.mutators[m]?.join

/-- What matters of the heap for what it hands out.  It is a single region. -/
def arena (h : BumpHeap) : Arena where
  untouched b := h.space.top ≤ b ∧ b < h.range.boundary
  buffer := buffersOf h.core.mutators
  region _ := 0

/-- A buffer is in memory that was handed out. -/
structure BufferOk (h : BumpHeap) (b : Tlab) : Prop where
  low_le : h.range.low ≤ b.start
  start_le : b.start ≤ b.cursor
  cursor_le : b.cursor ≤ b.limit
  nonempty : b.start < b.limit
  below : b.limit ≤ h.space.top
  start_aligned : 8 ∣ b.start
  cursor_aligned : 8 ∣ b.cursor

/-- The memory of the heap is in order: the space is within the reservation, and the buffers of the
mutators are apart in what was handed out of it. -/
structure Tidy (h : BumpHeap) : Prop extends h.Supplied where
  boundary_le : h.range.boundary ≤ rootBase
  top_aligned : 8 ∣ h.space.top
  buffers : ∀ {m t}, h.mutator? m = some t → t.tlab = {} ∨ h.BufferOk t.tlab
  apart : ∀ {m m' t t'}, m ≠ m' → h.mutator? m = some t → h.mutator? m' = some t' →
    t.tlab.limit ≤ t'.tlab.start ∨ t'.tlab.limit ≤ t.tlab.start

/-- Memory may have been handed out, and the heap may have grown for it. -/
structure Extends (h h' : BumpHeap) : Prop where
  settings : h'.settings = h.settings
  high_le : h.range.high ≤ h'.range.high
  fills : h.arena.Fills h'.arena

/-- The same, and nothing else has happened: memory has the contents that it had. -/
structure Gives (h h' : BumpHeap) : Prop extends Extends h h' where
  memory : h'.core.memory = h.core.memory
  isSome : ∀ m, (h'.mutator? m).isSome = (h.mutator? m).isSome

section
variable {h h' h'' : BumpHeap} {m n a b : Nat} {t t' : Mutator} {c : Tlab}

theorem buffer_eq_some : h.arena.buffer m = some c ↔
    ∃ t, h.mutator? m = some t ∧ t.tlab = c ∧ c.start < c.limit := buffersOf_eq_some

theorem settings_low (hs : h'.settings = h.settings) : h'.range.low = h.range.low :=
  congrArg Prod.fst hs

theorem settings_boundary (hs : h'.settings = h.settings) : h'.range.boundary = h.range.boundary :=
  congrArg (·.2.1) hs

theorem Tidy.low_le (T : h.Tidy) : h.range.low ≤ h.space.top := by
  have h1 := T.fit.bottom_eq
  have h2 := T.fit.bottom_le
  omega

theorem Tidy.top_le (T : h.Tidy) : h.space.top ≤ h.range.high := T.fit.limit_eq ▸ T.fit.top_le

/-- A buffer that has bytes is one. -/
theorem Tidy.buffer (T : h.Tidy) (hm : h.mutator? m = some t) (hlt : t.tlab.start < t.tlab.limit) :
    h.BufferOk t.tlab := by
  refine (T.buffers hm).resolve_left fun he => ?_
  rw [he] at hlt
  exact Nat.lt_irrefl 0 hlt

/-- The buffers are where they may be. -/
theorem Tidy.orderly (T : h.Tidy) : h.arena.Orderly where
  bounds {m c} hc := by
    obtain ⟨t, hm, rfl, hlt⟩ := buffer_eq_some.1 hc
    have B := T.buffer hm hlt
    exact ⟨B.start_le, B.cursor_le⟩
  proper {m c} hc := by
    obtain ⟨t, hm, rfl, hlt⟩ := buffer_eq_some.1 hc
    exact ⟨Nat.sub_pos_of_lt hlt, (T.buffer hm hlt).start_aligned, fun _ _ => rfl⟩
  apart {m m' c c'} hne hc hc' := by
    obtain ⟨t, hm, rfl, -⟩ := buffer_eq_some.1 hc
    obtain ⟨t', hm', rfl, -⟩ := buffer_eq_some.1 hc'
    exact T.apart hne hm hm'
  taken {m c b} hc h1 h2 hb := by
    obtain ⟨t, hm, rfl, hlt⟩ := buffer_eq_some.1 hc
    have h3 := (T.buffer hm hlt).below
    have h4 : h.space.top ≤ b := hb.1
    omega

/-- What is free is in the reservation. -/
theorem Tidy.free_bounds (T : h.Tidy) (hb : h.arena.Free b) :
    h.range.low ≤ b ∧ b < h.range.boundary := by
  have h1 := T.low_le
  have h2 := T.top_le
  have h3 := T.fit.high_le
  rcases hb with ⟨h4, h5⟩ | ⟨m, c, hc, h4, h5⟩
  · have h4 : h.space.top ≤ b := h4
    exact ⟨by omega, h5⟩
  · obtain ⟨t, hm, rfl, hlt⟩ := buffer_eq_some.1 hc
    have B := T.buffer hm hlt
    have h6 := B.low_le
    have h7 := B.start_le
    have h8 := B.below
    exact ⟨by omega, by omega⟩

instance : IsPreorder BumpHeap Extends where
  refl _ := ⟨rfl, Nat.le_refl _, .refl _⟩
  trans _ _ _ E E' := ⟨E'.settings.trans E.settings, Nat.le_trans E.high_le E'.high_le,
    E.fills.trans E'.fills⟩

instance : IsPreorder BumpHeap Gives where
  refl h := ⟨refl_of Extends h, rfl, fun _ => rfl⟩
  trans _ _ _ G G' := ⟨trans_of Extends G.toExtends G'.toExtends, G'.memory.trans G.memory,
    fun m => (G'.isSome m).trans (G.isSome m)⟩

/-- Memory is in order whatever it contains, also with more mutators or with fewer. -/
theorem Tidy.of_core {c : HeapCore} (T : h.Tidy) (ho : c.options = h.core.options)
    (hm : ∀ {m t}, c.mutators[m]?.join = some t → h.mutator? m = some t ∨ t.tlab = {}) :
    ({ h with core := c } : BumpHeap).Tidy where
  fit := { T.fit with }
  low_pos := T.low_pos
  maxTlab := T.maxTlab
  maxCapacity := T.maxCapacity
  minHeapExpand := ho ▸ T.minHeapExpand
  boundary_le := T.boundary_le
  top_aligned := T.top_aligned
  buffers ht := by
    rcases hm ht with ht | ht
    · exact (T.buffers ht).imp_right fun B => { B with }
    · exact .inl ht
  apart hne ht ht' := by
    rcases hm ht with ht | ht
    · rcases hm ht' with ht' | ht'
      · exact T.apart hne ht ht'
      · exact .inr (ht' ▸ Nat.zero_le _)
    · exact .inl (ht ▸ Nat.zero_le _)

/-- Nothing but the core changes, and no mutator has a buffer there that it did not have. -/
theorem extends_of_core {c : HeapCore} (ho : c.options = h.core.options)
    (hm : ∀ {m t}, c.mutators[m]?.join = some t → h.mutator? m = some t ∨ t.tlab = {}) :
    Extends h { h with core := c } where
  settings := by simp only [settings, ho]
  high_le := Nat.le_refl _
  fills := by
    refine ⟨id, fun hc => ?_, rfl⟩
    obtain ⟨t, ht, rfl, hlt⟩ := buffer_eq_some.1 hc
    rcases hm ht with ht | ht
    · exact .inl ⟨_, buffer_eq_some.2 ⟨t, ht, rfl, hlt⟩, rfl, rfl, Nat.le_refl _⟩
    · rw [ht] at hlt
      exact absurd hlt (Nat.lt_irrefl 0)

end

/-! ## 2. The space -/

/-- Nothing was handed out; the heap may have grown. -/
structure Quiet (h h' : BumpHeap) : Prop where
  settings : h'.settings = h.settings
  memory : h'.core.memory = h.core.memory
  mutators : h'.core.mutators = h.core.mutators
  top : h'.space.top = h.space.top
  high_le : h.range.high ≤ h'.range.high

instance : IsPreorder BumpHeap Quiet where
  refl _ := ⟨rfl, rfl, rfl, rfl, Nat.le_refl _⟩
  trans _ _ _ Q Q' := ⟨Q'.settings.trans Q.settings, Q'.memory.trans Q.memory,
    Q'.mutators.trans Q.mutators, Q'.top.trans Q.top, Nat.le_trans Q.high_le Q'.high_le⟩

/-- The space has given `n` bytes, or none. -/
structure Took (h : BumpHeap) (n : Nat) (r : Option Nat) (h' : BumpHeap) : Prop where
  settings : h'.settings = h.settings
  memory : h'.core.memory = h.core.memory
  mutators : h'.core.mutators = h.core.mutators
  high_le : h.range.high ≤ h'.range.high
  refused : r = none → h'.space.top = h.space.top
  given : ∀ a, r = some a → a = h.space.top ∧ h'.space.top = h.space.top + n ∧ 8 ∣ n

section
variable {h h' h'' : BumpHeap} {m n a b bytes rounds : Nat} {t : Mutator} {r : Option Nat} {e : Event}
  {cause : Cause} {z : TlabSizing}

theorem Quiet.took (Q : Quiet h h') : Took h n none h' :=
  ⟨Q.settings, Q.memory, Q.mutators, Q.high_le, fun _ => Q.top, (by simp)⟩

theorem Quiet.trans_took (Q : Quiet h h') (K : Took h' n r h'') : Took h n r h'' where
  settings := K.settings.trans Q.settings
  memory := K.memory.trans Q.memory
  mutators := K.mutators.trans Q.mutators
  high_le := Nat.le_trans Q.high_le K.high_le
  refused hr := (K.refused hr).trans Q.top
  given a ha := Q.top ▸ K.given a ha

theorem Took.trans_quiet (K : Took h n r h') (Q : Quiet h' h'') : Took h n r h'' where
  settings := Q.settings.trans K.settings
  memory := Q.memory.trans K.memory
  mutators := Q.mutators.trans K.mutators
  high_le := Nat.le_trans K.high_le Q.high_le
  refused hr := Q.top.trans (K.refused hr)
  given a ha := Q.top ▸ K.given a ha

theorem quiet_note : Keeps Quiet (note e) := keeps_modify fun _ => ⟨rfl, rfl, rfl, rfl, Nat.le_refl _⟩

theorem quiet_updateUsage : Keeps Quiet updateUsage :=
  keeps_modify fun _ => ⟨rfl, rfl, rfl, rfl, Nat.le_refl _⟩

theorem quiet_refreshCounters : Keeps Quiet refreshCounters := by
  refine keeps_get_bind fun h => ?_
  simp only [updateUsage, after_ite, after_bind, after_set, after_modify, after_pure]
  exact ⟨fun _ => ⟨rfl, rfl, rfl, rfl, Nat.le_refl _⟩, fun _ => refl_of Quiet h⟩

theorem quiet_reportOccupancy : Keeps Quiet reportOccupancy := by
  refine keeps_get_bind fun h => ?_
  simp only [note, after_ite, after_bind, after_set, after_modify, after_pure]
  exact ⟨fun _ => ⟨rfl, rfl, rfl, rfl, Nat.le_refl _⟩, fun _ => refl_of Quiet h⟩

theorem quiet_collect : Keeps Quiet (collect cause) := quiet_note.bind fun _ => quiet_updateUsage

/-- Growth moves no bound but those of what is committed. -/
theorem quiet_grow : Keeps Quiet (grow bytes) := by
  intro h
  rw [grow, after_bind, after_onPart]
  refine Reservation.leaves_expand.after.mono fun x r hx => ?_
  cases x with
  | error e =>
    obtain rfl := hx.1 e rfl
    exact (quiet_note.bind fun _ => keeps_pure) h
  | ok u =>
    obtain ⟨rfl, -⟩ := hx.2 rfl
    simp only [onSpace, BumpSpace.setLimit, note, after_bind, after_onPart, after_get, after_lift,
      after_set, after_modify, after_pure]
    exact fun _ _ => ⟨rfl, rfl, rfl, rfl, Nat.le_add_right _ _⟩

theorem after_onSpace_allocate : After (onSpace (BumpSpace.allocate n)) h (Took h n) := by
  simp only [onSpace, after_onPart, BumpSpace.allocate, after_bind, after_get, after_lift, after_ite,
    after_pure, after_set, require_eq_ok]
  intro _ hn _ _
  refine ⟨fun _ => Quiet.took (refl_of Quiet h), fun _ =>
    ⟨rfl, rfl, rfl, Nat.le_refl _, (by simp), fun a ha => ?_⟩⟩
  cases ha
  exact ⟨rfl, rfl, Nat.dvd_of_mod_eq_zero hn⟩

theorem after_allocateRounds_took : After (allocateRounds n rounds) h (Took h n) := by
  induction rounds generalizing h with
  | zero => exact after_throw
  | succ rounds ih =>
    rw [allocateRounds, after_bind]
    refine after_onSpace_allocate.mono fun r h₁ K => ?_
    cases r with
    | some a => exact after_pure.2 K
    | none =>
      have Q : Quiet h h₁ := ⟨K.settings, K.memory, K.mutators, K.refused rfl, K.high_le⟩
      rw [after_bind, after_get]
      cases h₁.growth? n with
      | none =>
        rw [after_bind]
        exact (quiet_note h₁).mono fun _ h₂ Q' => after_pure.2 (trans_of Quiet Q Q').took
      | some bytes =>
        rw [after_bind]
        refine (quiet_grow h₁).mono fun b h₂ Q' => ?_
        have Q'' := trans_of Quiet Q Q'
        rw [after_ite]
        exact ⟨fun _ => ih.mono fun r h₃ K' => Q''.trans_took K', fun _ => after_pure.2 Q''.took⟩

theorem after_allocateBytes : After (allocateBytes n) h (Took h n) := by
  rw [allocateBytes, after_bind, after_get, after_ite]
  refine ⟨fun _ => ?_, fun _ => ?_⟩
  · rw [after_bind]
    exact (quiet_note h).mono fun _ h₁ Q => after_pure.2 Q.took
  · rw [after_bind]
    refine after_allocateRounds_took.mono fun r h₁ K => ?_
    cases r with
    | none => exact after_pure.2 K
    | some a =>
      rw [after_bind]
      refine (quiet_refreshCounters h₁).mono fun _ h₂ Q => ?_
      rw [after_bind]
      exact (quiet_reportOccupancy h₂).mono fun _ h₃ Q' =>
        after_pure.2 (K.trans_quiet (trans_of Quiet Q Q'))

/-- **An allocation outside of buffers** moves the top. -/
theorem after_allocate_took : After (allocate n) h (Took h n) := by
  rw [allocate, after_bind, after_lift]
  exact fun _ _ => after_allocateBytes

/-- **A buffer** is what the space gives. -/
theorem after_allocateTlab_took (O : h.Supplied) : After (allocateTlab z n) h fun x h' =>
    (x.2 = none → Took h 0 none h') ∧ ∀ a k, x.2 = some (a, k) → n ≤ k ∧ Took h k (some a) h' := by
  rw [allocateTlab, after_bind, after_get, after_bind, after_lift]
  rintro ⟨sizing, size⟩ hnext
  cases size with
  | none => exact after_pure.2 ⟨fun _ => Quiet.took (refl_of Quiet h), (by simp)⟩
  | some size =>
    have hsize := TlabSizing.le_of_next O.maxTlab hnext
    rw [after_bind]
    refine after_allocateBytes.mono fun r h₁ K => ?_
    cases r with
    | none => exact after_pure.2 ⟨fun _ => { K with given := (by simp) }, (by simp)⟩
    | some a =>
      refine after_pure.2 ⟨(by simp), fun b k hb => ?_⟩
      cases hb
      exact ⟨hsize, K⟩

theorem Took.mutator? (K : Took h n r h') (m : Nat) : h'.mutator? m = h.mutator? m := by
  rw [BumpHeap.mutator?, K.mutators]
  rfl

theorem Took.top_le (K : Took h n r h') : h.space.top ≤ h'.space.top := by
  cases r with
  | none => rw [K.refused rfl]
  | some a =>
    have := (K.given a rfl).2.1
    omega

/-- The space is within what is committed when it has given some of it. -/
theorem Took.tidy (K : Took h n r h') (T : h.Tidy) (F : h'.Fit) : h'.Tidy where
  toSupplied := T.toSupplied.of_settings F K.settings
  boundary_le := settings_boundary K.settings ▸ T.boundary_le
  top_aligned := by
    have ht := T.top_aligned
    cases r with
    | none => rwa [K.refused rfl]
    | some a =>
      obtain ⟨-, he, hn⟩ := K.given a rfl
      omega
  buffers hm := by
    refine (T.buffers (K.mutator? _ ▸ hm)).imp_right fun B => ?_
    exact { B with
      low_le := settings_low K.settings ▸ B.low_le
      below := Nat.le_trans B.below K.top_le }
  apart hne hm hm' := T.apart hne (K.mutator? _ ▸ hm) (K.mutator? _ ▸ hm')

theorem Took.gives (K : Took h n r h') : Gives h h' where
  settings := K.settings
  memory := K.memory
  high_le := K.high_le
  fills :=
    { untouched := fun hb => ⟨Nat.le_trans K.top_le hb.1, settings_boundary K.settings ▸ hb.2⟩
      buffers := fun {m c} hc => by
        obtain ⟨t, hm, rfl, hlt⟩ := buffer_eq_some.1 hc
        exact .inl ⟨_, buffer_eq_some.2 ⟨t, K.mutator? m ▸ hm, rfl, hlt⟩, rfl, rfl, Nat.le_refl _⟩
      region := rfl }
  isSome m := by rw [K.mutator?]

/-- **What the space gives was untouched.** -/
theorem Took.fresh (K : Took h n (some a) h') (T : h.Tidy) (F : h'.Fit) (hn : 0 < n) :
    h.arena.Fresh h'.arena a n := by
  obtain ⟨rfl, he, -⟩ := K.given a rfl
  have h1 := F.top_le
  have h2 := F.limit_eq
  have h3 := F.high_le
  have h4 := settings_boundary K.settings
  refine ⟨⟨hn, T.top_aligned, fun _ _ => rfl⟩, fun b h5 h6 => ⟨h5, by omega⟩, fun b h5 h6 hb => ?_,
    fun hc hlt => ?_⟩
  · have := hb.1
    omega
  · obtain ⟨t, hm, rfl, -⟩ := buffer_eq_some.1 hc
    exact .inl (T.buffer (K.mutator? _ ▸ hm) hlt).below

theorem Quiet.tidy (Q : Quiet h h') (T : h.Tidy) (F : h'.Fit) : h'.Tidy :=
  (Q.took (n := 0)).tidy T F

theorem Quiet.gives (Q : Quiet h h') : Gives h h' := (Q.took (n := 0)).gives

end

/-! ## 3. Buffers -/

/-- The heap with a mutator replaced. -/
def setMutator (h : BumpHeap) (m : Nat) (x : Option Mutator) : BumpHeap :=
  { h with core := { h.core with mutators := h.core.mutators.setIfInBounds m x } }

section
variable {g h : BumpHeap} {m k : Nat} {t t' : Mutator} {x : Option Mutator}

theorem mutator?_setMutator (hm : h.mutator? m = some t) :
    (h.setMutator m x).mutator? k = if k = m then x else h.mutator? k := by
  obtain ⟨hlt, -⟩ := Array.getElem?_eq_some_iff.1 (Option.join_eq_some_iff.1 hm)
  rw [mutator?, setMutator, Array.getElem?_setIfInBounds]
  by_cases hk : k = m
  · subst hk
    simp [hlt]
  · rw [if_neg (Ne.symm hk), if_neg hk]
    rfl

/-- A mutator may get a buffer that is apart from those of the others. -/
theorem Tidy.setMutator (T : h.Tidy) (hm : h.mutator? m = some t)
    (hok : ∀ u, x = some u → u.tlab = {} ∨ h.BufferOk u.tlab)
    (hapart : ∀ u k v, x = some u → k ≠ m → h.mutator? k = some v →
      u.tlab.limit ≤ v.tlab.start ∨ v.tlab.limit ≤ u.tlab.start) : (h.setMutator m x).Tidy where
  toSupplied := { T.toSupplied with fit := { T.fit with } }
  boundary_le := T.boundary_le
  top_aligned := T.top_aligned
  buffers {k u} hk := by
    rw [mutator?_setMutator hm] at hk
    split at hk
    · exact (hok u hk).imp_right fun B => { B with }
    · exact (T.buffers hk).imp_right fun B => { B with }
  apart {k k' u u'} hne hk hk' := by
    rw [mutator?_setMutator hm] at hk hk'
    split at hk <;> split at hk'
    · omega
    · exact hapart u k' u' hk ‹_› hk'
    · exact (hapart u' k u hk' ‹_› hk).symm
    · exact T.apart hne hk hk'

/-- A mutator may get a buffer that continues what was free. -/
theorem Gives.setMutator (G : Gives g h) (hm : h.mutator? m = some t)
    (hc : t'.tlab.start < t'.tlab.limit → g.arena.Continues m t'.tlab) :
    Gives g (h.setMutator m (some t')) where
  settings := G.settings
  memory := G.memory
  high_le := G.high_le
  fills := by
    refine ⟨G.fills.untouched, fun {k c} hk => ?_, rfl⟩
    obtain ⟨u, hu, rfl, hlt⟩ := buffer_eq_some.1 hk
    rw [mutator?_setMutator hm] at hu
    split at hu
    · rename_i he
      cases hu
      exact he ▸ hc hlt
    · exact G.fills.buffers (buffer_eq_some.2 ⟨u, hu, rfl, hlt⟩)
  isSome k := by
    rw [mutator?_setMutator hm, ← G.isSome]
    split
    · rename_i he
      rw [he, hm]
      rfl
    · rfl

/-- Nothing changes but how the next buffer is sized. -/
theorem Tidy.setSizing (T : h.Tidy) (hm : h.mutator? m = some t) (ht : t'.tlab = t.tlab) :
    (h.setMutator m (some t')).Tidy := by
  refine T.setMutator hm (fun u hu => ?_) fun u k v hu hk hv => ?_
  · cases hu
    exact ht ▸ T.buffers hm
  · cases hu
    exact ht ▸ T.apart (Ne.symm hk) hm hv

/-- A buffer is given up. -/
theorem Tidy.dropBuffer (T : h.Tidy) (hm : h.mutator? m = some t) (ht : t'.tlab = {}) :
    (h.setMutator m (some t')).Tidy := by
  refine T.setMutator hm (fun u hu => ?_) fun u k v hu hk hv => ?_
  · cases hu
    exact .inl ht
  · cases hu
    exact .inl (ht ▸ Nat.zero_le _)

theorem Gives.continues (G : Gives g h) (hm : h.mutator? m = some t)
    (hlt : t.tlab.start < t.tlab.limit) : g.arena.Continues m t.tlab :=
  G.fills.buffers (buffer_eq_some.2 ⟨t, hm, rfl, hlt⟩)

theorem Gives.setSizing (G : Gives g h) (hm : h.mutator? m = some t) (ht : t'.tlab = t.tlab) :
    Gives g (h.setMutator m (some t')) :=
  G.setMutator hm fun hlt => ht ▸ G.continues hm (ht ▸ hlt)

end

end BumpHeap

/-! ## 4. Mutators -/

namespace Tlab

variable {t : Tlab} {n a k : Nat}

theorem after_allocate : After (allocate n) t fun r b => (r = none ∧ b = t) ∨
    (r = some t.cursor ∧ b = { t with cursor := t.cursor + n } ∧ t.start ≠ 0 ∧
      t.cursor + n ≤ t.limit ∧ 8 ∣ n) := by
  simp only [allocate, after_bind, after_get, after_lift, after_ite, after_pure, after_set,
    require_eq_ok, sum_eq_ok]
  rintro _ hn _ ⟨-, rfl⟩
  refine ⟨fun _ => .inl ⟨trivial, trivial⟩, fun hroom =>
    .inr ⟨trivial, rfl, ?_, ?_, Nat.dvd_of_mod_eq_zero hn⟩⟩
  · simpa [isEmpty] using (not_or.1 hroom).2
  · exact Nat.not_lt.1 (not_or.1 hroom).1

theorem after_reset : After (reset a k) t fun _ b => b = ⟨a, a, a + k⟩ := by
  simp only [reset, after_bind, after_modify, after_lift, sum_eq_ok]
  rintro _ ⟨-, rfl⟩
  rfl

theorem after_retire : After retire t fun _ b => b = {} ∨ b = t ∧ t.start = 0 := by
  simp only [retire, after_bind, after_get, after_ite, after_pure, after_set]
  exact ⟨fun he => .inr ⟨trivial, by simpa [isEmpty] using he⟩, fun _ => .inl trivial⟩

end Tlab

namespace BumpHeap

/-- What a mutator's allocation of `n` bytes may give. -/
structure Obtained (h : BumpHeap) (m n : Nat) (r : Option Nat) (h' : BumpHeap) : Prop where
  tidy : h'.Tidy
  gives : Gives h h'
  serves : ∀ a, r = some a → h.arena.Serves h'.arena m a n

section
variable {g h h' : BumpHeap} {m n : Nat} {r : Option Nat}

theorem Gives.trans_obtained (G : Gives g h) (B : h.Obtained m n r h') : g.Obtained m n r h' :=
  ⟨B.tidy, trans_of Gives G B.gives, fun a ha => (B.serves a ha).of_fills G.fills⟩

theorem Took.obtained (K : Took h n r h') (T : h.Tidy) (F : h'.Fit) (hn : 0 < n) :
    h.Obtained m n r h' :=
  ⟨K.tidy T F, K.gives, fun _ ha => .inl (Took.fresh (ha ▸ K) T F hn)⟩

/-- What the space gives leaves it within what is committed. -/
theorem Tidy.after_allocate (T : h.Tidy) (hn : 0 < n) :
    After (Heap.allocate n) h fun r h' => h.Obtained m n r h' := fun r h' hr =>
  (after_allocate_took r h' hr).obtained T ((keeps_allocate h r h' hr).fit T.fit) hn

end

end BumpHeap

namespace Mutator

open BumpHeap

variable {h h' : BumpHeap} {m n k a : Nat} {t : Mutator}

theorem after_onBuffer {α : Type} {act : Action Tlab α} {post : α → BumpHeap → Prop}
    (hact : ∀ t, h.mutator? m = some t → After act t.tlab fun x b =>
      post x (h.setMutator m (some { t with tlab := b }))) : After (onTlab m act) h post := by
  rw [onTlab, after_bind]
  exact after_getState fun t ht => after_onPart.2 (hact t ht)

/-- **From its buffer** a mutator is given what is left of it. -/
theorem after_cut (T : h.Tidy) (hn : 0 < n) :
    After (onTlab m (Tlab.allocate n)) h fun r h' => h.Obtained m n r h' := by
  refine after_onBuffer fun t hm => Tlab.after_allocate.mono ?_
  rintro r b (⟨rfl, rfl⟩ | ⟨rfl, rfl, h0, hle, h8⟩)
  · exact ⟨T.setSizing hm rfl, (refl_of Gives h).setSizing hm rfl, (by simp)⟩
  have B : h.BufferOk t.tlab := (T.buffers hm).resolve_left fun he => h0 (by rw [he])
  have hlt := B.nonempty
  have hcur := B.start_le
  have hal := B.cursor_aligned
  have hsame : h.arena.buffer m = some t.tlab := buffer_eq_some.2 ⟨t, hm, rfl, hlt⟩
  refine ⟨T.setMutator hm (fun u hu => ?_) fun u k v hu hk hv => ?_,
    (refl_of Gives h).setMutator hm fun _ => .inl ⟨_, hsame, rfl, rfl, Nat.le_add_right _ _⟩,
    fun a ha => .inr ⟨⟨hn, ?_, fun _ _ => rfl⟩, { t.tlab with cursor := t.tlab.cursor + n }, ?_, ?_, ?_,
      hle, .inr ⟨_, hsame, rfl, rfl, ?_⟩⟩⟩
  · cases hu
    exact .inr { B with
      start_le := Nat.le_trans hcur (Nat.le_add_right _ _)
      cursor_le := hle
      cursor_aligned := Nat.dvd_add hal h8 }
  · cases hu
    have hap := T.apart (Ne.symm hk) hm hv
    exact hap
  · cases ha
    exact hal
  · exact buffer_eq_some.2 ⟨{ t with tlab := { t.tlab with cursor := t.tlab.cursor + n } },
      (mutator?_setMutator hm).trans (if_pos rfl), rfl, hlt⟩
  · cases ha
    exact hcur
  · cases ha
    exact Nat.le_refl _
  · cases ha
    exact Nat.le_refl _

/-- A mutator gives up its buffer. -/
theorem after_giveUp (T : h.Tidy) : After (retireTlab m) h fun _ h' =>
    h'.Tidy ∧ Gives h h' ∧ h'.space = h.space ∧
      ∀ t, h'.mutator? m = some t → t.tlab = {} := by
  rw [retireTlab, after_bind]
  refine after_onBuffer fun t hm => Tlab.after_retire.mono fun r b hb => ?_
  -- The buffer at address zero is that of no bytes.
  have hb : b = {} := hb.elim id fun hb =>
    hb.1.trans ((T.buffers hm).resolve_right fun B => by
      have h1 := B.low_le
      have h2 := T.low_pos
      omega)
  subst hb
  have hgone : (h.setMutator m (some { t with tlab := {} })).Tidy ∧
      Gives h (h.setMutator m (some { t with tlab := {} })) ∧
      (h.setMutator m (some { t with tlab := {} })).space = h.space ∧
      ∀ u, (h.setMutator m (some { t with tlab := {} })).mutator? m = some u → u.tlab = {} := by
    refine ⟨T.dropBuffer hm rfl, (refl_of Gives h).setMutator hm fun hlt => absurd hlt
      (Nat.lt_irrefl 0), rfl, fun u hu => ?_⟩
    rw [mutator?_setMutator hm, if_pos rfl] at hu
    cases hu
    rfl
  cases r with
  | none => exact after_pure.2 hgone
  | some b => exact after_pure.2 hgone

/-- **Without the current buffer** a mutator is given the start of a new one, or memory outside of
buffers. -/
theorem after_allocateSlow_obtained (T : h.Tidy) (hn : 0 < n) :
    After (allocateSlow m n) h fun r h' => h.Obtained m n r h' := by
  rw [allocateSlow, after_bind, after_get, after_ite]
  refine ⟨fun _ => T.after_allocate hn, fun _ => ?_⟩
  rw [after_bind]
  refine (after_giveUp T).mono ?_
  rintro _ h₁ ⟨T₁, G₁, hspace, hgone⟩
  rw [after_bind]
  refine after_getState fun t hm₁ => ?_
  have hempty := hgone t hm₁
  rw [after_bind]
  intro x h₂ hx
  obtain ⟨hnone, hsome⟩ := after_allocateTlab_took T₁.toSupplied x h₂ hx
  have F₂ : h₂.Fit := (keeps_allocateTlab h₁ x h₂ hx).fit T₁.fit
  obtain ⟨z, given⟩ := x
  rw [after_bind, setState, Heap.modifyCore, after_modify]
  cases given with
  | none =>
    have K := hnone rfl
    have hm₂ : h₂.mutator? m = some t := (K.mutator? m).trans hm₁
    have G₂ := trans_of Gives G₁ K.gives
    have T₃ : (h₂.setMutator m (some { t with sizing := z })).Tidy := (K.tidy T₁ F₂).setSizing hm₂ rfl
    have G₃ : Gives h (h₂.setMutator m (some { t with sizing := z })) :=
      G₂.setSizing hm₂ rfl
    exact (T₃.after_allocate hn).mono fun r h' B => G₃.trans_obtained B
  | some y =>
    obtain ⟨a, k⟩ := y
    obtain ⟨hk, K⟩ := hsome a k rfl
    obtain ⟨ha, htop, hk8⟩ := K.given a rfl
    have hfree := K.fresh T₁ F₂ (Nat.lt_of_lt_of_le hn hk)
    have hm₂ : h₂.mutator? m = some t := (K.mutator? m).trans hm₁
    have T₂ := K.tidy T₁ F₂
    have T₃ : (h₂.setMutator m (some { t with sizing := z })).Tidy := T₂.setSizing hm₂ rfl
    have G₃ : Gives h (h₂.setMutator m (some { t with sizing := z })) :=
      (trans_of Gives G₁ K.gives).setSizing hm₂ rfl
    rw [after_bind]
    refine after_onBuffer fun u hu => Tlab.after_reset.mono fun _ b hb => ?_
    subst hb
    have T₄ : ((h₂.setMutator m (some { t with sizing := z })).setMutator m
        (some { u with tlab := ⟨a, a, a + k⟩ })).Tidy := by
      refine T₃.setMutator hu (fun v hv => ?_) fun v i w hv hi hw => ?_
      · cases hv
        refine .inr ⟨?_, Nat.le_refl _, Nat.le_add_right _ _, ?_, ?_, ?_, ?_⟩
        · show h₂.range.low ≤ a
          have := T₁.low_le
          rw [settings_low K.settings]
          omega
        · show a < a + k
          omega
        · show a + k ≤ h₂.space.top
          omega
        · exact ha ▸ T₁.top_aligned
        · exact ha ▸ T₁.top_aligned
      · -- The buffers of the others are below what was given.
        cases hv
        rw [mutator?_setMutator hm₂, if_neg hi, K.mutator?] at hw
        refine .inr ?_
        show w.tlab.limit ≤ a
        rcases T₁.buffers hw with he | B
        · rw [he]
          exact Nat.zero_le _
        · exact ha ▸ B.below
    refine (after_cut T₄ hn).mono fun r h' B => Gives.trans_obtained ?_ B
    exact G₃.setMutator hu fun _ => .inr fun b h1 h2 =>
      G₁.fills.untouched (hfree.unused b h1 h2)

/-- **A mutator is given what was free**, and nothing else happens to memory. -/
theorem after_allocate_obtained (T : h.Tidy) : After (allocate m k) h fun r h' =>
    h.Obtained m (roundedSize k) r h' ∧ (r ≠ none → k ≤ Object.maxSize) := by
  rw [allocate, after_ite]
  refine ⟨fun _ => after_pure.2 ⟨⟨T, refl_of Gives h, (by simp)⟩, (by simp)⟩, fun hle => ?_⟩
  have hk : k ≤ Object.maxSize := Nat.le_of_not_lt hle
  have hpos : 0 < roundedSize k := by
    have := roundedSize_eq hk
    omega
  rw [after_bind]
  refine (after_cut T hpos).mono fun r h₁ B => ?_
  cases r with
  | some a => exact after_pure.2 ⟨B, fun _ => hk⟩
  | none =>
    exact (after_allocateSlow_obtained B.tidy hpos).mono fun r h₂ B' =>
      ⟨B.gives.trans_obtained B', fun _ => hk⟩

end Mutator

end ManagedHeap
