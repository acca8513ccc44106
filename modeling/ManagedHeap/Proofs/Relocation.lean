/-
# The relocating half of a cycle

The live objects of the chosen regions are copied, and then roots and fields are made to refer to
the copies.  The world tells of each object where its newest copy is, so that the steps change what
is known about it and the ideal heap not at all.

* Section 1: what a region lists as its objects.
* Section 2: after the evacuation every object of a region that is relocated is settled.
* Section 3: after the update no root and no field of a live object is stale.  Fields of objects
  that are not live are left as they were (`Updated.other`).
-/
import ManagedHeap.Proofs.Cycle

namespace ManagedHeap

/-! ## 1. The objects of a region -/

namespace RegionHeap

open HeapView

section
variable {h : RegionHeap} {i : Nat}

/-- The objects of a region. -/
theorem objects_eq (L : h.view.Layout) (i : Nat) :
    ∃ l, (h.regionAt i).objects = .ok l ∧
      ∀ o, o ∈ l ↔ h.view.Published o ∧ h.view.index o = i := by
  have hr := L.regions i
  obtain ⟨l, hl, hmem⟩ := hr.starts.between_eq (b := (h.view.region i).top)
  refine ⟨l, hl, fun o => (hmem o).trans ⟨?_, ?_⟩⟩
  · rintro ⟨ho, -⟩
    have hb := hr.starts.has_bounds ho
    rw [hr.bottom_eq] at hb
    have he : h.view.index o = i := index_eq hb.1 hb.2
    exact ⟨show (h.view.region (h.view.index o)).starts.Has o from he.symm ▸ ho, he⟩
  · rintro ⟨hp, rfl⟩
    exact ⟨hp, (L.bounds hp).lt_top⟩

/-- Whether an object is live can be told. -/
theorem isLive_eq {o : Nat} (L : h.view.Layout) (hp : h.view.Published o) :
    ∃ b, (h.regionAt (h.view.index o)).isLive o = .ok b ∧ (b = true ↔ h.view.Live o) := by
  have hB := L.bounds hp
  have hsize : (h.regionAt (h.view.index o)).space.limit -
      (h.regionAt (h.view.index o)).space.bottom = h.view.regionSize := by
    show (h.view.region _).limit - (h.view.region _).bottom = _
    rw [(L.regions _).limit_eq]
    omega
  exact Region.isLive_eq (by rw [hsize]; exact (L.regions _).marks) hB.bottom_le hB.lt_limit
    hB.aligned (by rw [hsize]; exact L.geometry.size_aligned)

/-- The live ones of some objects of a region. -/
theorem liveAmong_eq (L : h.view.Layout) {l : List Nat}
    (hl : ∀ o ∈ l, h.view.Published o ∧ h.view.index o = i) :
    ∃ l', (h.regionAt i).liveAmong l = .ok l' ∧ ∀ o, o ∈ l' ↔ o ∈ l ∧ h.view.Live o := by
  induction l with
  | nil => exact ⟨[], rfl, by simp⟩
  | cons o rest ih =>
    obtain ⟨l', hl', hmem⟩ := ih fun p hp => hl p (List.mem_cons_of_mem _ hp)
    obtain ⟨hp, rfl⟩ := hl o List.mem_cons_self
    obtain ⟨b, hb, hlive⟩ := isLive_eq L hp
    refine ⟨if b then o :: l' else l', ?_, fun p => ?_⟩
    · exact Except.bind_eq_ok.2 ⟨b, hb, Except.bind_eq_ok.2 ⟨l', hl', rfl⟩⟩
    · by_cases hb' : b = true
      · rw [if_pos hb', List.mem_cons, hmem, List.mem_cons]
        constructor
        · rintro (rfl | ⟨h1, h2⟩)
          · exact ⟨.inl rfl, hlive.1 hb'⟩
          · exact ⟨.inr h1, h2⟩
        · rintro ⟨rfl | h1, h2⟩
          · exact .inl rfl
          · exact .inr ⟨h1, h2⟩
      · rw [if_neg hb', hmem, List.mem_cons]
        refine ⟨And.imp_left .inr, ?_⟩
        rintro ⟨rfl | h1, h2⟩
        · exact absurd (hlive.2 h2) hb'
        · exact ⟨h1, h2⟩

/-- **The live objects of a region.** -/
theorem liveObjects_eq (L : h.view.Layout) (i : Nat) :
    ∃ l, (h.regionAt i).liveObjects = .ok l ∧
      ∀ o, o ∈ l ↔ (h.view.Published o ∧ h.view.index o = i) ∧ h.view.Live o := by
  obtain ⟨all, hall, hmem⟩ := objects_eq L i
  obtain ⟨l, hl, hmem'⟩ := liveAmong_eq L fun o ho => (hmem o).1 ho
  exact ⟨l, Except.bind_eq_ok.2 ⟨all, hall, hl⟩, fun o => by rw [hmem', hmem]⟩

end

end RegionHeap

/-! ## 2. Evacuation -/

namespace HeapView

section
variable {V : HeapView} {W : World} {o : Nat}

/-- Everything that is to be moved was. -/
theorem Faithful.toCopied (F : V.Faithful W .chosen) (h : ∀ o, ¬ V.Unsettled W o) :
    V.Faithful W .copied :=
  { F with
    fields := fun ho hi => (F.fields ho hi).imp_left fun h => h.restage fun _ => rfl
    roots := fun hc hl => (F.roots hc hl).imp_left fun h => h.restage fun _ => rfl
    states := fun i => ⟨(F.states i).1, fun h => by cases h⟩
    survivors := fun _ => F.survivors (by decide)
    live := fun _ => F.live rfl
    copied := fun _ {o} ho hr => by
      rcases F.status (F.published ho) with h0 | ⟨-, -, -, hs⟩ | ⟨c, hm⟩
      · exact absurd ⟨ho, hr, h0⟩ (h o)
      · exact hs
      · exact absurd hm (F.not_moved ho)
    unrecorded := fun _ => F.unrecorded (by simp) }

/-- What the fourth step of a cycle has done. -/
structure Evacuated (V : HeapView) (W : World) (V' : HeapView) (W' : World) : Prop where
  inv : V'.Inv W' .copied []
  inStage : V'.InStage .copied
  stepped : Stepped V V'
  refers : ∀ {v}, V.Refers W v → V'.Refers W' v ∧ W'.name v = W.name v
  current : ∀ {v}, V.Current W v → V'.Current W' v
  fresh : ∀ {o}, V'.Published o → V.Published o ∨ V'.Refers W' o
  born : ∀ {o}, o ∈ W'.objects → ∃ p ∈ W.objects, W.name p = W'.name o
  relocating : ∀ {o}, V.Published o → (V'.Relocating o ↔ V.Relocating o)
  index : ∀ a, V'.index a = V.index a
  ideal : W'.ideal = W.ideal
  loose : W'.loose = W.loose

end

end HeapView

namespace RegionHeap

open HeapView

section
variable {h : RegionHeap} {W : World} {i : Nat}

/-- **A region is evacuated**: none of its objects is left to be moved. -/
theorem ends_evacuateRegion (I : h.view.Inv W .chosen []) (hi : i < h.view.maxRegions) :
    Ends (evacuateRegion i) h fun _ h' => Roomy h h' ∧
      ∃ W', h.view.Transparent W h'.view W' .chosen [] ∧
        ∀ p, h'.view.Unsettled W' p → h'.view.index p ≠ i := by
  simp only [evacuateRegion, ends_bind]
  rw [ends_getRegion hi, ends_ite]
  refine ⟨fun hrel => ?_, fun hrel => ?_⟩
  · obtain ⟨l, hl, hmem⟩ := liveObjects_eq I.layout i
    simp only [hl, ends_bind, ends_lift]
    refine ⟨l, rfl, (ends_each (fun done _ (h' : RegionHeap) => Roomy h h' ∧ ∃ W',
      h.view.Transparent W h'.view W' .chosen [] ∧
        ∀ p, h'.view.Unsettled W' p → h'.view.index p = i → p ∉ done)
      ⟨.refl h, W, Transparent.refl I, fun _ _ _ => List.not_mem_nil⟩
      ?_).mono ?_⟩
    · rintro done o rest h' hsplit ⟨N, W', T, hdone⟩
      obtain ⟨⟨hp, rfl⟩, hlive⟩ := (hmem o).1 (hsplit ▸ List.mem_append_right _ List.mem_cons_self)
      have hrefers := (T.evolves.refers (I.faithful.survivors (by decide) hp hlive)).1
      have hrel' : h'.view.Relocating o := (T.evolves.relocating hp).2 hrel
      rw [ends_bind]
      refine (ends_evacuateObject T.inv hrefers hrel').mono ?_
      rintro _ h'' ⟨N', W'', R, hset⟩
      refine ends_pure.2 ⟨N.trans N', W'', T.trans R.toTransparent I, fun p hu hx hd => ?_⟩
      rcases List.mem_append.1 hd with hd | hd
      · exact hdone p (R.unsettled hu) ((R.evolves.index p).symm.trans hx) hd
      · obtain rfl := List.mem_singleton.1 hd
        exact hset hu
    · rintro _ h' ⟨N, W', T, hdone⟩
      refine ⟨N, W', T, fun p hu hx => hdone p hu hx ?_⟩
      obtain ⟨hm, hr, -⟩ := T.unsettled hu
      exact (hmem p).2 ⟨⟨I.faithful.published hm, (T.evolves.index p).symm.trans hx⟩,
        I.faithful.live rfl hm hr⟩
  · rw [ends_pure]
    refine ⟨.refl h, W, Transparent.refl I, fun p hu hx => hrel ?_⟩
    subst hx
    exact hu.2.1

theorem keeps_failures_note {e : Event} : Keeps SameFailures (note e) := keeps_modify fun _ => rfl

theorem keeps_failures_synchronize {α : Type} {act : Action RegionHeap α}
    (hact : Keeps SameFailures act) : Keeps SameFailures (synchronize act) := by
  have hjoin {act : Action Safepoint Unit} : Keeps SameFailures
      (act.onPart RegionHeap.safepoint fun safepoint h => { h with safepoint }) :=
    keeps_onPart fun _ _ => rfl
  exact hjoin.bind fun _ => hact.bind fun _ => hjoin.bind fun _ => keeps_pure

theorem keeps_failures_setGcState {g : GcState} : Keeps SameFailures (setGcState g) :=
  keeps_modify fun _ => rfl

/-- **The fourth step of a cycle** settles every object that is to be moved. -/
theorem ends_evacuate (I : h.view.Inv W .chosen []) (hs : h.view.InStage .chosen)
    (hj : h.view.joined = 0) :
    Ends evacuate h fun _ h' => Roomy h h' ∧ ∃ W', h.view.Evacuated W h'.view W' := by
  rw [evacuate, ends_inPhase (p := .concurrentRelocate) hs rfl, ends_bind]
  refine (ends_eachRegion (fun k h' => Roomy h h' ∧ ∃ W',
    h.view.Transparent W h'.view W' .chosen [] ∧
      ∀ p, h'.view.Unsettled W' p → k ≤ h'.view.index p)
    ⟨.refl h, W, Transparent.refl I, fun _ _ => Nat.zero_le _⟩
    ?_).mono ?_
  · rintro k h' hk ⟨N, W', T, hleft⟩
    have hmax : k < h'.view.maxRegions := by
      rw [T.maxRegions]
      exact Nat.lt_of_lt_of_le hk I.layout.geometry.committed_le
    refine (ends_evacuateRegion T.inv hmax).mono ?_
    rintro _ h'' ⟨N', W'', T', hne⟩
    refine ⟨N.trans N', W'', T.trans T' I, fun p hu => ?_⟩
    have h1 := hleft p (T'.unsettled hu)
    have h2 := hne p hu
    rw [T'.evolves.index] at h2 ⊢
    omega
  · rintro _ h₁ ⟨N, W₁, T, hleft⟩
    -- All regions were visited that have objects.
    have hset (p : Nat) : ¬ h₁.view.Unsettled W₁ p := fun hu => by
      have h1 := hleft p hu
      have h2 := (I.layout.bounds (I.faithful.published (T.unsettled hu).1)).committed
      rw [T.evolves.index] at h1
      omega
    have I₁ : h₁.view.Inv W₁ .copied [] :=
      ⟨T.inv.layout, T.inv.faithful.toCopied hset, fun h => by cases h⟩
    -- Only the flags are set.
    have hset : Ends (do
        synchronize (setGcState .duringUpdate)
        let h ← get
        note (.evacuationDone h.cycleStats.evacuatedBytes)) h₁ fun _ h₂ =>
        h₂.view = { h₁.view with gcState := .duringUpdate, pending := false } := by
      rw [ends_bind, ends_synchronize (T.joined.trans hj)]
      simp only [setGcState, ends_modify, ends_bind, ends_get]
      exact ends_note fun h₂ hv => hv
    refine (hset.and_after ((keeps_failures_synchronize keeps_failures_setGcState).bind
      (fun _ => keeps_get.bind fun _ => keeps_failures_note) h₁)).mono ?_
    rintro _ h₂ ⟨hv₂, hf⟩
    have N₂ : Roomy h₁ h₂ := hf.roomy fun i => by rw [hv₂]
    refine ⟨N.trans N₂, W₁, ?_⟩
    have S : SameObjects h₁.view { h₁.view with gcState := .duringUpdate, pending := false } :=
      SameObjects.of_eq rfl rfl rfl rfl
    have F₁ := T.inv.faithful
    have hrefers {v : Nat} (hr : h₁.view.Refers W₁ v) := hr.same S.1 F₁.published rfl rfl
    have hph : h₁.view.phase = .concurrentRelocate := T.evolves.phase.trans hs.2
    rw [hv₂]
    have F : h.view.Fills { h₁.view with gcState := .duringUpdate, pending := false } :=
      { T.evolves.fills with }
    refine ⟨I₁.setControl, ⟨rfl, hph⟩, ⟨⟨T.evolves.options, T.mutators, T.joined, fun _ => rfl,
      fun hc _ => ?_, T.evolves.counted, F.balanced⟩,
      ⟨F, T.evolves.published, { T.evolves.copies with }, T.evolves.sizes⟩,
      fun X => { T.evolves.tallied X with }⟩,
      fun hr => ⟨hrefers (T.evolves.refers hr).1, T.evolves.name hr⟩,
      fun hc => (T.evolves.current hc).same S.1 F₁.published rfl,
      fun hp => (T.evolves.fresh hp).imp_right hrefers, fun ho => ?_, T.evolves.relocating,
      T.evolves.index, T.ideal, T.evolves.loose⟩
    · rw [T.roots]
      exact hc
    · refine (T.evolves.born ho).resolve_right fun hle => ?_
      have hlt := F₁.name_lt ho
      rw [T.ideal] at hlt
      omega

end

end RegionHeap

/-! ## 3. The update of references -/

namespace HeapView

/-- The slots in `S` were updated, and no other memory was written. -/
structure Updated (V : HeapView) (W : World) (V' : HeapView) (S : Set Nat) : Prop where
  inv : V'.Inv W .copied []
  evolves : V.Evolves W V' W
  frame : V' = { V with memory := V'.memory }
  other : ∀ {b}, b ∉ S → V'.memory.read b = V.memory.read b
  clean : ∀ {b}, b ∈ S → V'.Clean W (V'.memory.read b)

/-- The fields of the live objects of the regions below an index. -/
def liveFields (V : HeapView) (W : World) (k : Nat) : Set Nat :=
  { a | ∃ o ∈ W.objects, V.Live o ∧ V.index o < k ∧
    ∃ i < Object.refCount V.memory o, a = Object.field o i }

/-- The slots of the roots. -/
def rootSlots (V : HeapView) : Set Nat := { a | ∃ c ∈ V.roots.cells, c.live = true ∧ c.slot = a }

section
variable {V V' V'' : HeapView} {W : World} {S T : Set Nat} {o v : Nat}

theorem Updated.refl (I : V.Inv W .copied []) : V.Updated W V ∅ :=
  ⟨I, Evolves.refl V W, rfl, fun _ => rfl, fun h => absurd h (Set.notMem_empty _)⟩

theorem Updated.trans (h : V.Updated W V' S) (h' : V'.Updated W V'' T) :
    V.Updated W V'' (S ∪ T) where
  inv := h'.inv
  evolves := h.evolves.trans h'.evolves
  frame := by rw [h'.frame, h.frame]
  other hb := (h'.other fun hT => hb (.inr hT)).trans (h.other fun hS => hb (.inl hS))
  clean {b} hb := by
    by_cases hT : b ∈ T
    · exact h'.clean hT
    · rw [h'.other hT]
      exact h'.evolves.clean (h.clean (hb.resolve_right hT))

theorem Updated.congr (h : V.Updated W V' S) (he : ∀ b, b ∈ T ↔ b ∈ S) : V.Updated W V' T :=
  (Set.ext he : T = S) ▸ h

/-- Once everything was moved, every object is current. -/
theorem Faithful.current_of_mem (F : V.Faithful W .copied) (h : o ∈ W.objects) : V.Current W o :=
  ⟨h, F.copied (.inl rfl) h⟩

theorem Updated.refCount (h : V.Updated W V' S) (F : V.Faithful W .copied) (ho : o ∈ W.objects) :
    Object.refCount V'.memory o = Object.refCount V.memory o := by
  rw [h.inv.faithful.refs ho, F.refs ho]

/-- Roots that were dropped may be forgotten. -/
theorem Inv.prune {st : Stage} {ts : List MarkTask} (I : V.Inv W st ts) :
    ({ V with roots := V.roots.prune }).Inv W st ts :=
  (I.setRoots (r := V.roots.prune) (J := W.ideal)
    (fun c hc => I.layout.roots c (List.mem_filter.1 hc).1) rfl
    (fun hc hl => I.faithful.roots (List.mem_filter.1 hc).1 hl) I.faithful.registered).1

theorem rootSlots_prune : ({ V with roots := V.roots.prune }).rootSlots = V.rootSlots := by
  ext a
  constructor
  · rintro ⟨c, hc, h⟩
    exact ⟨c, (List.mem_filter.1 hc).1, h⟩
  · rintro ⟨c, hc, hl, h⟩
    exact ⟨c, List.mem_filter.2 ⟨hc, hl⟩, hl, h⟩

/-- An update is a step that moves nothing. -/
theorem Updated.stepped (h : ({ V with roots := V.roots.prune }).Updated W V' S) :
    Stepped V V' where
  options := by rw [h.frame]
  mutators := by rw [h.frame]
  joined := by rw [h.frame]
  pending := by
    rw [h.frame]
    exact id
  handles := by
    rw [h.frame]
    exact fun hc hl => List.mem_filter.2 ⟨hc, hl⟩
  counted := h.evolves.counted
  balanced := h.evolves.fills.balanced
  grants := by
    have hg : V.Grants { V with roots := V.roots.prune } :=
      .of_space { SameSpace.refl V with } (fun _ => Iff.rfl) rfl
    exact hg.trans h.evolves.grants
  tallied X := h.evolves.tallied { X with }

/-- When the roots and the fields of all live objects were updated, nothing stale is left but what
was stored into objects that are not live. -/
theorem Updated.toUpdated (h : V.Updated W V' (V.rootSlots ∪ V.liveFields W V.committed))
    (F : V.Faithful W .copied) (L : V.Layout) : V'.Faithful W .updated := by
  have F' := h.inv.faithful
  have hpub {o : Nat} (ho : o ∈ W.objects) : V.Published o := F.published ho
  have hlive {o : Nat} : V'.Live o ↔ V.Live o := by
    rw [h.frame]
    rfl
  refine { F' with
    fields := fun {o i} ho hi => ?_
    roots := fun {c} hc hl => ?_
    states := fun i => ⟨(F'.states i).1, fun h => by cases h⟩
    survivors := fun _ => F'.survivors (by decide)
    live := fun _ => F'.live rfl
    copied := fun _ => F'.copied (.inl rfl)
    unrecorded := fun _ => F'.unrecorded (by simp) }
  · obtain ⟨h1, h2⟩ := F'.fields ho hi
    refine ⟨?_, h2⟩
    rcases h1 with h1 | h1 | ⟨h1, ⟨-, hl⟩ | hl⟩
    · exact .inl h1
    · exact .inr (.inl h1)
    · refine (h.clean (.inr ⟨o, ho, hlive.1 hl, ?_, i, ?_, rfl⟩)).imp_right .inl
      · exact (L.bounds (hpub ho)).committed
      · rwa [h.refCount F ho] at hi
    · exact .inr (.inr ⟨h1, .inr hl⟩)
  · refine ⟨(h.clean (.inl ⟨c, ?_, hl, rfl⟩)).imp_right .inl, (F'.roots hc hl).2⟩
    rw [h.frame] at hc
    exact hc

end

end HeapView

namespace RegionHeap

open HeapView

section
variable {h : RegionHeap} {W : World} {a o i : Nat}

/-- **A slot is updated** to the current copy of its object. -/
theorem ends_updateSlot (I : h.view.Inv W .copied []) (ha : h.view.IsSlot W a) :
    Ends (updateSlot a) h fun _ h' => h.view.Updated W h'.view {a} := by
  have F := I.faithful
  have hsame (hc : h.view.Clean W (h.view.memory.read a)) : h.view.Updated W h.view {a} :=
    ⟨I, Evolves.refl _ _, rfl, fun _ => rfl, fun hb => Set.mem_singleton_iff.1 hb ▸ hc⟩
  simp only [updateSlot, ends_bind, ends_loadSlot, ends_ite, ends_getMemory, ends_pure]
  refine ⟨fun hv => ?_, fun h0 => hsame (.inl (Decidable.not_not.1 h0))⟩
  have hrefers := (I.slot_refers ha).resolve_left hv
  rcases F.forwardee I.layout hrefers with ⟨-, hnone, hm⟩ | ⟨c, -, hsome, hcur, hname⟩
  · rw [show Object.forwardee? (HasMemory.memory h) ((HasMemory.memory h).read a) = none from hnone]
    exact ends_pure.2 (hsame (.inr (F.current_of_mem hm)))
  · rw [show Object.forwardee? (HasMemory.memory h) ((HasMemory.memory h).read a) = some c
      from hsome]
    simp only [ends_ite, ends_pure, ends_bind, ends_exchangeSlot, true_implies]
    refine ⟨fun _ => ⟨?_, fun hne => absurd rfl hne⟩, fun he => ?_⟩
    · have T := Transparent.heal I (by simp) (I.hasSlot ha) hcur hname
      refine ⟨T.inv, T.evolves, rfl, fun hb => ?_, fun hb => ?_⟩
      · exact Memory.read_write_of_ne _ (fun e => hb (Set.mem_singleton_iff.2 e.symm)) _
      · obtain rfl := Set.mem_singleton_iff.1 hb
        show Clean _ _ ((h.view.memory.write _ c).read _)
        rw [Memory.read_write_self]
        exact .inr (T.evolves.current hcur)
    · have he' : c = h.view.memory.read a := Decidable.not_not.1 he
      exact hsame (.inr (he' ▸ hcur))

/-- The fields of an object are updated. -/
theorem ends_updateFields (I : h.view.Inv W .copied []) (ho : o ∈ W.objects) :
    Ends (Object.eachSlot (HasMemory.memory (σ := RegionHeap)) o updateSlot) h fun _ h' =>
      h.view.Updated W h'.view
        { a | ∃ i < Object.refCount h.view.memory o, a = Object.field o i } := by
  refine Object.ends_eachSlot
    (fun k (h' : RegionHeap) => h.view.Updated W h'.view { a | ∃ i < k, a = Object.field o i })
    (I.layout.bounds (I.faithful.published ho)).aligned
    ((Updated.refl I).congr fun b => by simp) (fun k h' U => U.refCount I.faithful ho)
    fun k h' hk U => ?_
  have hcur := U.inv.faithful.current_of_mem ho
  have hslot : h'.view.IsSlot W (Object.field o k) :=
    .inl ⟨o, k, hcur, by rw [U.refCount I.faithful ho]; exact hk, rfl⟩
  refine (ends_updateSlot U.inv hslot).mono fun _ h'' U' => (U.trans U').congr fun b => ?_
  simp only [Set.mem_ofPred_eq, Set.mem_union, Set.mem_singleton_iff]
  constructor
  · rintro ⟨i, hi, rfl⟩
    rcases Nat.lt_succ_iff_lt_or_eq.1 hi with hi | rfl
    · exact .inl ⟨i, hi, rfl⟩
    · exact .inr rfl
  · rintro (⟨i, hi, rfl⟩ | rfl)
    · exact ⟨i, Nat.lt_succ_of_lt hi, rfl⟩
    · exact ⟨k, Nat.lt_succ_self k, rfl⟩

/-- A live object of a region is one of the program, and is updated, or was moved, and is
skipped. -/
theorem ends_updateObject {kept : Bool} (I : h.view.Inv W .copied []) (hr : h.view.Refers W o)
    (hk : kept = true ↔ h.view.Relocating o) :
    Ends (updateObject kept o) h fun _ h' => h.view.Updated W h'.view
      { a | o ∈ W.objects ∧ ∃ i < Object.refCount h.view.memory o, a = Object.field o i } := by
  have F := I.faithful
  simp only [updateObject, ends_bind, ends_getMemory]
  by_cases ho : o ∈ W.objects
  · have hskip : ¬ ((kept && !Object.isSelfForwarded (HasMemory.memory h) o
        && Object.isForwarded (HasMemory.memory h) o) = true) := by
      by_cases hrel : h.view.Relocating o
      · have hself : Object.isSelfForwarded (HasMemory.memory h) o = true := by
          rw [Object.isSelfForwarded, show Object.forwardee? (HasMemory.memory h) o = some o from
            Object.forwardee?_of_tagged (F.copied (.inl rfl) ho hrel)
              (I.layout.bounds (F.published ho)).aligned]
          simp
        simp [hself]
      · simp [Bool.eq_false_iff.2 (mt hk.1 hrel)]
    rw [if_neg hskip]
    exact (ends_updateFields I ho).mono fun _ h' U => U.congr fun b => by simp [ho]
  · obtain ⟨c, hm⟩ := hr.resolve_left ho
    have hfwd : Object.forwardee? (HasMemory.memory h) o = some c :=
      Object.forwardee?_of_tagged hm.status (I.layout.bounds (F.published hm.mem)).aligned
    have hne : c ≠ o := fun he => hm.settled (he ▸ hm.relocating)
    have hself : Object.isSelfForwarded (HasMemory.memory h) o = false := by
      rw [Object.isSelfForwarded, hfwd]
      simpa using hne
    have hforwarded : Object.isForwarded (HasMemory.memory h) o = true := by
      unfold Object.forwardee? at hfwd
      split at hfwd
      · assumption
      · cases hfwd
    have hskip : (kept && !Object.isSelfForwarded (HasMemory.memory h) o
        && Object.isForwarded (HasMemory.memory h) o) = true := by
      simp [hk.2 hm.relocating, hself, hforwarded]
    rw [if_pos hskip, ends_pure]
    exact (Updated.refl I).congr fun b => by simp [ho]

/-- **A region is updated**: the fields of its live objects are. -/
theorem ends_updateRegion (I : h.view.Inv W .copied []) (hi : i < h.view.maxRegions) :
    Ends (updateRegion i) h fun _ h' => h.view.Updated W h'.view
      { a | ∃ o ∈ W.objects, h.view.Live o ∧ h.view.index o = i ∧
        ∃ k < Object.refCount h.view.memory o, a = Object.field o k } := by
  have F := I.faithful
  simp only [updateRegion, ends_bind]
  rw [ends_getRegion hi]
  simp only [ends_ite, ends_pure]
  refine ⟨fun hskip => (Updated.refl I).congr fun b => ?_, fun _ => ?_⟩
  · -- An object of the program would be in use, and kept if it is to be moved.
    simp only [Set.mem_ofPred_eq, Set.mem_empty_iff_false, iff_false]
    rintro ⟨o, ho, -, rfl, -⟩
    have hB := I.layout.bounds (F.published ho)
    have hstate : (h.regionAt (h.view.index o)).state = (h.view.regionOf o).state := rfl
    have hkept : (h.regionAt (h.view.index o)).evacFailed = (h.view.regionOf o).evacFailed := rfl
    simp only [Region.isEmpty, hstate, hkept, Bool.or_eq_true, beq_iff_eq, Bool.and_eq_true,
      Bool.not_eq_true'] at hskip
    rcases hskip with hskip | ⟨hrel, hfail⟩
    · exact hB.state hskip
    · have hs := F.copied (.inl rfl) ho hrel
      rcases F.status (F.published ho) with h0 | ⟨-, hk, -, -⟩ | ⟨c, hm⟩
      · rw [hs] at h0
        exact Object.tagged_ne_zero h0
      · rw [Kept, hfail] at hk
        cases hk
      · exact F.not_moved ho hm
  · obtain ⟨l, hl, hmem⟩ := liveObjects_eq I.layout i
    simp only [hl, ends_bind, ends_lift]
    refine ⟨l, rfl, (ends_each (fun done _ (h' : RegionHeap) => h.view.Updated W h'.view
      { a | ∃ o ∈ done, o ∈ W.objects ∧ ∃ k < Object.refCount h.view.memory o,
        a = Object.field o k }) ((Updated.refl I).congr fun b => by simp)
      fun done o rest h' hsplit U => ?_).mono fun _ h' U => U.congr fun b => ?_⟩
    · obtain ⟨⟨hp, rfl⟩, hlive⟩ := (hmem o).1 (hsplit ▸ List.mem_append_right _ List.mem_cons_self)
      have hr : h'.view.Refers W o := (U.evolves.refers (F.survivors (by decide) hp hlive)).1
      have hrel : ((h.regionAt (h.view.index o)).state == .relocating) = true ↔
          h'.view.Relocating o := beq_iff_eq.trans (U.evolves.relocating hp).symm
      refine (ends_updateObject U.inv hr hrel).mono fun _ h'' U' => (U.trans U').congr fun b => ?_
      simp only [Set.mem_ofPred_eq, Set.mem_union, List.mem_append, List.mem_singleton]
      constructor
      · rintro ⟨p, hp | rfl, hpm, hf⟩
        · exact .inl ⟨p, hp, hpm, hf⟩
        · exact .inr ⟨hpm, by rwa [U.refCount F hpm]⟩
      · rintro (⟨p, hp, hpm, hf⟩ | ⟨hpm, hf⟩)
        · exact ⟨p, .inl hp, hpm, hf⟩
        · exact ⟨o, .inr rfl, hpm, by rwa [U.refCount F hpm] at hf⟩
    · simp only [Set.mem_ofPred_eq, hmem]
      constructor
      · rintro ⟨o, ho, hlive, hidx, hf⟩
        exact ⟨o, ⟨⟨F.published ho, hidx⟩, hlive⟩, ho, hf⟩
      · rintro ⟨o, ⟨⟨-, hidx⟩, hlive⟩, ho, hf⟩
        exact ⟨o, ho, hlive, hidx, hf⟩

/-- The roots and the fields of all live objects are updated. -/
theorem ends_updateSlots (I : h.view.Inv W .copied []) (hs : h.view.InStage .copied) :
    Ends updateRefs h fun _ h' =>
      ({ h.view with roots := h.view.roots.prune }).Updated W h'.view
        (h.view.rootSlots ∪ h.view.liveFields W h.view.committed) := by
  rw [updateRefs, ends_inPhase (p := .concurrentRelocate) hs rfl, ends_bind, ends_scanRoots]
  let h₀ : RegionHeap := { h with core := { h.core with roots := h.core.roots.prune } }
  have I₀ : h₀.view.Inv W .copied [] := I.prune
  have hslots {a : Nat} : a ∈ h.view.roots.slots ↔ ∃ c ∈ h₀.view.roots.cells, c.live = true ∧
      c.slot = a := by
    simp only [RootSet.slots, List.mem_map]
    constructor
    · rintro ⟨c, hc, rfl⟩
      exact ⟨c, hc, (List.mem_filter.1 hc).2, rfl⟩
    · rintro ⟨c, hc, -, rfl⟩
      exact ⟨c, hc, rfl⟩
  rw [ends_bind]
  refine (ends_each (s := h₀) (fun done _ (h' : RegionHeap) =>
    h₀.view.Updated W h'.view { a | a ∈ done }) ((Updated.refl I₀).congr fun b => by simp)
    fun done a rest h' hsplit U => ?_).mono fun _ h₁ U₁ => ?_
  · obtain ⟨c, hc, hl, he⟩ := hslots.1 (hsplit ▸ List.mem_append_right _ List.mem_cons_self :
      a ∈ h.view.roots.slots)
    have hslot : h'.view.IsSlot W a := by
      rw [U.frame]
      exact .inr ⟨c, hc, hl, he⟩
    refine (ends_updateSlot U.inv hslot).mono fun _ h'' U' => (U.trans U').congr fun b => ?_
    simp [or_comm]
  · have hcom : h₁.view.committed = h.view.committed := by
      rw [U₁.frame]
      rfl
    rw [← hcom]
    refine (ends_eachRegion (fun k h' => h₀.view.Updated W h'.view
      (h.view.rootSlots ∪ h.view.liveFields W k)) (U₁.congr fun b => ?_)
      fun k h' hk U => ?_)
    · simp only [Set.mem_union, Set.mem_ofPred_eq, hslots, rootSlots, liveFields, Nat.not_lt_zero,
        false_and, and_false, exists_false, or_false]
      constructor
      · rintro ⟨c, hc, hl, he⟩
        exact ⟨c, List.mem_filter.2 ⟨hc, hl⟩, hl, he⟩
      · rintro ⟨c, hc, hl, he⟩
        exact ⟨c, (List.mem_filter.1 hc).1, hl, he⟩
    · have hmax : k < h'.view.maxRegions := by
        rw [U.frame]
        rw [hcom] at hk
        exact Nat.lt_of_lt_of_le hk I.layout.geometry.committed_le
      refine (ends_updateRegion U.inv hmax).mono fun _ h'' U' => (U.trans U').congr fun b => ?_
      have hlive {o : Nat} : h'.view.Live o ↔ h.view.Live o := by
        rw [U.frame]
        rfl
      have hidx (o : Nat) : h'.view.index o = h.view.index o := U.evolves.index o
      have hcount {o : Nat} (ho : o ∈ W.objects) :
          Object.refCount h'.view.memory o = Object.refCount h.view.memory o :=
        U.refCount I₀.faithful ho
      simp only [liveFields, Set.mem_union, Set.mem_ofPred_eq, or_assoc, hlive, hidx]
      refine or_congr_right ⟨?_, ?_⟩
      · rintro ⟨o, ho, hl, hlt, i, hi, rfl⟩
        rcases Nat.lt_succ_iff_lt_or_eq.1 hlt with hlt | hlt
        · exact .inl ⟨o, ho, hl, hlt, i, hi, rfl⟩
        · exact .inr ⟨o, ho, hl, hlt, i, by rwa [hcount ho], rfl⟩
      · rintro (⟨o, ho, hl, hlt, hf⟩ | ⟨o, ho, hl, hlt, i, hi, rfl⟩)
        · exact ⟨o, ho, hl, Nat.lt_succ_of_lt hlt, hf⟩
        · exact ⟨o, ho, hl, hlt ▸ Nat.lt_succ_self _, i, by rwa [hcount ho] at hi, rfl⟩

/-- **The fifth step of a cycle** leaves nothing stale but what was stored into objects that are not
live. -/
theorem ends_updateRefs (I : h.view.Inv W .copied []) (hs : h.view.InStage .copied) :
    Ends updateRefs h fun _ h' => Stepped h.view h'.view ∧ h'.view.Inv W .updated [] ∧
      h'.view.InStage .updated ∧ h.view.Follows W h'.view W ∧
      h'.view = { h.view with memory := h'.view.memory, roots := h.view.roots.prune } := by
  have hprune : h.view.Follows W { h.view with roots := h.view.roots.prune } W :=
    Follows.of_eq rfl rfl rfl rfl
  refine (ends_updateSlots I hs).mono fun _ h' U =>
    ⟨U.stepped, ⟨U.inv.layout, ?_, fun h => by cases h⟩, U.evolves.inStage hs,
      hprune.trans U.evolves.follows, U.frame⟩
  have I₀ := I.prune
  exact (U.congr fun b => by rw [rootSlots_prune]; rfl).toUpdated I₀.faithful I₀.layout

theorem keeps_failures_updateSlot : Keeps SameFailures (updateSlot a) := by
  refine keeps_loadSlot.bind fun value => Keeps.ite (keeps_getMemory.bind fun m => ?_) keeps_pure
  cases Object.forwardee? m value with
  | none => exact keeps_pure
  | some copy => exact Keeps.ite (keeps_failures_onMemory.bind fun _ => keeps_pure) keeps_pure

theorem keeps_failures_updateRegion : Keeps SameFailures (updateRegion i) := by
  refine keeps_getRegion.bind fun r => Keeps.ite keeps_pure (keeps_lift.bind fun objects => ?_)
  refine keeps_each fun o => keeps_getMemory.bind fun m => Keeps.ite keeps_pure ?_
  exact keeps_eachSlot fun _ => keeps_failures_updateSlot

/-- Updating references moves nothing. -/
theorem keeps_failures_updateRefs : Keeps SameFailures updateRefs := by
  refine keeps_get.bind fun h => Keeps.ite ?_ (keeps_failures_note.bind fun _ => keeps_pure)
  refine Keeps.bind (R := SameFailures) (keeps_onPart fun _ _ => rfl) fun slots => ?_
  exact (keeps_each fun _ => keeps_failures_updateSlot).bind fun _ =>
    keeps_eachRegion fun _ => keeps_failures_updateRegion

end

end RegionHeap

end ManagedHeap
