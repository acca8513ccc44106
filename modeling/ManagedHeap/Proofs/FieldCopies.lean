/-
# Copies of reference fields

A run of reference fields is copied within an object or from one object to another, and the two runs may
overlap.  The copy is as if all fields had been read before the first was written
(`Object.FieldsCopied`), in whatever phase of a cycle: a field that is read may be healed, and its
object moved, between two writes.

The code copies upwards or downwards by the addresses of the two runs, after it has resolved both
objects, so that no field is read after it was written.

* Section 1: what a copy has done, in memory alone.
* Section 2: what the barriers leave alone, objects that no reference of the program is to included.
* Section 3: what is recorded.
* Section 4: the copy, on a relocating heap.
* Section 5: the copy where no object moves.
* Section 6: at any time of a program, on either heap.
-/
import ManagedHeap.Proofs.BumpLedger
import ManagedHeap.Proofs.Swaps

namespace ManagedHeap

/-! ## 1. What a copy has done -/

namespace Object

/-- What the field with an index of an object holds, wherever the object is. -/
def content (m : Memory) (v i : Nat) : Nat := m.read (newestField m v i)

/-- **A run of fields was copied** as it was before, and all other fields are to the objects that they
were to. -/
structure FieldsCopied (IsObject : Nat → Prop) (m m' : Memory) (src si dst di len : Nat) : Prop where
  copied : ∀ k < len, Same m' (content m src (si + k)) (content m' dst (di + k))
  others : ∀ w i, IsObject w → i < refCount m (resolve m w) →
    (Same m w dst → i < di ∨ di + len ≤ i) → Same m' (content m w i) (content m' w i)

end Object

/-! ## 2. What is left alone -/

namespace HeapView

/-- Objects that no reference of the program is to are as they were, word for word. -/
def Undisturbed (V : HeapView) (W : World) (V' : HeapView) : Prop :=
  ∀ w b, V.Published w → ¬ V.Refers W w → w ≤ b → b < w + Object.size V.memory w →
    V'.memory.read b = V.memory.read b

section
variable {V V' V'' : HeapView} {W W' : World} {st : Stage} {ts : List MarkTask} {slot : Option Nat}
  {v r w o b i src si dst di len : Nat}

theorem Undisturbed.refl (V : HeapView) (W : World) : V.Undisturbed W V := fun _ _ _ _ _ _ => rfl

/-- Such an object was not moved. -/
theorem Faithful.status_of_not_refers (F : V.Faithful W st) (hp : V.Published w)
    (hn : ¬ V.Refers W w) : V.memory.read w = 0 := by
  rcases F.status hp with h | ⟨-, -, h, -⟩ | ⟨c, h⟩
  · exact h
  · exact absurd (.inl h) hn
  · exact absurd h.refers hn

theorem Undisturbed.status (U : V.Undisturbed W V') (L : V.Layout) (hp : V.Published w)
    (hn : ¬ V.Refers W w) : V'.memory.read w = V.memory.read w :=
  U w w hp hn (Nat.le_refl _) (Nat.lt_add_of_pos_right (L.objects.fits hp).size_pos)

/-- The program gets no reference to it either. -/
theorem Undisturbed.not_refers (U : V.Undisturbed W V') (I : V.Inv W st ts)
    (E : V.Preserves W V' W') (hp : V.Published w) (hn : ¬ V.Refers W w) : ¬ V'.Refers W' w := by
  rintro (h | ⟨c, h⟩)
  · rcases E.old h with h | h
    · exact hn (.inl h)
    · exact h hp
  · have h0 := I.faithful.status_of_not_refers hp hn
    rw [← U.status I.layout hp hn, h.status] at h0
    exact Object.tagged_ne_zero h0

theorem Undisturbed.trans (U : V.Undisturbed W V') (U' : V'.Undisturbed W' V'') (I : V.Inv W st ts)
    (E : V.Preserves W V' W') : V.Undisturbed W V'' := fun w b hp hn h1 h2 =>
  (U' w b (E.published hp) (U.not_refers I E hp hn) h1 (by rwa [E.sizes hp])).trans
    (U w b hp hn h1 h2)

/-- A word of an object of the program is written. -/
theorem Undisturbed.write (I : V.Inv W st ts) (ho : o ∈ W.objects) (h1 : o ≤ b)
    (h2 : b < o + Object.size V.memory o) :
    V.Undisturbed W { V with memory := V.memory.write b v } := by
  intro w a hp hn h3 h4
  refine Memory.read_write_of_ne _ (fun he => hn ?_) _
  subst he
  exact .inl (I.layout.inside_unique hp (I.faithful.published ho) h3 h4 h1 h2 ▸ ho)

/-- A reference is loaded. -/
theorem Loaded.undisturbed (D : V.Loaded slot v r V') (I : V.Inv W st ts)
    (hv : v = 0 ∨ V.Refers W v) (hslot : ∀ a, slot = some a → V.IsSlot W a) :
    V.Undisturbed W V' := by
  intro w b hp hn h1 h2
  have L := I.layout
  refine D.words w b hp h1 h2 (fun hb => ?_) fun hs => ?_
  · -- The address of an object is in that object only.
    rcases hv with rfl | hv
    · have := (L.bounds hp).pos
      omega
    · have hp' := I.faithful.refers_published hv
      have := (L.objects.fits hp').size_pos
      exact hn (L.inside_unique hp hp' h1 h2 (by omega) (by omega) ▸ hv)
  · rcases hslot b hs with ⟨o, i, ho, hi, rfl⟩ | ⟨c, hc, -, rfl⟩
    · have hp' := I.faithful.published ho.1
      have hin := L.field_inside hp' hi
      exact hn (L.inside_unique hp hp' h1 h2 (by omega) (by omega) ▸ ho.refers)
    · have := L.slot_ge hc
      have := (L.bounds hp).end_le
      omega

/-- **A copy of fields of the ideal heap is one of the real heap.** -/
theorem Simulates.fieldsCopied (S : V.Simulates W V' W' st ts
      (W.ideal.copyFields (W.name src) si (W.name dst) di len)) (I : V.Inv W st ts)
    (U : V.Undisturbed W V') (hsrc : V.Refers W src) (hdst : V.Refers W dst)
    (hsi : si + len ≤ W.ideal.refs (W.name src)) (hdi : di + len ≤ W.ideal.refs (W.name dst)) :
    Object.FieldsCopied V.Published V.memory V'.memory src si dst di len := by
  have F := I.faithful
  have L := I.layout
  have F' := S.inv.faithful
  have L' := S.inv.layout
  have hrefs : W'.ideal.refs = W.ideal.refs := by rw [S.ideal, IdealHeap.copyFields]
  -- What a field held before is to the same object after the copy.
  have hold {w i : Nat} (hw : V.Refers W w) (hi : i < W.ideal.refs (W.name w)) :
      V'.Names W' (V.content w i) (W.ideal.field (W.name w) i) :=
    S.evolves.names F F' (F.content L hw hi)
  have hnew {w i : Nat} (hw : V.Refers W w) (hi : i < W.ideal.refs (W.name w)) :
      V'.Names W' (V'.content w i) (W'.ideal.field (W.name w) i) := by
    obtain ⟨hw', hn⟩ := S.evolves.refers hw
    rw [← hn] at hi ⊢
    exact F'.content L' hw' (hrefs ▸ hi)
  refine ⟨fun k hk => ?_, fun w i hp hi hne => ?_⟩
  · have hb := hold hsrc (i := si + k) (by omega)
    have ha := hnew hdst (i := di + k) (by omega)
    refine (F'.same_iff L' hb.1 ha.1).2 ?_
    rw [hb.2, ha.2, S.ideal, IdealHeap.copyFields_field, if_pos ⟨rfl, by omega, by omega⟩,
      Nat.add_sub_cancel_left]
  · by_cases hw : V.Refers W w
    · rw [F.refCount_resolve L hw] at hi
      have hb := hold hw hi
      have ha := hnew hw hi
      refine (F'.same_iff L' hb.1 ha.1).2 ?_
      rw [hb.2, ha.2, S.ideal, IdealHeap.copyFields_field, if_neg]
      rintro ⟨hd, h1, h2⟩
      have := hne ((F.same_iff L (.inr hw) (.inr hdst)).2 hd)
      omega
    · have h0 := F.status_of_not_refers hp hw
      have h0' := (U.status L hp hw).trans h0
      rw [Object.resolve_of_zero h0] at hi
      have hin := L.field_inside hp hi
      have hsame : Object.content V'.memory w i = Object.content V.memory w i := by
        rw [Object.content, Object.content, Object.newestField, Object.newestField,
          Object.resolve_of_zero h0, Object.resolve_of_zero h0']
        exact U w _ hp hw (by omega) (by omega)
      rw [hsame]
      exact .refl _ _

end

end HeapView

namespace Mutator

open HeapView RegionHeap

section
variable {h : RegionHeap} {W : World} {st : Stage} {ts : List MarkTask} {slot : Option Nat}
  {v src si dst di len k : Nat}

/-- The load barrier, as far as objects go that the program does not have. -/
theorem ends_load_undisturbed (I : h.view.Inv W st ts) (hs : h.view.InStage st)
    (hv : v = 0 ∨ h.view.Refers W v) (hslot : ∀ a, slot = some a → h.view.IsSlot W a) :
    Ends (loadBarrier slot v) h fun _ h' =>
      h.view.Undisturbed W h'.view ∧ (st.relocates = false → h' = h) := by
  cases hf : h.gcState.hasForwarded with
  | true =>
    refine (ends_loadBarrier_loaded I hs hf hv fun a ha => I.hasSlot (hslot a ha)).mono ?_
    rintro r h' ⟨D, -⟩
    refine ⟨D.undisturbed I hv hslot, fun hcalm => ?_⟩
    rw [hasForwarded_eq hs, hcalm] at hf
    cases hf
  | false =>
    refine (ends_loadBarrier I hs hv fun a ha => I.hasSlot (hslot a ha)).mono ?_
    rintro r h' ⟨W', -, hcalm⟩
    obtain ⟨rfl, -⟩ := hcalm ((hasForwarded_eq hs).symm.trans hf)
    exact ⟨.refl _ _, fun _ => rfl⟩

/-- One field of a run is copied, as far as objects go that the program does not have. -/
theorem ends_copyRef_undisturbed (I : h.view.Inv W st ts) (hs : h.view.InStage st)
    (hsrc : h.view.Current W src) (hdst : h.view.Current W dst)
    (hsi : si + len ≤ Object.refCount h.view.memory src)
    (hdi : di + len ≤ Object.refCount h.view.memory dst) (hk : k < len) :
    Ends (copyRef (H := RegionHeap) ⟨Object.field src si, len⟩ ⟨Object.field dst di, len⟩ k) h
      fun _ h' => h.view.Undisturbed W h'.view ∧
        (st.relocates = false → h'.view.satb = h.view.satb) := by
  have hslot : h.view.IsSlot W (Object.field src (si + k)) :=
    .inl ⟨src, si + k, hsrc, by omega, rfl⟩
  simp only [copyRef, ends_bind, ends_lift]
  refine ⟨_, slot_eq I.layout (I.faithful.published hsrc.1) hsi hk, ?_⟩
  have hload : Ends (Heap.barriers.read (Object.field src (si + k))) h fun _ h' =>
      h.view.Undisturbed W h'.view ∧ (st.relocates = false → h' = h) := by
    simp only [BarrierHooks.read, ends_bind, ends_loadSlot]
    exact ends_load_undisturbed I hs (I.slot_refers hslot) fun a ha => Option.some.inj ha ▸ hslot
  refine ((ends_read I hs hslot).and hload).mono ?_
  rintro x h₁ ⟨⟨W₁, R, -⟩, U, hcalm⟩
  have hdst₁ := R.evolves.current hdst
  have hp₁ := R.inv.faithful.published hdst₁.1
  have hcount := R.toTransparent.refCount I hdst
  refine ⟨_, slot_eq R.inv.layout hp₁ (by rwa [hcount]) hk, ?_⟩
  rw [ends_storeSlot]
  have hin := R.inv.layout.field_inside hp₁ (i := di + k) (by omega)
  refine ⟨U.trans (.write R.inv hdst₁.1 (by omega) (by omega)) I R.evolves.toPreserves, fun hc => ?_⟩
  rw [hcalm hc]
  rfl

end

end Mutator

/-! ## 3. What is recorded -/

namespace HeapView

/-- What the fields of a run hold, in their order, but for null. -/
def entries (V : HeapView) (o i len : Nat) : List Nat :=
  ((List.range len).map fun k => V.content o (i + k)).filter (· ≠ null)

theorem entries_succ (V : HeapView) (o i k : Nat) : V.entries o i (k + 1) =
    V.entries o i k ++ if V.content o (i + k) = null then [] else [V.content o (i + k)] := by
  simp only [entries, List.range_succ, List.map_append, List.map_cons, List.map_nil,
    List.filter_append, List.filter_cons, List.filter_nil, decide_not, Bool.not_eq_true',
    decide_eq_false_iff_not]
  split <;> simp_all

end HeapView

namespace RegionHeap

open HeapView Mutator

variable {h : RegionHeap} {b o i len : Nat}

/-- **Before a run of fields is overwritten** while marking runs, what they hold is recorded, in their
order. -/
theorem ends_copyPre_eq (L : h.view.Layout) (ho : h.view.Published o)
    (hres : Object.resolve h.view.memory o = o) (hlen : i + len ≤ Object.refCount h.view.memory o)
    (hmark : h.gcState.marking = true) :
    Ends (copyPre b ⟨Object.field o i, len⟩) h fun _ h' => h'.view =
      { h.view with satb := (h.view.entries o i len).foldl (·.enqueue b ·) h.view.satb } := by
  simp only [copyPre, ends_bind, ends_get, hmark, if_true]
  refine ends_upTo (fun k (h' : RegionHeap) => h'.view =
    { h.view with satb := (h.view.entries o i k).foldl (·.enqueue b ·) h.view.satb }) rfl
    fun k h₁ hk hv => ?_
  have hslot : SlotRange.slot ⟨Object.field o i, len⟩ k = .ok (Object.field o (i + k)) :=
    slot_eq L ho hlen hk
  have hread : h₁.view.memory.read (Object.field o (i + k)) = h.view.content o (i + k) := by
    rw [hv, content, Object.newestField, hres]
  have hmark₁ : h₁.view.gcState.marking = true := by
    rw [hv]
    exact hmark
  simp only [Nat.zero_add, ends_bind, ends_lift, hslot, Except.ok.injEq, exists_eq_left']
  refine ends_writePre_eq.mono fun _ h₂ hv₂ => ?_
  rw [hv₂, logged, hread, entries_succ, List.foldl_append]
  by_cases h0 : h.view.content o (i + k) = null
  · rw [if_neg fun hc => hc.2 h0, if_pos h0, hv]
    rfl
  · rw [if_pos ⟨hmark₁, h0⟩, if_neg h0, hv]
    rfl

end RegionHeap

/-! ## 4. The copy -/

namespace RegionHeap

/-- **What a copy of fields has done**: in memory, and to the records of what was overwritten. -/
structure Copied (h : RegionHeap) (m src si dst di len : Nat) (h' : RegionHeap) : Prop where
  fields : Object.FieldsCopied h.view.Published h.core.memory h'.core.memory src si dst di len
  /-- While marking runs, what the fields held is recorded in their order. -/
  recorded : h.gcState.marking = true → ∃ t, h.core.mutators[m]?.join = some t ∧
    h'.satb = (h.view.entries dst di len).foldl (·.enqueue t.buffer ·) h.satb

end RegionHeap

namespace Mutator

open HeapView RegionHeap

section
variable {h : RegionHeap} {W : World} {st : Stage} {ts : List MarkTask}
  {m src si dst di len b s d : Nat} {t : Mutator}

/-- The copy between slots, as far as records go and objects that the program does not have. -/
theorem ends_copySlots_undisturbed (I : h.view.Inv W st ts) (hs : h.view.InStage st)
    (hb : b ∈ h.view.satb.ids) (hsc : h.view.Current W s) (hdc : h.view.Current W d)
    (hsi : si + len ≤ Object.refCount h.view.memory s)
    (hdi : di + len ≤ Object.refCount h.view.memory d) :
    Ends (copySlots b (Object.field s si) (Object.field d di) len) h fun _ h' =>
      h.view.Undisturbed W h'.view ∧ (st = .marking → h'.view.satb =
        (h.view.entries d di len).foldl (·.enqueue b ·) h.view.satb) := by
  have L := I.layout
  have F := I.faithful
  have hpre : Ends (copyPre b ⟨Object.field d di, len⟩) h fun _ h' =>
      LoggedRun h.view W h'.view st ts d di len ∧ (st = .marking → h'.view.satb =
        (h.view.entries d di len).foldl (·.enqueue b ·) h.view.satb) := by
    have hlog := ends_copyPre I hs hb hdc hdi
    by_cases hst : st = .marking
    · have hmark : h.gcState.marking = true := (marking_eq hs).trans (decide_eq_true hst)
      refine (hlog.and (ends_copyPre_eq L (F.published hdc.1) (F.resolve_current L hdc) hdi
        hmark)).mono ?_
      rintro _ h' ⟨G, hv⟩
      exact ⟨G, fun _ => by rw [hv]⟩
    · exact hlog.mono fun _ _ G => ⟨G, fun h => absurd h hst⟩
  simp only [copySlots, ends_bind]
  refine hpre.mono ?_
  rintro _ h₁ ⟨G, hsatb⟩
  have hmem₁ : h₁.view.memory = h.view.memory := by rw [G.view]
  have hsc₁ := G.evolves.current hsc
  have hdc₁ := G.evolves.current hdc
  have hs₁ := G.evolves.inStage hs
  have hsi₁ := hsi
  have hdi₁ := hdi
  rw [← hmem₁] at hsi₁ hdi₁
  -- The loop goes on copying, from where the records were made.
  refine (ends_each (fun done rest (h' : RegionHeap) =>
    ∃ W', Copying h₁.view W h'.view W' st ts s si d di done rest ∧ h₁.view.Undisturbed W h'.view ∧
      (st.relocates = false → h'.view.satb = h₁.view.satb))
    ⟨W, ⟨G.inv, Evolves.refl _ _, rfl, fun hst k hk => ?_⟩, .refl _ _, fun _ => rfl⟩
    fun done k rest h₂ hsplit hC => ?_).mono fun _ h₂ hC => ?_
  · have := G.recorded hst k (mem_copyOrder.1 hk)
    rwa [hmem₁]
  · obtain ⟨W₂, C, U, hq⟩ := hC
    have hs₂ := C.evolves.inStage hs₁
    have hk : k < len := mem_copyOrder.1 (by rw [hsplit]; simp)
    have hsize {o : Nat} (ho : h₁.view.Current W o) :
        Object.refCount h₂.view.memory o = Object.refCount h₁.view.memory o := by
      rw [C.inv.refCount (C.evolves.current ho), C.ideal, IdealHeap.foldl_copyField_rest,
        C.evolves.name ho.refers, ← G.inv.refCount ho]
    refine ((ends_copyRef C hs₂ hsc₁ hdc₁ (G.inv.refCount hsc₁ ▸ hsi₁) (G.inv.refCount hdc₁ ▸ hdi₁)
      hk (not_mem_rest_of_copyOrder hsplit)).and (ends_copyRef_undisturbed C.inv hs₂
        (C.evolves.current hsc₁) (C.evolves.current hdc₁) (by rwa [hsize hsc₁])
        (by rwa [hsize hdc₁]) hk)).mono ?_
    rintro _ h₃ ⟨⟨W₃, C₃⟩, U₃, hq₃⟩
    exact ⟨W₃, C₃, U.trans U₃ G.inv C.evolves.toPreserves,
      fun hcalm => (hq₃ hcalm).trans (hq hcalm)⟩
  · obtain ⟨W₂, C, U, hq⟩ := hC
    have hdc₂ := C.evolves.current hdc₁
    have hdi₂ : di + len ≤ Object.refCount h₂.view.memory d := by
      rwa [C.inv.refCount hdc₂, C.ideal, IdealHeap.foldl_copyField_rest, C.evolves.name hdc₁.refers,
        ← G.inv.refCount hdc₁]
    refine (ends_copyPost C.inv.layout (C.inv.faithful.published hdc₂.1) hdi₂).mono ?_
    rintro _ h₃ ⟨hv, -⟩
    rw [hv]
    have U₁ : h.view.Undisturbed W h₁.view := fun _ _ _ _ _ _ => by rw [hmem₁]
    exact ⟨U₁.trans U I G.evolves.toPreserves,
      fun hst => (hq (by rw [hst]; rfl)).trans (hsatb hst)⟩

/-- **Copy of a run of reference fields**, with what it leaves alone and what it records. -/
theorem ends_copyRefs_copied (I : h.view.Inv W st ts) (hs : h.view.InStage st)
    (hm : h.view.mutator? m = some t) (hsrc : h.view.Refers W src) (hdst : h.view.Refers W dst)
    (hsi : si + len ≤ W.ideal.refs (W.name src)) (hdi : di + len ≤ W.ideal.refs (W.name dst)) :
    Ends (copyRefs m src si dst di len) h fun _ h' => h.Copied m src si dst di len h' := by
  by_cases hlen : len = 0
  · subst hlen
    rw [copyRefs, if_pos rfl, ends_pure]
    exact ⟨⟨fun k hk => absurd hk (Nat.not_lt_zero k), fun _ _ _ _ _ => .refl _ _⟩,
      fun _ => ⟨t, hm, rfl⟩⟩
  suffices hrest : Ends (copyRefs m src si dst di len) h fun _ h' =>
      h.view.Undisturbed W h'.view ∧ (st = .marking → h'.view.satb =
        (h.view.entries dst di len).foldl (·.enqueue t.buffer ·) h.view.satb) by
    refine ((ends_copyRefs I hs hm hlen hsrc hdst hsi hdi).and hrest).mono ?_
    rintro _ h' ⟨⟨W', S, -⟩, U, hq⟩
    exact ⟨S.fieldsCopied I U hsrc hdst hsi hdi, fun hmark =>
      ⟨t, hm, hq (of_decide_eq_true ((marking_eq hs).symm.trans hmark))⟩⟩
  rw [copyRefs_of_ne hlen, ends_bind]
  have hload {g : RegionHeap} {W₀ : World} {v : Nat} (J : g.view.Inv W₀ st ts)
      (hg : g.view.InStage st) (hv : g.view.Refers W₀ v) : Ends (resolve v) g fun _ g' =>
      g.view.Undisturbed W₀ g'.view ∧ (st.relocates = false → g' = g) :=
    ends_load_undisturbed J hg (.inr hv) fun _ ha => by cases ha
  refine ((ends_resolve I hs (.inr hsrc)).and (hload I hs hsrc)).mono ?_
  rintro s h₁ ⟨⟨W₁, R₁, -⟩, U₁, hc₁⟩
  have hs₁ := R₁.evolves.inStage hs
  have hdst₁ := (R₁.evolves.refers hdst).1
  rw [ends_bind]
  refine ((ends_resolve R₁.inv hs₁ (.inr hdst₁)).and (hload R₁.inv hs₁ hdst₁)).mono ?_
  rintro d h₂ ⟨⟨W₂, R₂, -⟩, U₂, hc₂⟩
  have C := CopyReady.of_resolved I hsrc hdst R₁ R₂ hsi hdi
  have T := C.transparent
  have L := T.inv.layout
  have F := T.inv.faithful
  have hm₂ : h₂.view.mutator? m = some t := by
    unfold HeapView.mutator?
    rw [T.mutators]
    exact hm
  refine (ends_copyResolved (h := h₂) rfl (L.objects.fits (F.published C.source.1))
    (L.objects.fits (F.published C.target.1)) C.source_le C.target_le hlen hm₂).2 ?_
  refine (ends_copySlots_undisturbed T.inv (T.evolves.inStage hs) (L.buffer_mem hm₂) C.source
    C.target C.source_le C.target_le).mono ?_
  rintro _ h₃ ⟨U₃, hq⟩
  refine ⟨(U₁.trans U₂ I R₁.evolves.toPreserves).trans U₃ I T.evolves.toPreserves, fun hst => ?_⟩
  have hcalm : st.relocates = false := by rw [hst]; rfl
  obtain rfl := hc₁ hcalm
  obtain rfl := hc₂ hcalm
  rw [hq hst]
  -- Nothing is forwarded then, so the target is as it was given.
  have hd : Object.resolve h₂.view.memory d = Object.resolve h₂.view.memory dst := by
    rw [F.resolve_current L C.target]
    exact (R₂.resolve_eq R₁.inv.faithful hdst₁).symm
  simp only [entries, content, Object.newestField, hd]

end

end Mutator

/-! ## 5. Objects that do not move -/

/-- **A copy of fields, word for word**, is one of references where no object moves. -/
theorem Memory.Holds.fieldsCopied {m m' : Memory} {O : Set Nat} {src si dst di len : Nat}
    (H : m.Holds O) (C : Memory.Overwrites O m m') (hsrc : src ∈ O) (hdst : dst ∈ O)
    (hdi : di + len ≤ Object.refCount m dst)
    (hcopy : ∀ o ∈ O, ∀ i < Object.refCount m o,
      m'.read (Object.field o i) = (m.fieldsOf.copyFields src si dst di len).field o i) :
    Object.FieldsCopied (· ∈ O) m m' src si dst di len := by
  have hold {o : Nat} (ho : o ∈ O) (i : Nat) : Object.content m o i = m.fieldsOf.field o i := by
    rw [Object.content, Object.newestField, H.resolve ho]
    rfl
  have hnew {o i : Nat} (ho : o ∈ O) (hi : i < Object.refCount m o) : Object.content m' o i =
      (m.fieldsOf.copyFields src si dst di len).field o i := by
    rw [Object.content, Object.newestField, Object.resolve_of_zero ((C.status ho).trans (H.status ho))]
    exact hcopy o ho i hi
  refine ⟨fun k hk => ?_, fun w i hw hi hne => ?_⟩
  · rw [hold hsrc, hnew hdst (by omega), IdealHeap.copyFields_field, if_pos ⟨rfl, by omega, by omega⟩,
      Nat.add_sub_cancel_left]
    exact .refl _ _
  · rw [H.resolve hw] at hi
    rw [hold hw, hnew hw hi, IdealHeap.copyFields_field, if_neg]
    · exact .refl _ _
    · rintro ⟨rfl, h1, h2⟩
      have := hne (.refl _ _)
      omega

/-! ## 6. At any time of a program -/

/-- **A run of fields is copied as it was**, at any time of a permitted program, from any object to any,
also to itself, and for any of the copies of either: the copy ends, and has done what
`RegionHeap.Copied` says.  On a heap that never collects, the same holds of the fields, as far as a
program comes. -/
theorem copies_fields_as_they_were :
    (∀ {place o} {h : RegionHeap} {cs}, AnyHeap.build place o = .ok (.ok (.region h)) →
      Permitted Session.execute Session.Allows cs (Session.start h) →
      ∃ as s, Action.runAll Session.execute cs (Session.start h) = .ok as s ∧
        ∀ m src si dst di len, m ∈ s.mutators → src ≠ null → s.Operand src → dst ≠ null →
          s.Operand dst →
          si + len ≤ Object.refCount s.heap.core.memory (Object.resolve s.heap.core.memory src) →
          di + len ≤ Object.refCount s.heap.core.memory (Object.resolve s.heap.core.memory dst) →
          ∃ h', Mutator.copyRefs m src si dst di len s.heap = .ok () h' ∧
            s.heap.Copied m src si dst di len h') ∧
    (∀ {place o} {h : BumpHeap} {rs xs s}, o.Reached →
      AnyHeap.build place o = .ok (.ok (.bump h)) →
      Permitted BumpSession.serve BumpSession.AllowsRequest rs (BumpSession.start h) →
      Action.runAll BumpSession.serve rs (BumpSession.start h) = .ok xs s →
      ∀ m src si dst di len, m ∈ s.mutators → src ∈ s.objects → dst ∈ s.objects →
        si + len ≤ Object.refCount s.memory src → di + len ≤ Object.refCount s.memory dst →
        ∃ h', Mutator.copyRefs m src si dst di len s.heap = .ok () h' ∧
          Object.FieldsCopied (· ∈ s.objects) s.memory h'.core.memory src si dst di len) := by
  constructor
  · intro place o h cs hb hp
    obtain ⟨as, s, hrun, W, S, -⟩ := Session.ends_program hb hp
    refine ⟨as, s, hrun, fun m src si dst di len hm hs0 hsrc hd0 hdst hsi hdi => ?_⟩
    have I := S.inv
    obtain ⟨t, ht⟩ := S.mutator hm
    have hsrc := (S.operand hsrc).resolve_left hs0
    have hdst := (S.operand hdst).resolve_left hd0
    have hcount {v : Nat} (hv : s.heap.view.Refers W v) := I.faithful.refCount_resolve I.layout hv
    obtain ⟨_, h', hcopy, hdone⟩ := Mutator.ends_copyRefs_copied I S.inStage ht hsrc hdst
      (hcount hsrc ▸ hsi) (hcount hdst ▸ hdi)
    exact ⟨h', hcopy, hdone⟩
  · intro place o h rs xs s ho hb hp hrun m src si dst di len hm hsrc hdst hsi hdi
    have S := BumpSession.after_program ho hb hp xs s hrun
    obtain ⟨t, ht⟩ := Option.isSome_iff_exists.1 (S.mutators m hm)
    obtain ⟨_, h', hcopy, m', rfl, C, hfields⟩ :=
      Mutator.ends_copyRefs_fixed S.holds ht hsrc hdst hsi hdi
    exact ⟨_, hcopy, S.holds.fieldsCopied C hsrc hdst hdi hfields⟩

/-- An object with three fields, of which the first two are not null. -/
def shifting : List Operation := [
  .create, .alloc 0 3 0, .alloc 0 0 0, .storeRef 0 0 0 1, .storeRef 0 0 1 0, .newRoot 0]

/-- The first two fields of an object are copied over the last two: on one heap while marking runs, on
the other where no object moves. -/
theorem copies_fields_as_they_were_shifting :
    (∃ h, AnyHeap.build Place.first smallHeap = .ok (.ok (.region h)) ∧
      Permitted Session.execute Session.Allows
        (shifting.map .operation ++ [.step .initMark, .operation (.loadRoot rootBase)])
        (Session.start h) ∧
      ∃ as s, Action.runAll Session.execute
          (shifting.map .operation ++ [.step .initMark, .operation (.loadRoot rootBase)])
          (Session.start h) = .ok as s ∧
        s.stage = .marking ∧ ∃ h',
          Mutator.copyRefs 0 (s.reference 0) 0 (s.reference 0) 1 2 s.heap = .ok () h' ∧
          s.heap.Copied 0 (s.reference 0) 0 (s.reference 0) 1 2 h') ∧
    ∃ h xs s, growingHeap.Reached ∧ AnyHeap.build Place.first growingHeap = .ok (.ok (.bump h)) ∧
      Permitted BumpSession.serve BumpSession.AllowsRequest (shifting.map .operation)
        (BumpSession.start h) ∧
      Action.runAll BumpSession.serve (shifting.map .operation) (BumpSession.start h) = .ok xs s ∧
      ∃ h', Mutator.copyRefs 0 (s.reference 0) 0 (s.reference 0) 1 2 s.heap = .ok () h' ∧
        Object.FieldsCopied (· ∈ s.objects) s.memory h'.core.memory (s.reference 0) 0 (s.reference 0)
          1 2 := by
  constructor
  · obtain ⟨h, hb, hd⟩ := Session.builds_iff.1 (show Session.builds Place.first smallHeap (fun h =>
      decide (Permitted Session.execute Session.Allows (shifting.map .operation ++
        [.step .initMark, .operation (.loadRoot rootBase)] ++
          [.operation (.copyRefs 0 0 0 0 1 2)]) (Session.start h)) &&
      decide (Permitted Session.execute Session.Allows (shifting.map .operation ++
        [.step .initMark, .operation (.loadRoot rootBase)] ++ [.step .concurrentMark])
          (Session.start h))) = true by decide +kernel)
    simp only [Bool.and_eq_true, decide_eq_true_eq] at hd
    obtain ⟨hcs, hlast⟩ := hd.1.snoc
    obtain ⟨as, s, hrun, hall⟩ := copies_fields_as_they_were.1 hb hcs
    obtain ⟨hm, hlen | ⟨⟨h0, hsi⟩, -, hdi⟩⟩ := hlast hrun
    · cases hlen
    obtain ⟨_, _, hrun', W, S, -⟩ := Session.ends_program hb hcs
    cases hrun.symm.trans hrun'
    have hop := S.toReady.operand_reference 0
    exact ⟨h, hb, hcs, as, s, hrun, hd.2.snoc.2 hrun, hall 0 _ 0 _ 1 2 hm h0 hop h0 hop hsi hdi⟩
  · obtain ⟨h, hb, hd⟩ := BumpSession.builds_iff.1 (show BumpSession.builds Place.first growingHeap
      (fun h => decide (Permitted BumpSession.serve BumpSession.AllowsRequest
          (shifting.map .operation ++ [.operation (.copyRefs 0 0 0 0 1 2)]) (BumpSession.start h)) &&
        decide (Ends (Action.runAll BumpSession.serve (shifting.map .operation))
          (BumpSession.start h) fun _ _ => True)) = true by decide +kernel)
    simp only [Bool.and_eq_true, decide_eq_true_eq] at hd
    obtain ⟨hrs, hlast⟩ := hd.1.snoc
    obtain ⟨xs, s, hrun, -⟩ := hd.2
    obtain ⟨hm, hlen | ⟨⟨h0, hsi⟩, -, hdi⟩⟩ := hlast hrun
    · cases hlen
    exact ⟨h, xs, s, Mutator.growingHeap_reached, hb, hrs, hrun,
      copies_fields_as_they_were.2 Mutator.growingHeap_reached hb hrs hrun 0 _ 0 _ 1 2 hm
        h0.mem h0.mem hsi hdi⟩

end ManagedHeap
