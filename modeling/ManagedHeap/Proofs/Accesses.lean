/-
# Accesses of a mutator

What the operations of a mutator on references, payload words and roots do: what they return and
how they change the heap is what the ideal heap does, for the objects that the references are to.
A `Simulates` is the postcondition of all of them.

An operation resolves what it is given, so its operands may be references to older copies.  What
overwrites a field is then current, and what the field held is recorded before while marking runs;
with `Inv.storeField` this is all there is to a store.  A run of fields is copied one by one, and
`IdealHeap.foldl_copyField_eq` says why the order of the code is the right one.
-/
import ManagedHeap.Proofs.Evacuation

namespace ManagedHeap

namespace HeapView

/-! ## 1. Postconditions -/

/-- The heap has done what took the ideal heap to `I`. -/
structure Simulates (V : HeapView) (W : World) (V' : HeapView) (W' : World) (st : Stage)
    (ts : List MarkTask) (I : IdealHeap) : Prop where
  inv : V'.Inv W' st ts
  evolves : V.Evolves W V' W'
  ideal : W'.ideal = I

/-- Null, or a reference to the object with an identity. -/
def Names (V : HeapView) (W : World) (v n : Nat) : Prop := (v = 0 ∨ V.Refers W v) ∧ W.name v = n

/-- There is a root with a slot. -/
def HasRoot (V : HeapView) (slot : Nat) : Prop :=
  ∃ c ∈ V.roots.cells, c.live = true ∧ c.slot = slot

/-- The pre-write barrier has run for the slot `a`. -/
structure Logged (V : HeapView) (W : World) (V' : HeapView) (st : Stage) (ts : List MarkTask)
    (a : Nat) : Prop where
  inv : V'.Inv W st ts
  evolves : V.Evolves W V' W
  view : V' = { V with satb := V'.satb }
  ids : V'.satb.ids = V.satb.ids
  kept : ∀ {v}, V.satb.Recorded v → V'.satb.Recorded v
  recorded : st = .marking → V.memory.read a = 0 ∨ V'.satb.Recorded (V.memory.read a)

section
variable {V V' V'' : HeapView} {W W' W'' : World} {st : Stage} {ts : List MarkTask}
  {v n o i a r : Nat} {I : IdealHeap}

theorem Simulates.of_transparent (S : V'.Simulates W' V'' W'' st ts I)
    (T : V.Transparent W V' W' st ts) : V.Simulates W V'' W'' st ts I :=
  ⟨S.inv, T.evolves.trans S.evolves, S.ideal⟩

theorem Transparent.simulates (T : V.Transparent W V' W' st ts) :
    V.Simulates W V' W' st ts W.ideal := ⟨T.inv, T.evolves, T.ideal⟩

theorem Follows.names {st' : Stage} (E : V.Follows W V' W') (F : V.Faithful W st)
    (F' : V'.Faithful W' st') (h : V.Names W v n) : V'.Names W' v n := by
  rcases h with ⟨rfl | h, hn⟩
  · exact ⟨.inl rfl, by rw [← hn, F.name_zero, F'.name_zero]⟩
  · exact ⟨.inr (E.refers h).1, (E.refers h).2.trans hn⟩

theorem Evolves.names (E : V.Evolves W V' W') (F : V.Faithful W st) (F' : V'.Faithful W' st)
    (h : V.Names W v n) : V'.Names W' v n := E.follows.names F F' h

theorem Clean.names (h : V.Clean W v) : V.Names W v (W.name v) :=
  ⟨h.imp_right Current.refers, rfl⟩

theorem Resolved.current (R : V.Resolved W v V' W' r st ts) (F : V.Faithful W st)
    (hv : V.Refers W v) : V'.Current W' r := by
  refine R.result.resolve_left fun he => ?_
  have h1 := R.name
  rw [he, R.inv.faithful.name_zero] at h1
  exact Nat.ne_of_gt (F.name_refers_pos hv) h1.symm

/-- The number of fields of a current object is that of the ideal one. -/
theorem Inv.refCount (J : V.Inv W st ts) (ho : V.Current W o) :
    Object.refCount V.memory o = W.ideal.refs (W.name o) := J.faithful.refs ho.1

/-- The buffer of a mutator is registered. -/
theorem Layout.buffer_mem (L : V.Layout) {m : Nat} {t : Mutator} (hm : V.mutator? m = some t) :
    t.buffer ∈ V.satb.ids := by
  obtain ⟨b, hb, he⟩ := L.buffers.registered hm
  exact List.mem_map.2 ⟨b, hb, he⟩

/-- The buffer of compiled code is registered. -/
theorem Layout.shared_mem (L : V.Layout) : SatbQueues.shared ∈ V.satb.ids := by
  obtain ⟨b, hb, he⟩ := L.buffers.shared
  exact List.mem_map.2 ⟨b, hb, he⟩

end

end HeapView

namespace RegionHeap

open HeapView

variable {h : RegionHeap} {W : World} {st : Stage} {ts : List MarkTask} {b a o i x : Nat}

/-! ## 2. The barriers of stores -/

theorem marking_eq (hs : h.view.InStage st) : h.gcState.marking = decide (st = .marking) := by
  have hg : h.gcState = st.flags := hs.1
  rw [hg]
  cases st <;> rfl

/-- **The pre-write barrier** records what the slot holds while marking runs. -/
theorem ends_writePre (I : h.view.Inv W st ts) (hs : h.view.InStage st)
    (hb : b ∈ h.view.satb.ids) (ha : h.view.IsSlot W a) :
    Ends (writePre b a) h fun _ h' => h.view.Logged W h'.view st ts a := by
  simp only [writePre, ends_bind, ends_get, ends_ite, marking_eq hs, decide_eq_true_eq,
    ends_loadSlot, ends_pure]
  refine ⟨fun hst => ⟨fun h0 => ?_, fun h0 => ?_⟩, fun hst => ?_⟩
  · subst hst
    have h0 : h.view.memory.read a ≠ 0 := h0
    have hm := (I.faithful.current_of_calm rfl ((I.slot_refers ha).resolve_left h0)).1
    obtain ⟨I', E, hrec, hkeep⟩ := I.record hb hm
    simp only [modifyBarrierStats, ends_modify, modifySatb]
    exact ⟨I', E, rfl, SatbQueues.ids_enqueue, fun h => hkeep _ h, fun _ => .inr hrec⟩
  · exact ⟨I, Evolves.refl _ _, rfl, rfl, fun h => h, fun _ => .inl (Decidable.not_not.1 h0)⟩
  · exact ⟨I, Evolves.refl _ _, rfl, rfl, fun h => h, fun h => absurd h hst⟩

/-- The region of an address is marked as written, if the heap keeps such marks. -/
def Carded (h : RegionHeap) (a : Nat) : Prop :=
  h.core.options.cardBarrier = true → h.space.isDirtyAt (h.view.index a) = true

/-- The object with an identity was written: the region of its newest copy is marked. -/
def Wrote (h : RegionHeap) (W : World) (n : Nat) : Prop :=
  ∃ o, h.view.Current W o ∧ W.name o = n ∧ h.Carded o

/-- A mark of a region is not seen. -/
theorem ends_markDirty (hi : i < h.view.maxRegions) :
    Ends (onRegion i Region.markDirty) h fun _ h' =>
      h'.view = h.view ∧ h'.space.isDirtyAt i = true := by
  have hview : Ends (onRegion i Region.markDirty) h fun _ h' => h'.view = h.view := by
    refine (ends_onRegion hi Region.acts_markDirty).mono fun _ h₁ hr => ?_
    obtain ⟨r, rfl, hv⟩ := hr
    rw [hv]
    exact setRegion_self
  refine hview.and ?_
  simp only [onRegion, onSpace, ends_onPart]
  refine ⟨(), h.space.putRegion i { h.regionAt i with dirty := true },
    RegionSpace.onRegion_eq_ok.2 ⟨hi, _, rfl, rfl⟩, ?_⟩
  · show (h.space.putRegion i _).isDirtyAt i = true
    rw [RegionSpace.isDirtyAt_putRegion hi, if_pos rfl]

/-- **The card barrier** marks the region of the slot, and changes nothing that is seen. -/
theorem ends_cardMark (L : h.view.Layout) :
    Ends (cardMark a) h fun _ h' =>
      h'.view = h.view ∧ (h.view.low ≤ a → a < h.view.high → h'.Carded a) := by
  simp only [cardMark, ends_bind, ends_get, ends_ite, ends_pure]
  refine ⟨fun _ => ?_, fun hoff => ⟨trivial, fun _ _ hon => absurd hon hoff⟩⟩
  by_cases ha : h.view.low ≤ a ∧ a < h.view.high
  · have hidx : h.space.indexOf? a = some (h.view.index a) := if_pos ha
    have hlt : h.view.index a < h.view.maxRegions := by
      refine Nat.lt_of_lt_of_le (Nat.div_lt_of_lt_mul ?_) L.geometry.committed_le
      have := L.geometry.high_eq
      rw [Nat.mul_comm]
      omega
    simp only [hidx, ends_bind, modifyBarrierStats, ends_modify]
    refine (ends_markDirty (h := { h with barrierStats := { h.barrierStats with
      cardMarks := h.barrierStats.cardMarks + 1 } }) hlt).mono fun _ h₁ hr => ?_
    refine ⟨hr.1, fun _ _ _ => ?_⟩
    rw [hr.1]
    exact hr.2
  · have hidx : h.space.indexOf? a = none := if_neg ha
    rw [hidx]
    exact ends_pure.2 ⟨rfl, fun h1 h2 => absurd ⟨h1, h2⟩ ha⟩

/-- The card barrier for a field of an object marks the region of the object. -/
theorem ends_cardMark_field (L : h.view.Layout) (ho : h.view.Published o)
    (hi : i < Object.refCount h.view.memory o) :
    Ends (cardMark (Object.field o i)) h fun _ h' => h'.view = h.view ∧ h'.Carded o := by
  refine (ends_cardMark L).mono ?_
  rintro _ h' ⟨hv, hc⟩
  have hB := L.bounds ho
  have hin := L.field_inside ho hi
  have hidx := L.index_field ho hi
  have hlow : h.view.low ≤ Object.field o i := by
    have := hB.low_le
    omega
  have hhigh : Object.field o i < h.view.high :=
    L.geometry.lt_high hlow (hidx ▸ hB.committed)
  refine ⟨hv, fun hon => ?_⟩
  have := hc hlow hhigh hon
  rwa [hv, hidx, ← hv] at this

/-- **A store into a field, with its barriers.** -/
theorem ends_write (I : h.view.Inv W st ts) (hs : h.view.InStage st)
    (hb : b ∈ h.view.satb.ids) (ho : h.view.Current W o) (hi : i < Object.refCount h.view.memory o)
    (hx : h.view.Clean W x) :
    Ends (barriers.write b (Object.field o i) x) h fun _ h' =>
      ∃ W', h.view.Simulates W h'.view W' st ts
        (W.ideal.setField (W.name o) i (W.name x)) ∧ h'.Wrote W' (W.name o) := by
  simp only [BarrierHooks.write, ends_bind]
  refine (ends_writePre I hs hb (.inl ⟨o, i, ho, hi, rfl⟩)).mono fun _ h₁ G => ?_
  have hmem : h₁.view.memory = h.view.memory := by rw [G.view]
  have ho₁ := G.evolves.current ho
  have hx₁ := G.evolves.clean hx
  have I₂ := G.inv.storeField (x := x) ho₁.1 (by rwa [hmem]) (Set.Subset.refl W.loose)
    (hx₁.imp_right .inl) fun hst _ => by
      rw [hmem]
      exact (G.recorded hst).imp_right fun h => .inr (.inl h)
  have E₂ := Evolves.storeField (x := x) G.inv ho₁.1 (i := i) (by rwa [hmem])
  rw [ends_storeSlot]
  have hv₂ : (HasMemory.setMemory ((HasMemory.memory h₁).write (Object.field o i) x) h₁).view =
      { h₁.view with memory := h₁.view.memory.write (Object.field o i) x } := rfl
  rw [← hv₂] at I₂ E₂
  have E := G.evolves.trans E₂
  have hi₂ : i < Object.refCount (HasMemory.setMemory ((HasMemory.memory h₁).write
      (Object.field o i) x) h₁).view.memory o := by
    rw [I₂.refCount (E₂.current ho₁)]
    exact I.refCount ho ▸ hi
  refine (ends_cardMark_field I₂.layout (I₂.faithful.published ho.1) hi₂).mono ?_
  rintro _ h₃ ⟨hv₃, hcard⟩
  rw [← hv₃] at I₂ E
  exact ⟨_, ⟨I₂, E, rfl⟩, o, E.current ho, rfl, hcard⟩

end RegionHeap

/-! ## 3. Loads and stores -/

namespace Mutator

open HeapView RegionHeap

variable {h : RegionHeap} {W : World} {st : Stage} {ts : List MarkTask} {m src i v : Nat}
  {t : Mutator}

theorem ends_resolve (I : h.view.Inv W st ts) (hs : h.view.InStage st)
    (hv : v = 0 ∨ h.view.Refers W v) :
    Ends (resolve v) h fun r h' => ∃ W', h.view.Resolved W v h'.view W' r st ts ∧
      (st.relocates = false → h' = h ∧ W' = W) :=
  ends_loadBarrier I hs hv fun _ ha => by cases ha

theorem ends_fieldSlot {post : Nat → RegionHeap → Prop} (I : h.view.Inv W st ts)
    (hc : h.view.Current W src) (hi : i < W.ideal.refs (W.name src)) :
    Ends (fieldSlot src i) h post ↔ post (Object.field src i) h := by
  have hb := (I.layout.bounds (I.faithful.published hc.1)).aligned
  have hslot : Object.fieldSlot (HasMemory.memory h) src i = .ok (Object.field src i) :=
    Object.fieldSlot_eq hb (by rw [← I.refCount hc] at hi; exact hi)
  simp only [fieldSlot, ends_bind, ends_getMemory, ends_lift, hslot]
  simp

/-- A read of a slot gives the current copy of what is in it. -/
theorem ends_read {a : Nat} (I : h.view.Inv W st ts) (hs : h.view.InStage st)
    (ha : h.view.IsSlot W a) :
    Ends (barriers.read a) h fun r h' => ∃ W',
      h.view.Resolved W (h.view.memory.read a) h'.view W' r st ts ∧
      (st.relocates = false → h' = h ∧ W' = W) := by
  simp only [BarrierHooks.read, ends_bind, ends_loadSlot]
  exact ends_loadBarrier I hs (I.slot_refers ha) fun b hb => by cases hb; exact I.hasSlot ha

/-- **Load of a reference field.** -/
theorem ends_loadRef (I : h.view.Inv W st ts) (hs : h.view.InStage st)
    (hsrc : h.view.Refers W src) (hi : i < W.ideal.refs (W.name src)) :
    Ends (loadRef src i) h fun r h' => ∃ W', h.view.Simulates W h'.view W' st ts W.ideal ∧
      h'.view.Clean W' r ∧ W'.name r = W.ideal.field (W.name src) i := by
  simp only [loadRef, ends_bind]
  refine (ends_resolve I hs (.inr hsrc)).mono fun r h₁ hR => ?_
  obtain ⟨W₁, R, -⟩ := hR
  have hc := R.current I.faithful hsrc
  have hi₁ : i < W₁.ideal.refs (W₁.name r) := by rwa [R.ideal, R.name]
  rw [ends_fieldSlot R.inv hc hi₁]
  have hcount : i < Object.refCount h₁.view.memory r := by rwa [R.inv.refCount hc]
  refine (ends_read R.inv (R.evolves.inStage hs) (.inl ⟨r, i, hc, hcount, rfl⟩)).mono
    fun r' h₂ hR' => ?_
  obtain ⟨W₂, R', -⟩ := hR'
  refine ⟨W₂, (R.toTransparent.trans R'.toTransparent I).simulates, R'.result, ?_⟩
  rw [R'.name, (R.inv.faithful.fields hc.1 hcount).2, R.ideal, R.name]

/-- **Store into a reference field.** -/
theorem ends_storeRef {n : Nat} (I : h.view.Inv W st ts) (hs : h.view.InStage st)
    (hm : h.view.mutator? m = some t) (hsrc : h.view.Refers W src)
    (hi : i < W.ideal.refs (W.name src)) (hv : h.view.Names W v n) :
    Ends (storeRef m src i v) h fun _ h' => ∃ W', h.view.Simulates W h'.view W' st ts
      (W.ideal.setField (W.name src) i n) ∧ h'.Wrote W' (W.name src) := by
  simp only [storeRef, ends_bind]
  refine (ends_resolve I hs (.inr hsrc)).mono fun o h₁ hR => ?_
  obtain ⟨W₁, R, -⟩ := hR
  have hv₁ := R.evolves.names I.faithful R.inv.faithful hv
  refine (ends_resolve R.inv (R.evolves.inStage hs) hv₁.1).mono fun x h₂ hR' => ?_
  obtain ⟨W₂, R', -⟩ := hR'
  have T := R.toTransparent.trans R'.toTransparent I
  have ho₁ := R.current I.faithful hsrc
  have ho := R'.evolves.current ho₁
  have hname : W₂.name o = W.name src := (R'.evolves.name ho₁.refers).trans R.name
  rw [ends_fieldSlot T.inv ho (by rwa [T.ideal, hname])]
  have hm₂ : h₂.view.mutator? m = some t := by
    unfold HeapView.mutator?
    rw [T.mutators]
    exact hm
  rw [ends_getState hm₂]
  refine (ends_write T.inv (T.evolves.inStage hs) (T.inv.layout.buffer_mem hm₂) ho
    (by rwa [T.inv.refCount ho, T.ideal, hname]) R'.result).mono fun _ h₃ hS => ?_
  obtain ⟨W₃, S, hwrote⟩ := hS
  rw [T.ideal, hname, R'.name, hv₁.2] at S
  exact ⟨W₃, S.of_transparent T, hname ▸ hwrote⟩

/-! ## 4. Compare-and-swap -/

/-- What a compare-and-swap makes of the ideal heap: the field is swapped if it holds the expected
object, whichever copies the references are to. -/
structure Exchanged (V : HeapView) (W : World) (V' : HeapView) (W' : World) (st : Stage)
    (ts : List MarkTask) (out : CasOutcome) (o i n x : Nat) : Prop where
  swapped : W.ideal.field o i = n → out.witness? = none ∧
    V.Simulates W V' W' st ts (W.ideal.setField o i x)
  failed : W.ideal.field o i ≠ n → ∃ w, out.witness? = some w ∧
    V.Simulates W V' W' st ts W.ideal ∧ V'.Names W' w (W.ideal.field o i)

/-- Two references are to one object exactly if the code finds that they are. -/
theorem same_iff {w e : Nat} (I : h.view.Inv W st ts) (hs : h.view.InStage st)
    (hw : w = 0 ∨ h.view.Refers W w) (he : h.view.Clean W e) (hne : w ≠ e) :
    (h.gcState.hasForwarded = true ∧ w ≠ null ∧ e ≠ null ∧
      Object.resolve h.view.memory w = Object.resolve h.view.memory e) ↔ W.name w = W.name e := by
  have F := I.faithful
  have L := I.layout
  have hfwd : h.gcState.hasForwarded = st.relocates := by
    have hg : h.gcState = st.flags := hs.1
    rw [hg]
    cases st <;> rfl
  rw [hfwd]
  constructor
  · rintro ⟨-, hw0, he0, hres⟩
    exact (F.resolve_eq_iff L (hw.resolve_left hw0) (he.refers he0)).1 hres
  · intro hn
    have hw0 : w ≠ 0 := by
      rintro rfl
      rw [F.name_zero] at hn
      exact Nat.ne_of_gt (F.name_refers_pos (he.refers (Ne.symm hne))) hn.symm
    have hw := hw.resolve_left hw0
    have he0 : e ≠ 0 := by
      rintro rfl
      rw [F.name_zero] at hn
      exact Nat.ne_of_gt (F.name_refers_pos hw) hn
    refine ⟨?_, hw0, he0, (F.resolve_eq_iff L hw (he.refers he0)).2 hn⟩
    by_contra hst
    have hc := F.current_of_calm (by simpa using hst) hw
    exact hne (F.name_inj hc.1 (he.resolve_left he0).1 hn)

/-- The swap without its other barriers: it succeeds exactly if the field holds the expected object, at
once if it holds the expected copy. -/
theorem ends_exchangeCopies {o e x : Nat} (I : h.view.Inv W st ts) (hs : h.view.InStage st)
    (ho : h.view.Current W o) (hi : i < Object.refCount h.view.memory o)
    (he : h.view.Clean W e) :
    Ends (exchangeCopies (Object.field o i) e x) h fun out h' =>
      (W.ideal.field (W.name o) i = W.name e ∧
        out = (if h.view.memory.read (Object.field o i) = e then .success else .successAfterRetry) ∧
        h'.view = { h.view with memory := h.view.memory.write (Object.field o i) x }) ∨
      (W.ideal.field (W.name o) i ≠ W.name e ∧
        out = .failure (h.view.memory.read (Object.field o i)) ∧ h'.view = h.view) := by
  have hslot : h.view.IsSlot W (Object.field o i) := .inl ⟨o, i, ho, hi, rfl⟩
  have hfield := (I.faithful.fields ho.1 hi).2
  simp only [exchangeCopies, ends_bind]
  refine ends_exchangeSlot.2 ⟨fun heq => ?_, fun hne => ?_⟩
  · have heq : h.view.memory.read (Object.field o i) = e := heq
    exact ends_pure.2 (.inl ⟨by rw [← hfield, heq], (if_pos heq).symm, rfl⟩)
  · have hne : h.view.memory.read (Object.field o i) ≠ e := hne
    have hiff := same_iff I hs (I.slot_refers hslot) he hne
    simp only [ends_bind, ends_get, ends_getMemory, ends_ite, ends_pure]
    refine ⟨fun hc => ?_, fun hc => .inr ⟨fun hn => hc (hiff.2 (hfield.trans hn)), rfl, rfl⟩⟩
    have hn := hiff.1 hc
    simp only [exchangeAgain, ends_bind, modifyBarrierStats, ends_modify]
    refine ends_exchangeSlot.2 ⟨fun _ => ends_pure.2 (.inl ⟨hfield.symm.trans hn,
      (if_neg hne).symm, rfl⟩), fun hcontra => absurd rfl hcontra⟩

/-- What is left of a compare-and-swap after the pre-write barrier. -/
def exchangeLogged (slot e x : Nat) : Action RegionHeap CasOutcome := do
  let outcome ← exchangeCopies slot e x
  if outcome.isSuccess then cardMark slot
  return outcome

/-- **After the pre-write barrier** the field is swapped and its region marked, or nothing happens. -/
theorem ends_exchangeLogged {o e x : Nat} (I : h.view.Inv W st ts) (hs : h.view.InStage st)
    (ho : h.view.Current W o) (hi : i < Object.refCount h.view.memory o)
    (he : h.view.Clean W e) (hx : h.view.Clean W x)
    (hrec : st = .marking → h.view.memory.read (Object.field o i) = 0 ∨
      h.view.satb.Recorded (h.view.memory.read (Object.field o i))) :
    Ends (exchangeLogged (Object.field o i) e x) h fun out h' =>
      (W.ideal.field (W.name o) i = W.name e ∧
        out = (if h.view.memory.read (Object.field o i) = e then .success else .successAfterRetry) ∧
        h'.view = { h.view with memory := h.view.memory.write (Object.field o i) x } ∧
        h.view.Simulates W h'.view { W with ideal := W.ideal.setField (W.name o) i (W.name x) } st ts
          (W.ideal.setField (W.name o) i (W.name x)) ∧ h'.Carded o) ∨
      (W.ideal.field (W.name o) i ≠ W.name e ∧
        out = .failure (h.view.memory.read (Object.field o i)) ∧ h'.view = h.view) := by
  simp only [exchangeLogged, ends_bind]
  refine (ends_exchangeCopies (x := x) I hs ho hi he).mono fun out h₂ hX => ?_
  rcases hX with ⟨heq, hout, hv⟩ | ⟨hne, rfl, hv⟩
  · have hsucc : out.isSuccess = true := by
      rw [hout]
      split <;> rfl
    have I₂ := I.storeField (x := x) ho.1 hi (Set.Subset.refl W.loose) (hx.imp_right .inl)
      fun hst _ => (hrec hst).imp_right fun h => .inr (.inl h)
    have E₂ := Evolves.storeField (x := x) I ho.1 hi
    rw [← hv] at I₂ E₂
    have hi₂ : i < Object.refCount h₂.view.memory o := by
      rw [I₂.refCount (E₂.current ho)]
      exact I.refCount ho ▸ hi
    simp only [hsucc, if_true, ends_bind]
    refine (ends_cardMark_field I₂.layout (I₂.faithful.published ho.1) hi₂).mono ?_
    rintro _ h₃ ⟨hv₃, hcard⟩
    rw [← hv₃] at I₂ E₂
    exact ends_pure.2 (.inl ⟨heq, hout, hv₃.trans hv, ⟨I₂, E₂, rfl⟩, hcard⟩)
  · simp only [CasOutcome.isSuccess, CasOutcome.witness?, Option.isNone_some, Bool.false_eq_true,
      if_false, ends_pure]
    exact .inr ⟨hne, trivial, hv⟩

/-- **Compare-and-swap with its barriers.** -/
theorem ends_exchange {b o e x : Nat} (I : h.view.Inv W st ts) (hs : h.view.InStage st)
    (hb : b ∈ h.view.satb.ids) (ho : h.view.Current W o) (hi : i < Object.refCount h.view.memory o)
    (he : h.view.Clean W e) (hx : h.view.Clean W x) :
    Ends (RegionHeap.exchange b (Object.field o i) e x) h fun out h' =>
      ∃ W', Exchanged h.view W h'.view W' st ts out (W.name o) i (W.name e) (W.name x) ∧
        (out.witness? = none → h'.Wrote W' (W.name o)) := by
  show Ends (do writePre b (Object.field o i); exchangeLogged (Object.field o i) e x) h _
  rw [ends_bind]
  refine (ends_writePre I hs hb (.inl ⟨o, i, ho, hi, rfl⟩)).mono fun _ h₁ G => ?_
  have hmem : h₁.view.memory = h.view.memory := by rw [G.view]
  have ho₁ := G.evolves.current ho
  have hi₁ : i < Object.refCount h₁.view.memory o := by rwa [hmem]
  refine (ends_exchangeLogged G.inv (G.evolves.inStage hs) ho₁ hi₁ (G.evolves.clean he)
    (G.evolves.clean hx) fun hst => by rw [hmem]; exact G.recorded hst).mono fun out h₂ hX => ?_
  rcases hX with ⟨heq, hout, -, S, hcard⟩ | ⟨hne, rfl, hv⟩
  · have hw : out.witness? = none := by
      rw [hout]
      split <;> rfl
    have E := G.evolves.trans S.evolves
    exact ⟨_, ⟨fun _ => ⟨hw, S.inv, E, S.ideal⟩, fun hne => absurd heq hne⟩,
      fun _ => ⟨o, E.current ho, rfl, hcard⟩⟩
  · refine ⟨W, ⟨fun heq => absurd heq hne, fun _ => ⟨_, rfl, ?_, ?_⟩⟩, fun hnone => by cases hnone⟩
    · rw [hv]
      exact ⟨G.inv, G.evolves, rfl⟩
    · rw [hv]
      exact ⟨G.inv.slot_refers (.inl ⟨o, i, ho₁, hi₁, rfl⟩), (G.inv.faithful.fields ho₁.1 hi₁).2⟩

/-- **Compare-and-swap of a reference field.** -/
theorem ends_casRef {e x ne nx : Nat} (I : h.view.Inv W st ts) (hs : h.view.InStage st)
    (hm : h.view.mutator? m = some t) (hsrc : h.view.Refers W src)
    (hi : i < W.ideal.refs (W.name src)) (he : h.view.Names W e ne) (hx : h.view.Names W x nx) :
    Ends (casRef m src i e x) h fun out h' =>
      ∃ W', Exchanged h.view W h'.view W' st ts out (W.name src) i ne nx ∧
        (out.witness? = none → h'.Wrote W' (W.name src)) := by
  simp only [casRef, ends_bind]
  refine (ends_resolve I hs (.inr hsrc)).mono fun o h₁ hR => ?_
  obtain ⟨W₁, R₁, -⟩ := hR
  have he₁ := R₁.evolves.names I.faithful R₁.inv.faithful he
  refine (ends_resolve R₁.inv (R₁.evolves.inStage hs) he₁.1).mono fun e' h₂ hR => ?_
  obtain ⟨W₂, R₂, -⟩ := hR
  have T₂ := R₁.toTransparent.trans R₂.toTransparent I
  have hx₂ := T₂.evolves.names I.faithful T₂.inv.faithful hx
  refine (ends_resolve T₂.inv (T₂.evolves.inStage hs) hx₂.1).mono fun x' h₃ hR => ?_
  obtain ⟨W₃, R₃, -⟩ := hR
  have T := T₂.trans R₃.toTransparent I
  have ho₁ := R₁.current I.faithful hsrc
  have E' := R₂.evolves.trans R₃.evolves
  have ho := E'.current ho₁
  have hname : W₃.name o = W.name src := (E'.name ho₁.refers).trans R₁.name
  rw [ends_fieldSlot T.inv ho (by rwa [T.ideal, hname])]
  have hm₃ : h₃.view.mutator? m = some t := by
    unfold HeapView.mutator?
    rw [T.mutators]
    exact hm
  rw [ends_getState hm₃]
  have hcount : i < Object.refCount h₃.view.memory o := by
    rwa [T.inv.refCount ho, T.ideal, hname]
  refine (ends_exchange T.inv (T.evolves.inStage hs) (T.inv.layout.buffer_mem hm₃) ho hcount
    (R₃.evolves.clean R₂.result) R₃.result).mono fun out h₄ hX => ?_
  obtain ⟨W₄, X, hwrote⟩ := hX
  have hne : W₃.name e' = ne := by
    have h2 := R₃.evolves.names R₂.inv.faithful R₃.inv.faithful R₂.result.names
    rw [h2.2, R₂.name, he₁.2]
  have hnx : W₃.name x' = nx := R₃.name.trans hx₂.2
  rw [hname, hne, hnx] at X
  rw [hname] at hwrote
  refine ⟨W₄, ⟨fun heq => ?_, fun hneq => ?_⟩, hwrote⟩
  · obtain ⟨h1, S⟩ := X.swapped (by rw [T.ideal]; exact heq)
    rw [T.ideal] at S
    exact ⟨h1, S.of_transparent T⟩
  · obtain ⟨w, h1, S, h2⟩ := X.failed (by rw [T.ideal]; exact hneq)
    rw [T.ideal] at S h2
    exact ⟨w, h1, S.of_transparent T, h2⟩

/-! ## 5. Runs of fields -/

/-- The order in which the slots of two runs are copied that start at `a` and at `b`. -/
def copyOrder (a b len : Nat) : List Nat :=
  if a < b then (List.range len).reverse else List.range len

theorem mem_copyOrder {a b len k : Nat} : k ∈ copyOrder a b len ↔ k < len := by
  unfold copyOrder
  split <;> simp

theorem not_mem_rest_of_copyOrder {a b len k : Nat} {done rest : List Nat}
    (h : copyOrder a b len = done ++ k :: rest) : k ∉ rest := by
  have hnodup : (copyOrder a b len).Nodup := by
    unfold copyOrder
    split
    · exact List.nodup_reverse.2 List.nodup_range
    · exact List.nodup_range
  rw [h] at hnodup
  exact (List.nodup_cons.1 (List.nodup_append.1 hnodup).2.1).1

section
variable {H : Type} [Heap H]

/-- What is left of a copy when the slots are known. -/
def copySlots (buffer a b len : Nat) : Action H Unit := do
  Heap.barriers.copyPre buffer ⟨b, len⟩
  Action.each (copyOrder a b len) (copyRef ⟨a, len⟩ ⟨b, len⟩)
  Heap.barriers.copyPost ⟨b, len⟩

/-- What is left of a copy when both objects were resolved. -/
def copyResolved (m src si dst di len : Nat) : Action H Unit := do
  let memory ← getMemory
  let last ← sum si len
  require (last ≤ Object.refCount memory src)
  let last ← sum di len
  require (last ≤ Object.refCount memory dst)
  let first ← fieldSlot src si
  let source ← SlotRange.make first len
  let first ← fieldSlot dst di
  let target ← SlotRange.make first len
  let t ← getState m
  Heap.barriers.copyPre t.buffer target
  let order := if source.start < target.start then (List.range len).reverse else List.range len
  Action.each order (copyRef source target)
  Heap.barriers.copyPost target

theorem copyRefs_of_ne {m src si dst di len : Nat} (hlen : len ≠ 0) :
    (copyRefs m src si dst di len : Action H Unit) = (do
      let src ← resolve src
      let dst ← resolve dst
      copyResolved m src si dst di len) := if_neg hlen

/-- **The checks of a copy are passed** when the runs are inside of the objects. -/
theorem ends_copyResolved {h : H} {mem : Memory} {m src si dst di len : Nat} {t : Mutator}
    {post : Unit → H → Prop} (hmem : HasMemory.memory h = mem) (hs : Object.Fits mem src)
    (hd : Object.Fits mem dst) (hsi : si + len ≤ Object.refCount mem src)
    (hdi : di + len ≤ Object.refCount mem dst) (hlen : len ≠ 0)
    (ht : (Heap.core h).mutators[m]?.join = some t) :
    Ends (copyResolved m src si dst di len) h post ↔
      Ends (copySlots t.buffer (Object.field src si) (Object.field dst di) len) h post := by
  have hlt {o : Nat} (hfit : Object.Fits mem o) : Object.refCount mem o < wordLimit := by
    have h1 := hfit.fields_le
    have h2 := hfit.size_le
    simp only [Object.maxSize_eq, Object.wordLimit_eq] at *
    omega
  have hsum {o i : Nat} (hfit : Object.Fits mem o) (hi : i + len ≤ Object.refCount mem o) :
      sum i len = .ok (i + len) := sum_eq_ok.2 ⟨Nat.lt_of_le_of_lt hi (hlt hfit), rfl⟩
  have hslot {o i : Nat} (hfit : Object.Fits mem o) (hi : i + len ≤ Object.refCount mem o) :
      Object.fieldSlot mem o i = .ok (Object.field o i) :=
    Object.fieldSlot_eq hfit.aligned (by omega)
  have hmake {o i : Nat} (hfit : Object.Fits mem o) :
      SlotRange.make (Object.field o i) len = .ok ⟨Object.field o i, len⟩ := by
    have := hfit.aligned
    simp only [SlotRange.make, Except.bind_eq_ok, require_eq_ok, isAligned_wordBytes,
      Except.pure_eq_ok]
    exact ⟨(), by simp only [Object.field]; omega, trivial⟩
  have hrequire {o i : Nat} (hi : i + len ≤ Object.refCount mem o) :
      require (i + len ≤ Object.refCount mem o) = .ok () := require_eq_ok.2 hi
  simp only [copyResolved, copySlots, copyOrder, fieldSlot, getState, ends_bind, ends_getMemory,
    ends_get, ends_lift, hmem, hsum hs hsi, hsum hd hdi, hrequire hsi, hrequire hdi, hslot hs hsi,
    hslot hd hdi, hmake hs, hmake hd, ht, ends_pure, Except.ok.injEq, exists_eq_left', true_and,
    exists_const]

end

/-- The slot with an index in a run of fields. -/
theorem slot_eq {V : HeapView} {o i len k : Nat} (L : V.Layout) (ho : V.Published o)
    (hlen : i + len ≤ Object.refCount V.memory o) (hk : k < len) :
    SlotRange.slot ⟨Object.field o i, len⟩ k = .ok (Object.field o (i + k)) :=
  (L.objects.fits ho).slot_eq hlen hk

/-- The pre-write barriers of the first `len` fields of a run have run. -/
structure LoggedRun (V : HeapView) (W : World) (V' : HeapView) (st : Stage) (ts : List MarkTask)
    (o i len : Nat) : Prop where
  inv : V'.Inv W st ts
  evolves : V.Evolves W V' W
  view : V' = { V with satb := V'.satb }
  ids : V'.satb.ids = V.satb.ids
  recorded : st = .marking → ∀ k < len, V.memory.read (Object.field o (i + k)) = 0 ∨
    V'.satb.Recorded (V.memory.read (Object.field o (i + k)))

/-- Before a run of fields is overwritten, what they hold is recorded. -/
theorem ends_copyPre {b o i len : Nat} (I : h.view.Inv W st ts) (hs : h.view.InStage st)
    (hb : b ∈ h.view.satb.ids) (ho : h.view.Current W o)
    (hlen : i + len ≤ Object.refCount h.view.memory o) :
    Ends (copyPre b ⟨Object.field o i, len⟩) h fun _ h' =>
      LoggedRun h.view W h'.view st ts o i len := by
  have hstart : LoggedRun h.view W h.view st ts o i 0 :=
    ⟨I, Evolves.refl _ _, rfl, rfl, fun _ k hk => absurd hk (Nat.not_lt_zero k)⟩
  simp only [copyPre, ends_bind, ends_get, ends_ite, ends_pure, marking_eq hs, decide_eq_true_eq]
  refine ⟨fun _ => ?_, fun hst => ⟨I, Evolves.refl _ _, rfl, rfl, fun h => absurd h hst⟩⟩
  refine ends_upTo (fun k (h' : RegionHeap) => LoggedRun h.view W h'.view st ts o i k) hstart
    fun k h₁ hk G => ?_
  have hmem : h₁.view.memory = h.view.memory := by rw [G.view]
  have ho₁ := G.evolves.current ho
  have hlen₁ : i + len ≤ Object.refCount h₁.view.memory o := by rwa [hmem]
  have hslot := slot_eq G.inv.layout (G.inv.faithful.published ho₁.1) hlen₁ hk
  rw [Nat.zero_add]
  simp only [ends_bind, ends_lift, hslot]
  refine ⟨_, rfl, (ends_writePre G.inv (G.evolves.inStage hs) (G.ids ▸ hb)
    (.inl ⟨o, i + k, ho₁, by omega, rfl⟩)).mono fun _ h₂ G' => ?_⟩
  refine ⟨G'.inv, G.evolves.trans G'.evolves, ?_, G'.ids.trans G.ids, fun hst j hj => ?_⟩
  · rw [G'.view, G.view]
  · by_cases hjk : j = k
    · subst hjk
      have := G'.recorded hst
      rwa [hmem] at this
    · exact (G.recorded hst j (by omega)).imp_right G'.kept

/-- After a run of fields was overwritten, the region of the object is marked, and nothing more is
seen to change. -/
theorem ends_copyPost {o i len : Nat} (L : h.view.Layout) (ho : h.view.Published o)
    (hlen : i + len ≤ Object.refCount h.view.memory o) :
    Ends (copyPost ⟨Object.field o i, len⟩) h fun _ h' =>
      h'.view = h.view ∧ (len ≠ 0 → h'.Carded o) := by
  simp only [copyPost, ends_ite, ends_pure, ends_bind, ends_lift]
  refine ⟨fun h0 => ⟨_, slot_eq L ho hlen (Nat.pos_of_ne_zero h0), ?_⟩,
    fun h0 => ⟨trivial, fun hne => absurd hne h0⟩⟩
  refine (ends_cardMark L).mono fun _ h₁ hc => ⟨_, slot_eq L ho hlen (by omega), ?_⟩
  rw [← hc.1] at L ho hlen
  refine (ends_cardMark_field L ho (by omega)).mono fun _ h₂ hc' => ?_
  exact ⟨hc'.1.trans hc.1, fun _ => hc'.2⟩

/-- What holds in the middle of a run of copies: the fields `done` were copied, and what the fields
`rest` hold is recorded. -/
structure Copying (V : HeapView) (W : World) (V' : HeapView) (W' : World) (st : Stage)
    (ts : List MarkTask) (src si dst di : Nat) (done rest : List Nat) : Prop where
  inv : V'.Inv W' st ts
  evolves : V.Evolves W V' W'
  ideal : W'.ideal =
    done.foldl (IdealHeap.copyField (W.name src) si (W.name dst) di) W.ideal
  recorded : st = .marking → ∀ k ∈ rest, V'.memory.read (Object.field dst (di + k)) = 0 ∨
    V'.satb.Recorded (V'.memory.read (Object.field dst (di + k)))

/-- One field of a run is copied. -/
theorem ends_copyRef {V : HeapView} {W₀ : World} {src si dst di len k : Nat}
    {done rest : List Nat} (C : Copying V W₀ h.view W st ts src si dst di done (k :: rest))
    (hs : h.view.InStage st) (hsrc : V.Current W₀ src)
    (hdst : V.Current W₀ dst) (hsi : si + len ≤ W₀.ideal.refs (W₀.name src))
    (hdi : di + len ≤ W₀.ideal.refs (W₀.name dst)) (hk : k < len) (hrest : k ∉ rest) :
    Ends (copyRef (H := RegionHeap) ⟨Object.field src si, len⟩ ⟨Object.field dst di, len⟩ k) h
      fun _ h' => ∃ W', Copying V W₀ h'.view W' st ts src si dst di (done ++ [k]) rest := by
  have hsrc₁ := C.evolves.current hsrc
  have hdst₁ := C.evolves.current hdst
  have hnsrc := C.evolves.name hsrc.refers
  have hndst := C.evolves.name hdst.refers
  have hrefs : W.ideal.refs = W₀.ideal.refs := by
    rw [C.ideal, IdealHeap.foldl_copyField_rest]
  have hcsrc : si + len ≤ Object.refCount h.view.memory src := by
    rwa [C.inv.refCount hsrc₁, hrefs, hnsrc]
  have hcdst : di + len ≤ Object.refCount h.view.memory dst := by
    rwa [C.inv.refCount hdst₁, hrefs, hndst]
  have hslot : h.view.IsSlot W (Object.field src (si + k)) :=
    .inl ⟨src, si + k, hsrc₁, by omega, rfl⟩
  have hfield := (C.inv.faithful.fields hsrc₁.1 (i := si + k) (by omega)).2
  simp only [copyRef, ends_bind, ends_lift]
  refine ⟨_, slot_eq C.inv.layout (C.inv.faithful.published hsrc₁.1) hcsrc hk, ?_⟩
  refine (ends_read C.inv hs hslot).mono fun x h₂ hR => ?_
  obtain ⟨W₂, R, hcalm⟩ := hR
  have hdst₂ := R.evolves.current hdst₁
  have hndst₂ := (R.evolves.name hdst₁.refers).trans hndst
  have hcount : Object.refCount h₂.view.memory dst = Object.refCount h.view.memory dst :=
    R.toTransparent.refCount C.inv hdst₁
  refine ⟨_, slot_eq R.inv.layout (R.inv.faithful.published hdst₂.1) (by rwa [hcount]) hk, ?_⟩
  rw [ends_storeSlot]
  have hi : di + k < Object.refCount h₂.view.memory dst := by omega
  have I₃ := R.inv.storeField (x := x) hdst₂.1 hi (Set.Subset.refl W₂.loose)
    (R.result.imp_right .inl) fun hst _ => by
      obtain ⟨rfl, rfl⟩ := hcalm (by rw [hst]; rfl)
      exact (C.recorded hst k (by simp)).imp_right fun h => .inr (.inl h)
  have E₃ := Evolves.storeField (x := x) R.inv hdst₂.1 hi
  refine ⟨_, I₃, (C.evolves.trans R.evolves).trans E₃, ?_, fun hst j hj => ?_⟩
  · rw [List.foldl_append, List.foldl_cons, List.foldl_nil, ← C.ideal, IdealHeap.copyField,
      ← hnsrc, ← hfield, hndst₂, R.name, R.ideal]
  · obtain ⟨rfl, rfl⟩ := hcalm (by rw [hst]; rfl)
    have hne : Object.field dst (di + k) ≠ Object.field dst (di + j) := by
      have : j ≠ k := fun he => hrest (he ▸ hj)
      simp only [Object.field]
      omega
    have := C.recorded hst j (by simp [hj])
    show (h₂.view.memory.write _ x).read _ = 0 ∨ h₂.view.satb.Recorded ((h₂.view.memory.write _ x).read _)
    rwa [Memory.read_write_of_ne _ hne]

/-- What is known of the two objects of a copy when both were resolved. -/
structure CopyReady (V : HeapView) (W : World) (V' : HeapView) (W' : World) (st : Stage)
    (ts : List MarkTask) (src si dst di len s d : Nat) : Prop where
  transparent : V.Transparent W V' W' st ts
  source : V'.Current W' s
  target : V'.Current W' d
  source_name : W'.name s = W.name src
  target_name : W'.name d = W.name dst
  source_le : si + len ≤ Object.refCount V'.memory s
  target_le : di + len ≤ Object.refCount V'.memory d

/-- The objects of a copy are resolved one after the other. -/
theorem CopyReady.of_resolved {V V₁ V₂ : HeapView} {W₁ W₂ : World} {si dst di len s d : Nat}
    (I : V.Inv W st ts) (hsrc : V.Refers W src) (hdst : V.Refers W dst)
    (R₁ : V.Resolved W src V₁ W₁ s st ts) (R₂ : V₁.Resolved W₁ dst V₂ W₂ d st ts)
    (hsi : si + len ≤ W.ideal.refs (W.name src)) (hdi : di + len ≤ W.ideal.refs (W.name dst)) :
    CopyReady V W V₂ W₂ st ts src si dst di len s d := by
  have T := R₁.toTransparent.trans R₂.toTransparent I
  have hs := R₁.current I.faithful hsrc
  have hsc := R₂.evolves.current hs
  have hdst₁ := R₁.evolves.refers hdst
  have hdc := R₂.current R₁.inv.faithful hdst₁.1
  have hsn : W₂.name s = W.name src := (R₂.evolves.name hs.refers).trans R₁.name
  have hdn : W₂.name d = W.name dst := R₂.name.trans hdst₁.2
  refine ⟨T, hsc, hdc, hsn, hdn, ?_, ?_⟩
  · rwa [T.inv.refCount hsc, T.ideal, hsn]
  · rwa [T.inv.refCount hdc, T.ideal, hdn]

/-- The ideal heap when the fields were copied in the order of the code. -/
theorem CopyReady.foldl_copyField {V V' : HeapView} {W' : World} {si dst di len s d : Nat}
    (C : CopyReady V W V' W' st ts src si dst di len s d) :
    (copyOrder (Object.field s si) (Object.field d di) len).foldl
        (IdealHeap.copyField (W'.name s) si (W'.name d) di) W'.ideal =
      W.ideal.copyFields (W.name src) si (W.name dst) di len := by
  have hdown : W.name src = W.name dst →
      decide (Object.field s si < Object.field d di) = decide (si < di) := by
    intro he
    have : s = d := C.transparent.inv.faithful.name_inj C.source.1 C.target.1 (by
      rw [C.source_name, C.target_name, he])
    subst this
    simp only [Object.field]
    exact decide_eq_decide.2 (by omega)
  rw [C.source_name, C.target_name, C.transparent.ideal, ← IdealHeap.foldl_copyField_eq hdown,
    copyOrder]
  simp only [decide_eq_true_eq]

/-- **Copy of a run of reference fields**, which may overlap. -/
theorem ends_copyRefs {si dst di len : Nat} (I : h.view.Inv W st ts) (hs : h.view.InStage st)
    (hm : h.view.mutator? m = some t) (hlen : len ≠ 0) (hsrc : h.view.Refers W src)
    (hdst : h.view.Refers W dst) (hsi : si + len ≤ W.ideal.refs (W.name src))
    (hdi : di + len ≤ W.ideal.refs (W.name dst)) :
    Ends (copyRefs m src si dst di len) h fun _ h' => ∃ W', h.view.Simulates W h'.view W' st ts
      (W.ideal.copyFields (W.name src) si (W.name dst) di len) ∧ h'.Wrote W' (W.name dst) := by
  rw [copyRefs_of_ne hlen, ends_bind]
  refine (ends_resolve I hs (.inr hsrc)).mono fun s h₁ hR => ?_
  obtain ⟨W₁, R₁, -⟩ := hR
  rw [ends_bind]
  refine (ends_resolve R₁.inv (R₁.evolves.inStage hs) (.inr (R₁.evolves.refers hdst).1)).mono
    fun d h₂ hR => ?_
  obtain ⟨W₂, R₂, -⟩ := hR
  have C := CopyReady.of_resolved I hsrc hdst R₁ R₂ hsi hdi
  have T := C.transparent
  have L := T.inv.layout
  have F := T.inv.faithful
  have hm₂ : h₂.view.mutator? m = some t := by
    unfold HeapView.mutator?
    rw [T.mutators]
    exact hm
  refine (ends_copyResolved (h := h₂) rfl (L.objects.fits (F.published C.source.1))
    (L.objects.fits (F.published C.target.1)) C.source_le C.target_le hlen hm₂).2 ?_
  simp only [copySlots, ends_bind]
  have hs₂ := T.evolves.inStage hs
  refine (ends_copyPre T.inv hs₂ (L.buffer_mem hm₂) C.target C.target_le).mono fun _ h₃ G => ?_
  have hmem₃ : h₃.view.memory = h₂.view.memory := by rw [G.view]
  have hsc₃ := G.evolves.current C.source
  have hdc₃ := G.evolves.current C.target
  refine (ends_each (fun done rest (h' : RegionHeap) =>
    ∃ W', Copying h₃.view W₂ h'.view W' st ts s si d di done rest)
    ⟨W₂, G.inv, Evolves.refl _ _, rfl, fun hst k hk => ?_⟩
    fun done k rest h₄ hsplit hC => ?_).mono fun _ h₄ hC => ?_
  · have := G.recorded hst k (mem_copyOrder.1 hk)
    rwa [hmem₃]
  · obtain ⟨W₄, C₄⟩ := hC
    exact ends_copyRef C₄ ((G.evolves.trans C₄.evolves).inStage hs₂) hsc₃ hdc₃
      (T.inv.refCount C.source ▸ C.source_le) (T.inv.refCount C.target ▸ C.target_le)
      (mem_copyOrder.1 (by rw [hsplit]; simp)) (not_mem_rest_of_copyOrder hsplit)
  · obtain ⟨W₄, C₄⟩ := hC
    have hdc₄ := C₄.evolves.current hdc₃
    have hcd₄ : di + len ≤ Object.refCount h₄.view.memory d := by
      rw [C₄.inv.refCount hdc₄, C₄.ideal, IdealHeap.foldl_copyField_rest, C₄.evolves.name hdc₃.refers,
        ← T.inv.refCount C.target]
      exact C.target_le
    refine (ends_copyPost C₄.inv.layout (C₄.inv.faithful.published hdc₄.1) hcd₄).mono ?_
    rintro _ h₅ ⟨hv, hcard⟩
    refine ⟨W₄, ?_, d, hv ▸ hdc₄, (C₄.evolves.name hdc₃.refers).trans C.target_name, hcard hlen⟩
    rw [hv]
    exact ⟨C₄.inv, (T.evolves.trans G.evolves).trans C₄.evolves, C₄.ideal.trans C.foldl_copyField⟩

/-! ## 6. Payload words -/

/-- The address of a payload word of the current copy. -/
theorem ends_payloadWord {k : Nat} (I : h.view.Inv W st ts) (hs : h.view.InStage st)
    (hsrc : h.view.Refers W src) (hk : 8 ∣ k) (hle : k + 8 ≤ W.ideal.bytes (W.name src)) :
    Ends (payloadWord src k) h fun a h' => ∃ W' o, h.view.Transparent W h'.view W' st ts ∧
      h'.view.Current W' o ∧ W'.name o = W.name src ∧
      k + 8 ≤ Object.payloadBytes h'.view.memory o ∧
      a = o + 16 + 8 * Object.refCount h'.view.memory o + k := by
  simp only [payloadWord, ends_bind]
  refine (ends_resolve I hs (.inr hsrc)).mono fun o h₁ hR => ?_
  obtain ⟨W₁, R, -⟩ := hR
  have hc := R.current I.faithful hsrc
  have hb : k + 8 ≤ Object.payloadBytes h₁.view.memory o := by
    rwa [R.inv.faithful.bytes hc.1, R.ideal, R.name]
  have hfit := R.inv.layout.objects.fits (R.inv.faithful.published hc.1)
  have hmem : (HasMemory.memory h₁ : Memory) = h₁.view.memory := rfl
  simp only [ends_getMemory, ends_lift, hmem]
  exact ⟨_, hfit.payloadWord_eq hk hb, W₁, o, R.toTransparent, hc, R.name, hb, rfl⟩

/-- **Load of a payload word.** -/
theorem ends_loadWord {k : Nat} (I : h.view.Inv W st ts) (hs : h.view.InStage st)
    (hsrc : h.view.Refers W src) (hk : 8 ∣ k) (hle : k + 8 ≤ W.ideal.bytes (W.name src)) :
    Ends (loadWord src k) h fun x h' => x = W.ideal.word (W.name src) k ∧
      ∃ W', h.view.Simulates W h'.view W' st ts W.ideal := by
  simp only [loadWord, ends_bind]
  refine (ends_payloadWord I hs hsrc hk hle).mono fun a h₁ hA => ?_
  obtain ⟨W₁, o, T, hc, hn, hb, rfl⟩ := hA
  rw [ends_loadSlot]
  refine ⟨?_, W₁, T.simulates⟩
  rw [← hn, ← T.ideal]
  exact T.inv.faithful.words hc.1 hk hb

/-- **Store of a payload word.** -/
theorem ends_storeWord {k x : Nat} (I : h.view.Inv W st ts) (hs : h.view.InStage st)
    (hsrc : h.view.Refers W src) (hk : 8 ∣ k) (hle : k + 8 ≤ W.ideal.bytes (W.name src)) :
    Ends (storeWord src k x) h fun _ h' => ∃ W', h.view.Simulates W h'.view W' st ts
      (W.ideal.setWord (W.name src) k x) := by
  simp only [storeWord, ends_bind]
  refine (ends_payloadWord I hs hsrc hk hle).mono fun a h₁ hA => ?_
  obtain ⟨W₁, o, T, hc, hn, hb, rfl⟩ := hA
  rw [ends_storeSlot]
  obtain ⟨I₂, E₂⟩ := T.inv.storeWord (x := x) hc.1 hk hb
  rw [hn, T.ideal] at I₂ E₂
  exact ⟨_, I₂, T.evolves.trans E₂, rfl⟩

/-! ## 7. Roots -/

/-- **Load of a root.** -/
theorem ends_loadRoot {slot : Nat} (I : h.view.Inv W st ts) (hs : h.view.InStage st)
    (hslot : h.view.HasRoot slot) :
    Ends (loadRoot slot) h fun r h' => ∃ W', h.view.Simulates W h'.view W' st ts W.ideal ∧
      h'.view.Clean W' r ∧ W'.name r = W.ideal.root slot := by
  refine (ends_read I hs (.inr hslot)).mono fun r h₁ hR => ?_
  obtain ⟨W₁, R, -⟩ := hR
  obtain ⟨c, hc, hl, rfl⟩ := hslot
  exact ⟨W₁, R.simulates, R.result, R.name.trans (I.faithful.roots hc hl).2⟩

/-- **Store into a root.** -/
theorem ends_storeRoot {slot n : Nat} (I : h.view.Inv W st ts) (hs : h.view.InStage st)
    (hslot : rootBase ≤ slot) (hv : h.view.Names W v n) :
    Ends (storeRoot slot v) h fun _ h' => ∃ W', h.view.Simulates W h'.view W' st ts
      (W.ideal.setRoot slot n) := by
  simp only [storeRoot, ends_bind]
  refine (ends_resolve I hs hv.1).mono fun x h₁ hR => ?_
  obtain ⟨W₁, R, -⟩ := hR
  rw [ends_storeSlot]
  obtain ⟨I₂, E₂⟩ := R.inv.storeRoot hslot R.result
  rw [R.name, hv.2, R.ideal] at I₂ E₂
  exact ⟨_, I₂, R.evolves.trans E₂, rfl⟩

/-- **A new root.**  Its slot is the next one, as it is in the ideal heap. -/
theorem ends_newRoot {n : Nat} (I : h.view.Inv W st ts) (hs : h.view.InStage st)
    (hv : h.view.Names W v n) :
    Ends (newRoot v) h fun slot h' => slot = W.ideal.nextSlot ∧ h'.view.HasRoot slot ∧
      ∃ W', h.view.Simulates W h'.view W' st ts (W.ideal.addRoot n) := by
  simp only [newRoot, ends_bind]
  refine (ends_resolve I hs hv.1).mono fun x h₁ hR => ?_
  obtain ⟨W₁, R, -⟩ := hR
  have hreg := R.inv.faithful.registered
  have hnext : h₁.view.roots.nextSlot = W.ideal.nextSlot := by
    simp only [RootSet.nextSlot, IdealHeap.nextSlot, hreg, R.ideal]
  have hge : rootBase ≤ h₁.view.roots.nextSlot := Nat.le_add_right _ _
  obtain ⟨I₂, E₂⟩ := R.inv.storeRoot hge R.result
  have hcells : ∀ c ∈ h₁.view.roots.register.cells,
      ∃ k < h₁.view.roots.register.registered, c.slot = rootBase + 8 * k := by
    intro c hc
    simp only [RootSet.register, List.mem_append, List.mem_singleton] at hc ⊢
    rcases hc with hc | rfl
    · obtain ⟨k, hk, he⟩ := R.inv.layout.roots c hc
      exact ⟨k, Nat.lt_succ_of_lt hk, he⟩
    · exact ⟨h₁.view.roots.registered, Nat.lt_succ_self _, rfl⟩
  obtain ⟨I₃, E₃⟩ := I₂.setRoots (r := h₁.view.roots.register)
    (J := { W₁.ideal.setRoot h₁.view.roots.nextSlot (W₁.name x) with
      registered := W₁.ideal.registered + 1 }) hcells rfl
    (fun {c} hc hl => by
      simp only [RootSet.register, List.mem_append, List.mem_singleton] at hc
      rcases hc with hc | rfl
      · exact I₂.faithful.roots hc hl
      · refine ⟨?_, ?_⟩
        · show RootOk _ _ _ ((h₁.view.memory.write _ x).read _)
          rw [Memory.read_write_self]
          exact (E₂.clean R.result).imp_right .inl
        · show W₁.name ((h₁.view.memory.write _ x).read _) =
            Function.update W₁.ideal.root h₁.view.roots.nextSlot (W₁.name x) _
          rw [Memory.read_write_self, Function.update_self])
    (congrArg (· + 1) hreg)
  simp only [Heap.onRoots, ends_onPart, RootSet.newRoot, ends_bind, ends_get, ends_set, ends_pure]
  refine ⟨hnext, ⟨_, List.mem_append_right _ List.mem_cons_self, rfl, rfl⟩, _, I₃,
    (R.evolves.trans E₂).trans
    ⟨E₃, fun h => h, fun hc _ => List.mem_append_left _ hc⟩, ?_⟩
  simp only [hnext, R.name, hv.2, R.ideal]
  rfl

/-- **A root is dropped**, and the other roots stay. -/
theorem ends_dropRoot {slot : Nat} (I : h.view.Inv W st ts) :
    Ends (dropRoot slot) h fun _ h' => h'.view.Inv W st ts ∧ h.view.Persists W h'.view W ∧
      h'.view.mutators = h.view.mutators ∧
      ∀ {a}, a ≠ slot → h.view.HasRoot a → h'.view.HasRoot a := by
  simp only [dropRoot, Heap.modifyCore, ends_modify]
  have hmem {c : RootCell} (hc : c ∈ (h.view.roots.drop slot).cells) :
      ∃ d ∈ h.view.roots.cells, c.slot = d.slot ∧ (c.live = true → c = d) := by
    simp only [RootSet.drop, List.mem_map] at hc
    obtain ⟨d, hd, rfl⟩ := hc
    refine ⟨d, hd, ?_, ?_⟩
    · split <;> rfl
    · split <;> simp
  have hcells : ∀ c ∈ (h.view.roots.drop slot).cells,
      ∃ k < h.view.roots.registered, c.slot = rootBase + 8 * k := by
    intro c hc
    obtain ⟨d, hd, he, -⟩ := hmem hc
    rw [he]
    exact I.layout.roots d hd
  obtain ⟨I', E⟩ := I.setRoots (r := h.view.roots.drop slot) (J := W.ideal) hcells rfl
    (fun {c} hc hl => by
      obtain ⟨d, hd, -, he⟩ := hmem hc
      have := he hl
      subst this
      exact I.faithful.roots hd hl)
    I.faithful.registered
  refine ⟨I', E, rfl, ?_⟩
  rintro a hne ⟨c, hc, hl, hs⟩
  exact ⟨c, List.mem_map.2 ⟨c, hc, if_neg fun he => hne (hs.symm.trans he)⟩, hl, hs⟩

end Mutator

end ManagedHeap
