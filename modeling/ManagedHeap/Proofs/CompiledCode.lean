/-
# Compiled code

Compiled code accesses references by itself, and calls stubs around its accesses; a mutator has
operations that do all in one.  The two are written apart, in different orders, and record what they
overwrite in different buffers.  Here they are shown to do the same to the heap: from one state they
end in twins (`RegionHeap.Twin`), whatever the phase of the cycle, and whichever copies the references
are to.

The orders differ for stores: a stub records what the slot holds before it resolves the new value, and
a mutator does so after.  That is the same since nothing is recorded while copies exist, and nothing
is resolved while there are none.

* Section 1: the registers that a stub changes.
* Section 2: the accesses that compiled code makes with the stubs.
* Sections 3 and 4: that they do what the operations of a mutator do.
* Section 5: programs of which parts are compiled.
-/
import ManagedHeap.Proofs.Lockstep
import ManagedHeap.Proofs.Operands
import ManagedHeap.Proofs.Partial
import ManagedHeap.RegionHeap.Stubs

namespace ManagedHeap

/-! ## 1. Registers -/

/-- Whether the stub of a kind gives a result. -/
def AccessKind.hasResult : AccessKind → Bool
  | .load | .storePre | .compareAndSwap => true
  | .storePost | .arrayCopyPre | .arrayCopyPost | .clonePre => false

namespace RegionHeap

variable {kind : AccessKind} {f f' : Frame} {h h' : RegionHeap}

theorem after_stubResult (hk : kind.hasResult = false) :
    After (stubResult kind f) h fun r _ => r = f.scratch₀ := by
  cases kind with
  | load | storePre | compareAndSwap => cases hk
  | storePost | arrayCopyPre | arrayCopyPost =>
    exact after_second fun _ _ => after_second fun _ _ => after_pure.2 rfl
  | clonePre => exact after_second fun _ _ => after_pure.2 rfl

/-- **A stub changes no register but the first scratch register**, and that only if it has a
result. -/
theorem callStub_frame (hc : callStub true kind f h = .ok f' h') :
    f' = { f with scratch₀ := f'.scratch₀ } ∧ (kind.hasResult = false → f' = f) := by
  have hframe : After (callStub true kind f) h fun f' _ =>
      f' = { f with scratch₀ := f'.scratch₀ } ∧ (kind.hasResult = false → f' = f) := by
    simp only [callStub, if_true, after_bind, after_pure]
    intro r h₁ hr
    refine ⟨trivial, fun hk => ?_⟩
    rw [after_stubResult hk r h₁ hr]
  exact hframe _ _ hc

end RegionHeap

/-! ## 2. Accesses -/

namespace Compiled

open RegionHeap

/-- The slot is read, and the stub gives the reference to use. -/
def load (f : Frame) : Action RegionHeap Nat := do
  let v ← loadSlot f.slot
  let f ← callStub true .load { f with scratch₀ := v }
  return f.scratch₀

/-- What the first stub gives in place of the reference in the first scratch register is stored
between the stubs. -/
def store (f : Frame) : Action RegionHeap Unit := do
  let f ← callStub true .storePre f
  storeSlot f.slot f.scratch₀
  let _ ← callStub true .storePost f

/-- The stub does all of a compare-and-swap. -/
def compareAndSwap (f : Frame) : Action RegionHeap Nat := do
  let f ← callStub true .compareAndSwap f
  return f.scratch₀

section
variable {f : Frame}

theorem slotAt_ne_zero (hs : Memory.slotAt f.slot = .ok f.slot) : f.slot ≠ 0 := by
  simp only [Memory.slotAt, Except.bind_eq_ok, require_eq_ok] at hs
  exact hs.choose_spec.1

theorem callStub_load (hs : Memory.slotAt f.slot = .ok f.slot) :
    callStub true .load f = do
      let r ← loadBarrier (some f.slot) f.scratch₀
      return { f with scratch₀ := r } := by
  have h0 := slotAt_ne_zero hs
  simp only [callStub, if_true, stubResult, if_neg h0, hs, liftM_ok, pure_bind]

/-- A load is a read with its barrier. -/
theorem load_eq (hs : Memory.slotAt f.slot = .ok f.slot) : load f = barriers.read f.slot := by
  have hload (v : Nat) := callStub_load (f := { f with scratch₀ := v }) hs
  simp only [load, hload, bind_assoc, pure_bind, bind_pure]
  rfl

/-- A store resolves what it stores after it has recorded what the slot holds. -/
theorem store_eq (hs : Memory.slotAt f.slot = .ok f.slot) :
    store f = (do
      writePre SatbQueues.shared f.slot
      let v ← loadBarrier none f.scratch₀
      storeSlot f.slot v
      cardMark f.slot) := by
  simp only [store, callStub, if_true, stubResult, hs, liftM_ok, bind_assoc, pure_bind, bind_pure_unit]

theorem callStub_compareAndSwap (hs : Memory.slotAt f.slot = .ok f.slot) :
    callStub true .compareAndSwap f = do
      let expected ← loadBarrier none f.scratch₀
      let new ← loadBarrier none f.scratch₁
      let out ← exchange SatbQueues.shared f.slot expected new
      return { f with scratch₀ := out.isSuccess.toNat } := by
  simp only [callStub, if_true, stubResult, hs, liftM_ok, bind_assoc, pure_bind]

end

end Compiled

/-! ## 3. The parts of a store -/

namespace RegionHeap

section
variable {h : RegionHeap} {slot : Option Nat} {a b v : Nat}

/-- What is left of a store when the new reference is resolved and the old one recorded. -/
def plainStore (a x : Nat) : Action RegionHeap Unit := do
  storeSlot a x
  cardMark a

theorem lockstep_plainStore {q : SatbQueues} (a x : Nat) :
    Lockstep (Twin q b) (plainStore a x) (plainStore a x) :=
  (lockstep_storeSlot a x).bind fun _ => lockstep_cardMark a

/-- While there are no copies, the load barrier does nothing. -/
theorem loadBarrier_calm (slot : Option Nat) (hg : h.gcState.hasForwarded = false) :
    loadBarrier slot v h = .ok v h :=
  Ends.eq_ok (by simp [loadBarrier, ends_ite, hg])

/-- While nothing is marked, the pre-write barrier does nothing. -/
theorem writePre_calm (hg : h.gcState.marking = false) : writePre b a h = .ok () h :=
  Ends.eq_ok (by simp [writePre, ends_ite, hg])

end

end RegionHeap

namespace Mutator

open HeapView RegionHeap

section
variable {h h₁ h₂ : RegionHeap} {W : World} {st : Stage} {ts : List MarkTask} {m o i v x : Nat}
  {t : Mutator}

/-- The slot of a field of a current object. -/
theorem fieldSlot_eq (I : h.view.Inv W st ts) (hc : h.view.Current W o)
    (hi : i < Object.refCount h.view.memory o) :
    fieldSlot o i h = .ok (Object.field o i) h :=
  Ends.eq_ok ((ends_fieldSlot I hc (by rwa [← I.refCount hc])).2 ⟨rfl, rfl⟩)

theorem getState_eq (hm : h.view.mutator? m = some t) : getState m h = .ok t h :=
  Ends.eq_ok ((ends_getState hm).2 ⟨rfl, rfl⟩)

/-- A store of a mutator, from where it has resolved its operands. -/
theorem storeRef_eq (I : h₂.view.Inv W st ts) (ho : h₂.view.Current W o)
    (hi : i < Object.refCount h₂.view.memory o) (hm : h₂.view.mutator? m = some t)
    (h1 : resolve o h = .ok o h₁) (h2 : resolve v h₁ = .ok x h₂) :
    storeRef m o i v h = barriers.write t.buffer (Object.field o i) x h₂ := by
  rw [storeRef, bind_of_ok h1, bind_of_ok h2, bind_of_ok (fieldSlot_eq I ho hi),
    bind_of_ok (getState_eq hm)]
  rfl

end

end Mutator

/-! ## 4. Agreement -/

namespace Session

open HeapView RegionHeap Mutator

/-- A reference that compiled code can come by: one that the program may pass, what a root holds, or
what is in a field of an object come by so, as it is there. -/
inductive Found (s : Session) : Nat → Prop where
  | operand {v : Nat} : s.Operand v → Found s v
  | root {slot : Nat} : slot ∈ s.handles → Found s (s.heap.core.memory.read slot)
  | field {o i : Nat} : Found s o → o ≠ ManagedHeap.null →
      i < Object.refCount s.heap.core.memory (Object.resolve s.heap.core.memory o) →
      Found s (s.heap.core.memory.read (Object.field (Object.resolve s.heap.core.memory o) i))

/-- An object that compiled code accesses: it has come by a reference to it that is canonical. -/
structure Base (s : Session) (o : Nat) : Prop where
  found : s.Found o
  ne_null : o ≠ null
  canonical : s.heap.Canonical o

/-- A frame is for a run of fields of an object. -/
structure ForFields (s : Session) (o i len : Nat) (f : Frame) : Prop where
  base : s.Base o
  bound : i + len ≤ Object.refCount s.heap.core.memory o
  slot : f.slot = Object.field o i

/-- **Compiled code and a mutator with the buffer `b` do the same.**  All end, with the same results
and in twins. -/
structure StubsAgree (s : Session) (m b : Nat) : Prop where
  load {o i : Nat} {f : Frame} : s.ForFields o i 1 f →
    f.scratch₀ = s.heap.core.memory.read f.slot →
    ∃ v h k, loadRef o i s.heap = .ok v h ∧
      callStub true .load f s.heap = .ok { f with scratch₀ := v } k ∧ Twin s.heap.satb b h k
  store {o i : Nat} {f : Frame} : s.ForFields o i 1 f → s.Found f.scratch₀ →
    ∃ h k, storeRef m o i f.scratch₀ s.heap = .ok () h ∧ Compiled.store f s.heap = .ok () k ∧
      Twin s.heap.satb b h k
  compareAndSwap {o i : Nat} {f : Frame} : s.ForFields o i 1 f → s.Found f.scratch₀ →
    s.Found f.scratch₁ →
    ∃ out h k, casRef m o i f.scratch₀ f.scratch₁ s.heap = .ok out h ∧
      callStub true .compareAndSwap f s.heap = .ok { f with scratch₀ := out.isSuccess.toNat } k ∧
      Twin s.heap.satb b h k
  copyPre {o i : Nat} {f : Frame} : s.ForFields o i f.scratch₀ f →
    ∃ h k, barriers.copyPre b ⟨f.slot, f.scratch₀⟩ s.heap = .ok () h ∧
      callStub true .arrayCopyPre f s.heap = .ok f k ∧ Twin s.heap.satb b h k
  copyPost {o i : Nat} {f : Frame} : s.ForFields o i f.scratch₀ f →
    ∃ h, barriers.copyPost ⟨f.slot, f.scratch₀⟩ s.heap = .ok () h ∧
      callStub true .arrayCopyPost f s.heap = .ok f h
  clonePre {f : Frame} : s.Base f.base →
    ∃ h, barriers.clonePre f.base s.heap = .ok () h ∧ callStub true .clonePre f s.heap = .ok f h
  frame {kind : AccessKind} {f f' : Frame} {h : RegionHeap} :
    callStub true kind f s.heap = .ok f' h →
    f' = { f with scratch₀ := f'.scratch₀ } ∧ (kind.hasResult = false → f' = f)

namespace Sound

variable {s : Session} {W : World} {m o i len v : Nat} {t : Mutator} {f : Frame}

/-- What compiled code can come by is null or refers to an object. -/
theorem found (S : s.Sound W) (h : s.Found v) : v = 0 ∨ s.heap.view.Refers W v := by
  induction h with
  | operand hv => exact S.operand hv
  | root hs =>
    obtain ⟨c, hc, hl, rfl⟩ := S.handles _ hs
    rw [or_iff_not_imp_left]
    exact (S.inv.faithful.roots hc hl).1.refers
  | field _ h0 hi ih =>
    have hm := (S.inv.faithful.resolve_refers S.inv.layout (ih.resolve_left h0)).1
    rw [or_iff_not_imp_left]
    exact (S.inv.faithful.fields hm hi).1.refers

theorem base (S : s.Sound W) (h : s.Base o) : s.heap.view.Refers W o :=
  (S.found h.found).resolve_left h.ne_null

theorem base_current (S : s.Sound W) (h : s.Base o) : s.heap.view.Current W o :=
  (canonical_iff S.inv (S.base h)).1 h.canonical

/-- To resolve a base does nothing but count. -/
theorem resolve_base (S : s.Sound W) (h : s.Base o) :
    ∃ n, resolve o s.heap = .ok o { s.heap with barrierStats := n } := by
  obtain ⟨_, _, hr, rfl, n, rfl⟩ :=
    ends_loadBarrier_canonical none S.inv (S.base h) h.canonical
  exact ⟨n, hr⟩

theorem slotAt_field (S : s.Sound W) (h : s.ForFields o i len f) :
    Memory.slotAt f.slot = .ok f.slot := by
  have hb := (S.inv.layout.bounds (S.inv.faithful.published (S.base_current h.base).1)).aligned
  rw [h.slot]
  exact Object.slotAt_eq (by simp only [Object.field]; omega) (by simp only [Object.field]; omega)

/-- The run of slots of a frame. -/
theorem range_make (S : s.Sound W) (h : s.ForFields o i len f) (n : Nat) :
    SlotRange.make f.slot n = .ok ⟨f.slot, n⟩ := by
  have hb := (S.inv.layout.bounds (S.inv.faithful.published (S.base_current h.base).1)).aligned
  simp only [SlotRange.make, h.slot, Except.bind_eq_ok, require_eq_ok, isAligned_wordBytes,
    Except.pure_eq_ok]
  exact ⟨(), by simp only [Object.field]; omega, trivial⟩

/-- The stub of a load gives what a load of a mutator gives. -/
theorem load_agrees (S : s.Sound W) (b : Nat) (hf : s.ForFields o i 1 f)
    (hv : f.scratch₀ = s.heap.core.memory.read f.slot) :
    ∃ v h k, loadRef o i s.heap = .ok v h ∧
      callStub true .load f s.heap = .ok { f with scratch₀ := v } k ∧ Twin s.heap.satb b h k := by
  have I := S.inv
  have hcur := S.base_current hf.base
  obtain ⟨n, hbase⟩ := S.resolve_base hf.base
  have T := (Twin.refl s.heap b).setStats n s.heap.barrierStats
  have hslot : s.heap.view.IsSlot W f.slot := .inl ⟨o, i, hcur, hf.bound, hf.slot⟩
  obtain ⟨v, h', k, hload, hstub, T', -⟩ := (lockstep_loadBarrier (some f.slot) f.scratch₀).ends T
    (ends_loadBarrier (h := { s.heap with barrierStats := n }) I S.inStage
      (hv ▸ I.slot_refers hslot) fun a ha => by cases ha; exact I.hasSlot hslot)
  refine ⟨v, h', k, ?_, ?_, T'⟩
  · rw [loadRef, bind_of_ok hbase, bind_of_ok (fieldSlot_eq (h := { s.heap with barrierStats := n }) I hcur
      hf.bound), ← hf.slot]
    rw [hv] at hload
    exact hload
  · rw [Compiled.callStub_load (S.slotAt_field hf), bind_of_ok hstub]
    rfl

/-- The stubs of a store do what a store of a mutator does. -/
theorem store_agrees (S : s.Sound W) (hm : s.heap.view.mutator? m = some t)
    (hf : s.ForFields o i 1 f) (hv : s.Found f.scratch₀) :
    ∃ h k, storeRef m o i f.scratch₀ s.heap = .ok () h ∧ Compiled.store f s.heap = .ok () k ∧
      Twin s.heap.satb t.buffer h k := by
  have I := S.inv
  have hcur := S.base_current hf.base
  obtain ⟨n, hbase⟩ := S.resolve_base hf.base
  have T := (Twin.refl s.heap t.buffer).setStats n s.heap.barrierStats
  -- The mutator comes to its end; the two differ in what they have resolved and recorded when.
  obtain ⟨_, h, hend, -⟩ := ends_storeRef I S.inStage hm hcur.refers
    (by rw [← I.refCount hcur]; exact hf.bound) ⟨S.found hv, rfl⟩
  obtain ⟨x, h₂, hx, W₂, R, hcalm⟩ := ends_resolve (h := { s.heap with barrierStats := n }) I
    S.inStage (S.found hv)
  have ho₂ := R.evolves.current hcur
  have hi₂ : i < Object.refCount h₂.view.memory o := by
    rw [R.toTransparent.refCount I hcur]
    exact hf.bound
  have hm₂ : h₂.view.mutator? m = some t := by
    unfold HeapView.mutator?
    rw [R.mutators]
    exact hm
  have hstore := storeRef_eq R.inv ho₂ hi₂ hm₂ hbase hx
  rw [hend, ← hf.slot] at hstore
  rw [Compiled.store_eq (S.slotAt_field hf)]
  have hflags : s.heap.gcState = s.stage.flags := S.inStage.1
  have hflags₂ : h₂.gcState = s.stage.flags := (R.evolves.inStage S.inStage).1
  have hslot : s.heap.view.IsSlot W f.slot := .inl ⟨o, i, hcur, hf.bound, hf.slot⟩
  cases hrel : s.stage.relocates with
  | false =>
    obtain ⟨rfl, -⟩ := hcalm hrel
    have hfwd : s.stage.flags.hasForwarded = false := by
      cases hst : s.stage <;> rw [hst] at hrel <;> first | rfl | cases hrel
    have hxv : x = f.scratch₀ := by
      cases (loadBarrier_calm none (hflags₂ ▸ hfwd)).symm.trans hx
      rfl
    subst hxv
    obtain ⟨_, h₃, k₃, hw, hw', T₃, G⟩ := (lockstep_writePre f.slot).ends T
      (ends_writePre (h := { s.heap with barrierStats := n }) I S.inStage
        (I.layout.buffer_mem hm) hslot)
    have htail : plainStore f.slot f.scratch₀ h₃ = .ok () h :=
      (bind_of_ok hw).symm.trans hstore.symm
    obtain ⟨k, hk, T'⟩ := (lockstep_plainStore f.slot f.scratch₀).of_ok T₃ htail
    have hfwd₃ : k₃.gcState.hasForwarded = false := by
      rw [T₃.gcState, show h₃.gcState = s.stage.flags from (G.evolves.inStage S.inStage).1]
      exact hfwd
    refine ⟨_, k, hend, ?_, T'⟩
    rw [bind_of_ok hw', bind_of_ok (loadBarrier_calm none hfwd₃)]
    exact hk
  | true =>
    have hmark : s.stage.flags.marking = false := by
      cases hst : s.stage <;> rw [hst] at hrel <;> first | rfl | cases hrel
    have htail : plainStore f.slot x h₂ = .ok () h :=
      (bind_of_ok (writePre_calm (hflags₂ ▸ hmark))).symm.trans hstore.symm
    obtain ⟨k₂, hk₂, T₂⟩ := (lockstep_loadBarrier none f.scratch₀).of_ok T hx
    obtain ⟨k, hk, T'⟩ := (lockstep_plainStore f.slot x).of_ok T₂ htail
    refine ⟨_, k, hend, ?_, T'⟩
    rw [bind_of_ok (writePre_calm (hflags ▸ hmark)), bind_of_ok hk₂]
    exact hk

/-- The stub of a compare-and-swap swaps when that of a mutator does. -/
theorem compareAndSwap_agrees (S : s.Sound W) (hm : s.heap.view.mutator? m = some t)
    (hf : s.ForFields o i 1 f) (he : s.Found f.scratch₀) (hx : s.Found f.scratch₁) :
    ∃ out h k, casRef m o i f.scratch₀ f.scratch₁ s.heap = .ok out h ∧
      callStub true .compareAndSwap f s.heap = .ok { f with scratch₀ := out.isSuccess.toNat } k ∧
      Twin s.heap.satb t.buffer h k := by
  have I := S.inv
  have hcur := S.base_current hf.base
  obtain ⟨n, hbase⟩ := S.resolve_base hf.base
  have T := (Twin.refl s.heap t.buffer).setStats n s.heap.barrierStats
  obtain ⟨e, h₁, k₁, he₁, hk₁, T₁, W₁, R₁, -⟩ := (lockstep_loadBarrier none f.scratch₀).ends T
    (ends_resolve (h := { s.heap with barrierStats := n }) I S.inStage (S.found he))
  have hx₁ : f.scratch₁ = 0 ∨ h₁.view.Refers W₁ f.scratch₁ :=
    (S.found hx).imp_right fun h => (R₁.evolves.refers h).1
  obtain ⟨x, h₂, k₂, hx₂, hk₂, T₂, W₂, R₂, -⟩ := (lockstep_loadBarrier none f.scratch₁).ends T₁
    (ends_resolve R₁.inv (R₁.evolves.inStage S.inStage) hx₁)
  have TR := R₁.toTransparent.trans R₂.toTransparent I
  have ho₂ := TR.evolves.current hcur
  have hi₂ : i < Object.refCount h₂.view.memory o := by
    rw [TR.refCount I hcur]
    exact hf.bound
  have hm₂ : h₂.view.mutator? m = some t := by
    unfold HeapView.mutator?
    rw [TR.mutators]
    exact hm
  obtain ⟨out, h, k, hh, hk, T', -⟩ := (lockstep_exchange (Object.field o i) e x).ends T₂
    (ends_exchange TR.inv (TR.evolves.inStage S.inStage) (TR.inv.layout.buffer_mem hm₂) ho₂ hi₂
      (R₂.evolves.clean R₁.result) R₂.result)
  have he₂ : resolve f.scratch₀ { s.heap with barrierStats := n } = .ok e h₁ := he₁
  have hx₃ : resolve f.scratch₁ h₁ = .ok x h₂ := hx₂
  refine ⟨out, h, k, ?_, ?_, T'⟩
  · rw [casRef, bind_of_ok hbase, bind_of_ok he₂, bind_of_ok hx₃,
      bind_of_ok (fieldSlot_eq TR.inv ho₂ hi₂), bind_of_ok (getState_eq hm₂)]
    exact hh
  · rw [Compiled.callStub_compareAndSwap (S.slotAt_field hf), bind_of_ok hk₁, bind_of_ok hk₂, hf.slot,
      bind_of_ok hk]
    rfl

/-- The stubs around a copy do what its barriers do. -/
theorem copyPre_agrees (S : s.Sound W) (hm : s.heap.view.mutator? m = some t)
    (hf : s.ForFields o i f.scratch₀ f) :
    ∃ h k, barriers.copyPre t.buffer ⟨f.slot, f.scratch₀⟩ s.heap = .ok () h ∧
      callStub true .arrayCopyPre f s.heap = .ok f k ∧ Twin s.heap.satb t.buffer h k := by
  have I := S.inv
  obtain ⟨_, h, hh, -⟩ :=
    ends_copyPre I S.inStage (I.layout.buffer_mem hm) (S.base_current hf.base) hf.bound
  rw [← hf.slot] at hh
  obtain ⟨k, hk, T⟩ := (lockstep_copyPre ⟨f.slot, f.scratch₀⟩).of_ok (Twin.refl s.heap t.buffer) hh
  refine ⟨h, k, hh, ?_, T⟩
  simp only [callStub, if_true, stubResult, S.range_make hf, liftM_ok, bind_assoc, pure_bind]
  rw [bind_of_ok hk]
  rfl

theorem copyPost_agrees (S : s.Sound W) (hf : s.ForFields o i f.scratch₀ f) :
    ∃ h, barriers.copyPost ⟨f.slot, f.scratch₀⟩ s.heap = .ok () h ∧
      callStub true .arrayCopyPost f s.heap = .ok f h := by
  have I := S.inv
  obtain ⟨_, h, hh, -⟩ := ends_copyPost I.layout
    (I.faithful.published (S.base_current hf.base).1) hf.bound
  rw [← hf.slot] at hh
  refine ⟨h, hh, ?_⟩
  simp only [callStub, if_true, stubResult, S.range_make hf, liftM_ok, bind_assoc, pure_bind]
  rw [bind_of_ok hh]
  rfl

theorem clonePre_agrees (S : s.Sound W) (hb : s.Base f.base) :
    ∃ h, barriers.clonePre f.base s.heap = .ok () h ∧
      callStub true .clonePre f s.heap = .ok f h := by
  obtain ⟨_, h, hh, -⟩ := ends_clonePre S.inv S.inStage (S.base_current hb)
  refine ⟨h, hh, ?_⟩
  simp only [callStub, if_true, stubResult, bind_assoc, pure_bind]
  rw [bind_of_ok hh]
  rfl

/-- **In a sound session compiled code agrees with every mutator.** -/
theorem stubsAgree (S : s.Sound W) (hm : s.heap.view.mutator? m = some t) :
    s.StubsAgree m t.buffer where
  load hf hv := S.load_agrees t.buffer hf hv
  store hf hv := S.store_agrees hm hf hv
  compareAndSwap hf he hx := S.compareAndSwap_agrees hm hf he hx
  copyPre hf := S.copyPre_agrees hm hf
  copyPost hf := S.copyPost_agrees hf
  clonePre hb := S.clonePre_agrees hb
  frame hc := callStub_frame hc

end Sound

end Session

/-! ## 5. Programs of which parts are compiled -/

/-- An access of compiled code to fields of the object at a place. -/
inductive CompiledAccess where
  | load (src i : Nat)
  | store (src i value : Nat)
  | compareAndSwap (src i expected new : Nat)
  | copyPre (src i len : Nat)
  | copyPost (src i len : Nat)
  | clonePre (src : Nat)
  deriving DecidableEq, Repr

namespace CompiledAccess

open RegionHeap

/-- The place of the object, and the fields that are accessed. -/
def target : CompiledAccess → Nat × Nat × Nat
  | load src i | store src i _ | compareAndSwap src i _ _ => (src, i, 1)
  | copyPre src i len | copyPost src i len => (src, i, len)
  | clonePre src => (src, 0, 0)

/-- The registers that the stubs are called with. -/
def frame (ref : Nat → Nat) (a : CompiledAccess) : Frame :=
  let base := ref a.target.1
  let slot := Object.field base a.target.2.1
  match a with
  | load _ _ | clonePre _ => { base, slot }
  | store _ _ value => { base, slot, scratch₀ := ref value }
  | compareAndSwap _ _ expected new => { base, slot, scratch₀ := ref expected, scratch₁ := ref new }
  | copyPre _ _ len | copyPost _ _ len => { base, slot, scratch₀ := len }

/-- Run an access with its stubs. -/
def run (ref : Nat → Nat) (a : CompiledAccess) : Action RegionHeap Answer :=
  let f := a.frame ref
  match a with
  | load _ _ => do return .reference (← Compiled.load f)
  | store _ _ _ => do
    Compiled.store f
    return .done
  | compareAndSwap _ _ _ _ => do return .flag ((← Compiled.compareAndSwap f) == 1)
  | copyPre _ _ _ => do
    let _ ← callStub true .arrayCopyPre f
    return .done
  | copyPost _ _ _ => do
    let _ ← callStub true .arrayCopyPost f
    return .done
  | clonePre _ => do
    let _ ← callStub true .clonePre f
    return .done

end CompiledAccess

/-- What a program does next, of which parts are compiled. -/
inductive Task where
  | command (c : Command)
  | access (a : CompiledAccess)
  deriving DecidableEq, Repr

namespace Session

open HeapView RegionHeap Mutator

/-- An access of compiled code.  The program has what it has after an operation. -/
def access (a : CompiledAccess) : Action Session Answer := do
  let s ← get
  let r ← onHeap (a.run s.reference)
  modify (·.record .poll r)
  return r

/-- The object is canonical, and the access is within its bounds. -/
def AllowsAccess (s : Session) (a : CompiledAccess) : Prop :=
  s.IsObject a.target.1 ∧ s.heap.Canonical (s.reference a.target.1) ∧
    a.target.2.1 + a.target.2.2 ≤ Object.refCount s.heap.core.memory (s.reference a.target.1)

/-- Run a task. -/
def runTask : Task → Action Session Answer
  | .command c => execute c
  | .access a => access a

/-- What a program may do next. -/
def AllowsTask (s : Session) : Task → Prop
  | .command c => s.Allows c
  | .access a => s.AllowsAccess a

instance (s : Session) (t : Task) : Decidable (s.AllowsTask t) := by
  cases t <;> unfold AllowsTask <;> unfold AllowsAccess IsObject <;> infer_instance

namespace Sound

variable {s : Session} {W : World} {i len : Nat} {f : Frame} {a : CompiledAccess} {t : Task}

theorem found_reference (S : s.Sound W) (k : Nat) : s.Found (s.reference k) :=
  .operand (S.operand_reference k)

/-- The frame of an access that is allowed is for its fields. -/
theorem forFields (S : s.Sound W) (ha : s.AllowsAccess a) :
    s.ForFields (s.reference a.target.1) a.target.2.1 a.target.2.2 (a.frame s.reference) where
  base := ⟨S.found_reference _, ha.1, ha.2.1⟩
  bound := ha.2.2
  slot := by cases a <;> rfl

/-- **A store of compiled code** is one of the ideal heap. -/
theorem ends_store (S : s.Sound W) {o : Nat} (hf : s.ForFields o i 1 f) (hv : s.Found f.scratch₀) :
    Ends (Compiled.store f) s.heap fun _ h' => ∃ W',
      s.heap.view.Simulates W h'.view W' s.stage []
        (W.ideal.setField (W.name o) i (W.name f.scratch₀)) := by
  have I := S.inv
  have hcur := S.base_current hf.base
  rw [Compiled.store_eq (S.slotAt_field hf), hf.slot]
  simp only [ends_bind]
  refine (ends_writePre I S.inStage I.layout.shared_mem (.inl ⟨o, i, hcur, hf.bound, rfl⟩)).mono
    fun _ h₁ G => ?_
  have hmem : h₁.view.memory = s.heap.view.memory := by rw [G.view]
  have hv₁ := G.evolves.names I.faithful G.inv.faithful ⟨S.found hv, rfl⟩
  refine (ends_loadBarrier G.inv (G.evolves.inStage S.inStage) hv₁.1
    fun _ ha => by cases ha).mono fun x h₂ hR => ?_
  obtain ⟨W₂, R, hcalm⟩ := hR
  have ho₁ := G.evolves.current hcur
  have ho₂ := R.evolves.current ho₁
  have hi₂ : i < Object.refCount h₂.view.memory o := by
    rw [R.toTransparent.refCount G.inv ho₁, hmem]
    exact hf.bound
  have hname : W₂.name o = W.name o := R.evolves.name ho₁.refers
  rw [ends_storeSlot]
  have I₃ := R.inv.storeField (x := x) ho₂.1 hi₂ (Set.Subset.refl W₂.loose)
    (R.result.imp_right .inl) fun hst _ => by
      obtain ⟨rfl, -⟩ := hcalm (by rw [hst]; rfl)
      rw [hmem]
      exact (G.recorded hst).imp_right fun h => .inr (.inl h)
  have E₃ := Evolves.storeField (x := x) R.inv ho₂.1 hi₂
  have hv₃ : (HasMemory.setMemory ((HasMemory.memory h₂).write (Object.field o i) x) h₂).view =
      { h₂.view with memory := h₂.view.memory.write (Object.field o i) x } := rfl
  refine (ends_cardMark (by rw [hv₃]; exact I₃.layout)).mono fun _ h₃ hh₃ => ?_
  rw [hh₃.1, hv₃]
  rw [hname, R.ideal, R.name] at I₃ E₃
  exact ⟨_, I₃, (G.evolves.trans R.evolves).trans E₃, rfl⟩

/-- **A compare-and-swap of compiled code** is one of the ideal heap. -/
theorem ends_compareAndSwap (S : s.Sound W) {o : Nat} (hf : s.ForFields o i 1 f)
    (he : s.Found f.scratch₀) (hx : s.Found f.scratch₁) :
    Ends (Compiled.compareAndSwap f) s.heap fun _ h' => ∃ W' I,
      s.heap.view.Simulates W h'.view W' s.stage [] I := by
  have I := S.inv
  have hcur := S.base_current hf.base
  rw [Compiled.compareAndSwap, Compiled.callStub_compareAndSwap (S.slotAt_field hf), hf.slot]
  simp only [ends_bind, ends_pure]
  refine (ends_loadBarrier I S.inStage (S.found he) fun _ ha => by cases ha).mono fun e h₁ hR => ?_
  obtain ⟨W₁, R₁, -⟩ := hR
  refine (ends_loadBarrier R₁.inv (R₁.evolves.inStage S.inStage)
    ((S.found hx).imp_right fun h => (R₁.evolves.refers h).1)
    fun _ ha => by cases ha).mono fun x h₂ hR => ?_
  obtain ⟨W₂, R₂, -⟩ := hR
  have T := R₁.toTransparent.trans R₂.toTransparent I
  refine (ends_exchange T.inv (T.evolves.inStage S.inStage) T.inv.layout.shared_mem (T.evolves.current hcur)
    (by rw [T.refCount I hcur]; exact hf.bound) (R₂.evolves.clean R₁.result) R₂.result).mono
    fun out h₃ hX => ?_
  obtain ⟨W₃, X, -⟩ := hX
  by_cases hq : W₂.ideal.field (W₂.name o) i = W₂.name e
  · exact ⟨W₃, _, (X.swapped hq).2.of_transparent T⟩
  · obtain ⟨w, -, hS, -⟩ := X.failed hq
    exact ⟨W₃, _, hS.of_transparent T⟩

/-- An access that is allowed does to the heap what an operation does. -/
theorem ends_runAccess (S : s.Sound W) (ha : s.AllowsAccess a) :
    Ends (a.run s.reference) s.heap fun r h' => ∃ W' b I,
      s.heap.view.Performed W h'.view W' s.stage .poll r b I := by
  have I := S.inv
  have hf := S.forFields ha
  have hcur := S.base_current hf.base
  cases a with
  | load src i =>
    have hslot : s.heap.view.IsSlot W (CompiledAccess.frame s.reference (.load src i)).slot :=
      .inl ⟨_, i, hcur, hf.bound, hf.slot⟩
    simp only [CompiledAccess.run, Compiled.load_eq (S.slotAt_field hf), ends_bind, ends_pure]
    refine (ends_read I S.inStage hslot).mono ?_
    rintro r h' ⟨W', R, -⟩
    exact ⟨W', _, _, R.toTransparent.simulates.reference R.result rfl⟩
  | store src i value =>
    simp only [CompiledAccess.run, ends_bind, ends_pure]
    refine (S.ends_store hf (S.found_reference value)).mono ?_
    rintro _ h' ⟨W', A⟩
    exact ⟨W', _, _, A.done .poll⟩
  | compareAndSwap src i expected new =>
    simp only [CompiledAccess.run, ends_bind, ends_pure]
    refine (S.ends_compareAndSwap hf (S.found_reference expected) (S.found_reference new)).mono ?_
    rintro x h' ⟨W', J, A⟩
    exact ⟨W', .flag (x == 1), J, A.value rfl rfl⟩
  | copyPre src i len =>
    simp only [CompiledAccess.run, ends_bind, ends_pure, callStub, if_true, stubResult,
      S.range_make hf, liftM_ok]
    rw [show (CompiledAccess.frame s.reference (.copyPre src i len)).slot =
      Object.field (s.reference src) i from rfl]
    refine (ends_copyPre I S.inStage I.layout.shared_mem hcur hf.bound).mono ?_
    rintro _ h' G
    exact ⟨W, _, _, Simulates.done .poll ⟨G.inv, G.evolves, rfl⟩⟩
  | copyPost src i len =>
    simp only [CompiledAccess.run, ends_bind, ends_pure, callStub, if_true, stubResult,
      S.range_make hf, liftM_ok]
    rw [show (CompiledAccess.frame s.reference (.copyPost src i len)).slot =
      Object.field (s.reference src) i from rfl]
    refine (ends_copyPost I.layout (I.faithful.published hcur.1) hf.bound).mono ?_
    rintro _ h' ⟨hv, -⟩
    rw [hv]
    exact ⟨W, _, _, Simulates.done .poll ⟨I, Evolves.refl _ _, rfl⟩⟩
  | clonePre src =>
    simp only [CompiledAccess.run, ends_bind, ends_pure, callStub, if_true, stubResult]
    refine (ends_clonePre I S.inStage hcur).mono ?_
    rintro _ h' ⟨W', T, -⟩
    exact ⟨W', _, _, T.simulates.done .poll⟩

/-- **A task that is allowed** keeps the session sound. -/
theorem ends_runTask (S : s.Sound W) (ha : s.AllowsTask t) :
    Ends (runTask t) s fun _ s' => ∃ W', s'.Sound W' := by
  cases t with
  | command c => exact (S.ends_execute ha).mono fun _ s' h => h.imp fun W' h => h.1
  | access a =>
    simp only [runTask, access, onHeap, ends_bind, ends_get, ends_onPart, ends_modify, ends_pure]
    refine (S.ends_runAccess ha).mono ?_
    rintro r h' ⟨W', b, I, P⟩
    exact ⟨W', (S.record P).1⟩

end Sound

variable {place : Place} {o : Options} {h : RegionHeap} {ts : List Task}

/-- **Compiled code agrees with the mutators.**  After any program of which parts are compiled, each
access that compiled code makes with its stubs does to the heap what the operation of a mutator does,
with the same result, but for the counts of the barriers and the buffer in which they record. -/
theorem stubs_agree (hb : AnyHeap.build place o = .ok (.ok (.region h)))
    (hp : Permitted runTask AllowsTask ts (start h)) :
    ∃ as s, Action.runAll runTask ts (start h) = .ok as s ∧
      ∀ m t, s.heap.view.mutator? m = some t → s.StubsAgree m t.buffer := by
  obtain ⟨as, s, hrun, W, S⟩ := ends_runAll_inv (R := fun s => ∃ W, s.Sound W)
    (fun s c ⟨W, S⟩ ha => S.ends_runTask ha) ⟨_, sound_start hb⟩ hp
  exact ⟨as, s, hrun, fun m t hm => S.stubsAgree hm⟩

/-- An object is relocated while compiled code uses it. -/
def compiledRelocation : List Task :=
  (relocation.take 12).map .command ++ [
    .command (.operation (.loadRoot rootBase)), .access (.load 0 0), .access (.store 0 1 0),
    .access (.compareAndSwap 0 1 0 5), .access (.copyPre 0 0 2)]

theorem stubs_agree_relocation :
    ∃ h, AnyHeap.build Place.first smallHeap = .ok (.ok (.region h)) ∧
      Permitted runTask AllowsTask compiledRelocation (start h) ∧
      ∃ as s, Action.runAll runTask compiledRelocation (start h) = .ok as s ∧
        ∀ m t, s.heap.view.mutator? m = some t → s.StubsAgree m t.buffer := by
  obtain ⟨h, hb, hp⟩ := builds_iff.1 (show builds Place.first smallHeap (fun h =>
    decide (Permitted runTask AllowsTask compiledRelocation (start h))) = true by decide +kernel)
  have hp := of_decide_eq_true hp
  exact ⟨h, hb, hp, stubs_agree hb hp⟩

end Session

end ManagedHeap
