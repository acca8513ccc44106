/-
# Compare-and-swap by identity

A compare-and-swap is about objects, not about addresses.  Its field may hold an older copy of the
expected object, and so may the program: it swaps exactly if both are to one object, or both null.

The code resolves what it is given, and swaps if the field holds the copy that it then has.  If the field
holds another one, it looks whether that is a copy of the same object, and swaps again with what it found.
The second attempt is the one that finds an older copy, and the only one (`RegionHeap.Swapped.retried`).

* Section 1: what the pre-write barrier does, exactly.
* Section 2: what a compare-and-swap does to the field.
* Section 3: at any time of a program.
-/
import ManagedHeap.Proofs.CardMarks
import ManagedHeap.Proofs.Operands

namespace ManagedHeap

/-! ## 1. The pre-write barrier -/

namespace HeapView

/-- What is in a slot is recorded in a buffer while marking runs, unless it is null. -/
def logged (V : HeapView) (b a : Nat) : HeapView :=
  if V.gcState.marking = true ∧ V.memory.read a ≠ null then
    { V with satb := V.satb.enqueue b (V.memory.read a) }
  else V

theorem logged_memory (V : HeapView) (b a : Nat) : (V.logged b a).memory = V.memory := by
  unfold logged
  split <;> rfl

end HeapView

namespace RegionHeap

open HeapView Mutator

variable {h : RegionHeap} {b a : Nat}

/-- **The pre-write barrier** records what the slot holds, and does nothing else that is seen. -/
theorem ends_writePre_eq : Ends (writePre b a) h fun _ h' => h'.view = h.view.logged b a := by
  have hmem : (HasMemory.memory h : Memory) = h.view.memory := rfl
  simp only [writePre, ends_bind, ends_get, ends_ite, ends_loadSlot, ends_pure, hmem,
    modifyBarrierStats, ends_modify, modifySatb]
  exact ⟨fun hm => ⟨fun h0 => (if_pos ⟨hm, h0⟩).symm, fun h0 => (if_neg fun hc => h0 hc.2).symm⟩,
    fun hm => (if_neg fun hc => hm hc.1).symm⟩

/-! ## 2. The swap -/

/-- **What a compare-and-swap has done** to a field of the object `src`. -/
structure Swapped (h : RegionHeap) (m src i expected new : Nat) (out : CasOutcome)
    (h' : RegionHeap) : Prop where
  /-- It succeeds exactly if the field and what is expected are both null, or to one object. -/
  success_iff : out.isSuccess = true ↔
    Object.Same h.core.memory (h.view.content src i) expected
  /-- The field holds the canonical copy of the new object then. -/
  written : out.isSuccess = true → h'.view.content src i = Object.resolve h'.core.memory new
  canonical : out.isSuccess = true → new ≠ null → h'.Canonical (h'.view.content src i)
  carded : out.isSuccess = true → h'.core.options.cardBarrier = true →
    h'.space.MarkedAt (h'.view.index (Object.newestField h'.core.memory src i))
  /-- Otherwise the field is as it was, and is what the outcome tells. -/
  unchanged : out.isSuccess = false → h'.view.content src i = h.view.content src i ∧
    out = .failure (h.view.content src i)
  /-- There was a second attempt exactly if the field held another copy than the canonical one. -/
  retried : out = .successAfterRetry ↔
    out.isSuccess = true ∧ h.view.content src i ≠ Object.resolve h'.core.memory expected
  /-- While marking runs, what the field held is recorded first, and then the swap is made. -/
  recorded : h.gcState.marking = true → h.view.content src i ≠ null →
    ∃ t h₁, h.core.mutators[m]?.join = some t ∧
      writePre t.buffer (Object.newestField h.core.memory src i) h = .ok () h₁ ∧
      h₁.core.memory = h.core.memory ∧ h₁.satb = h.satb.enqueue t.buffer (h.view.content src i) ∧
      exchangeLogged (Object.newestField h.core.memory src i) expected new h₁ = .ok out h' ∧
      h'.satb = h₁.satb

variable {W : World} {st : Stage} {ts : List MarkTask} {o e x i : Nat}

/-- The swap, with what it is made of: the pre-write barrier, and the attempts after it. -/
theorem ends_exchange_logged (I : h.view.Inv W st ts) (hs : h.view.InStage st)
    (hb : b ∈ h.view.satb.ids) (ho : h.view.Current W o) (hi : i < Object.refCount h.view.memory o)
    (he : h.view.Clean W e) (hx : h.view.Clean W x) :
    Ends (RegionHeap.exchange b (Object.field o i) e x) h fun out h' =>
      ∃ h₁, writePre b (Object.field o i) h = .ok () h₁ ∧
        h₁.view = h.view.logged b (Object.field o i) ∧
        exchangeLogged (Object.field o i) e x h₁ = .ok out h' ∧
        ∃ W', h'.view.Inv W' st ts ∧ h.view.Evolves W h'.view W' ∧
          ((W.ideal.field (W.name o) i = W.name e ∧
            out = (if h.view.memory.read (Object.field o i) = e then .success
              else .successAfterRetry) ∧
            h'.view = { h₁.view with memory := h.view.memory.write (Object.field o i) x } ∧
            h'.Carded o) ∨
          (W.ideal.field (W.name o) i ≠ W.name e ∧
            out = .failure (h.view.memory.read (Object.field o i)) ∧ h'.view = h₁.view)) := by
  show Ends (do writePre b (Object.field o i); exchangeLogged (Object.field o i) e x) h _
  rw [ends_bind]
  obtain ⟨u, h₁, hpre, G, hv₁⟩ :=
    (ends_writePre I hs hb (.inl ⟨o, i, ho, hi, rfl⟩)).and ends_writePre_eq
  refine ⟨u, h₁, hpre, ?_⟩
  have hmem : h₁.view.memory = h.view.memory := by rw [G.view]
  obtain ⟨out, h', hrun, hX⟩ := ends_exchangeLogged G.inv (G.evolves.inStage hs)
    (G.evolves.current ho) (by rwa [hmem]) (G.evolves.clean he) (G.evolves.clean hx) fun hst => by
      rw [hmem]
      exact G.recorded hst
  refine ⟨out, h', hrun, h₁, hpre, hv₁, hrun, ?_⟩
  rw [hmem] at hX
  rcases hX with ⟨heq, hout, hv, S, hcard⟩ | ⟨hne, hout, hv⟩
  · exact ⟨_, S.inv, G.evolves.trans S.evolves, .inl ⟨heq, hout, hv, hcard⟩⟩
  · refine ⟨W, hv ▸ G.inv, hv ▸ G.evolves, .inr ⟨hne, hout, hv⟩⟩

end RegionHeap

namespace Mutator

open HeapView RegionHeap

variable {h : RegionHeap} {W : World} {st : Stage} {ts : List MarkTask} {m src i e x : Nat}
  {t : Mutator}

/-- What the three references are when they have been resolved, one after the other. -/
structure Prepared (h : RegionHeap) (W : World) (st : Stage) (ts : List MarkTask)
    (src e x : Nat) (h' : RegionHeap) (o e' x' : Nat) : Prop where
  world : ∃ W', h.view.Transparent W h'.view W' st ts ∧ h'.view.Current W' o ∧
    h'.view.Clean W' e' ∧ h'.view.Clean W' x' ∧ W'.name o = W.name src ∧ W'.name e' = W.name e ∧
    W'.name x' = W.name x
  fields : h.view.SameFields W h'.view
  calm : st.relocates = false → h' = h ∧ o = src ∧ e' = e ∧ x' = x

theorem ends_prepared {α : Type} {f : Nat → Nat → Nat → Action RegionHeap α}
    {post : α → RegionHeap → Prop} (I : h.view.Inv W st ts) (hs : h.view.InStage st)
    (hsrc : h.view.Refers W src) (he : e = 0 ∨ h.view.Refers W e) (hx : x = 0 ∨ h.view.Refers W x)
    (hf : ∀ h' o e' x', Prepared h W st ts src e x h' o e' x' → Ends (f o e' x') h' post) :
    Ends (do
      let src ← resolve src
      let e ← resolve e
      let x ← resolve x
      f src e x) h post := by
  simp only [ends_bind]
  refine (ends_resolve_sameFields I hs (.inr hsrc)).mono fun o h₁ hR => ?_
  obtain ⟨W₁, R₁, S₁, hc₁⟩ := hR
  have he₁ := R₁.evolves.names I.faithful R₁.inv.faithful ⟨he, rfl⟩
  refine (ends_resolve_sameFields R₁.inv (R₁.evolves.inStage hs) he₁.1).mono fun e' h₂ hR => ?_
  obtain ⟨W₂, R₂, S₂, hc₂⟩ := hR
  have T₂ := R₁.toTransparent.trans R₂.toTransparent I
  have hx₂ := T₂.evolves.names I.faithful T₂.inv.faithful ⟨hx, rfl⟩
  refine (ends_resolve_sameFields T₂.inv (T₂.evolves.inStage hs) hx₂.1).mono fun x' h₃ hR => ?_
  obtain ⟨W₃, R₃, S₃, hc₃⟩ := hR
  have ho := R₁.current I.faithful hsrc
  have E := R₂.evolves.trans R₃.evolves
  have he' := R₃.evolves.names T₂.inv.faithful R₃.inv.faithful R₂.result.names
  refine hf h₃ o e' x' ⟨⟨W₃, T₂.trans R₃.toTransparent I, E.current ho, R₃.evolves.clean R₂.result,
    R₃.result, (E.name ho.refers).trans R₁.name, ?_, R₃.name.trans hx₂.2⟩,
    (S₁.trans S₂ R₁.toTransparent).trans S₃ T₂, fun hcalm => ?_⟩
  · rw [he'.2, R₂.name, he₁.2]
  · obtain ⟨rfl, rfl⟩ := hc₁ hcalm
    obtain ⟨rfl, rfl⟩ := hc₂ hcalm
    obtain ⟨rfl, rfl⟩ := hc₃ hcalm
    exact ⟨rfl, rfl, rfl, rfl⟩

/-- **Compare-and-swap of a reference field**, as far as the field goes. -/
theorem ends_casRef_swapped (I : h.view.Inv W st ts) (hs : h.view.InStage st)
    (hm : h.view.mutator? m = some t) (hsrc : h.view.Refers W src)
    (hi : i < W.ideal.refs (W.name src)) (he : e = 0 ∨ h.view.Refers W e)
    (hx : x = 0 ∨ h.view.Refers W x) :
    Ends (casRef m src i e x) h fun out h' => h.Swapped m src i e x out h' := by
  refine ends_prepared I hs hsrc he hx fun h₃ o e' x' P => ?_
  obtain ⟨⟨W₃, T, ho, he', hx', hno, hne, hnx⟩, hfields, hcalm⟩ := P
  rw [ends_bind, ends_fieldSlot T.inv ho (by rwa [T.ideal, hno])]
  have hm₃ : h₃.view.mutator? m = some t := by
    unfold HeapView.mutator?
    rw [T.mutators]
    exact hm
  rw [ends_bind, ends_getState hm₃]
  have hcount : i < Object.refCount h₃.view.memory o := by rwa [T.inv.refCount ho, T.ideal, hno]
  refine (ends_exchange_logged T.inv (T.evolves.inStage hs) (T.inv.layout.buffer_mem hm₃) ho hcount
    he' hx').mono ?_
  rintro out h' ⟨h₁, hpre, hv₁, hrun, W', I', E', hX⟩
  have F := I.faithful
  have F' := I'.faithful
  have E := T.evolves.trans E'
  -- The references resolve to what the swap was made with.
  have hres {v r : Nat} (hv : v = 0 ∨ h.view.Refers W v) (hr : h₃.view.Clean W₃ r)
      (hn : W₃.name r = W.name v) : Object.resolve h'.view.memory v = r := by
    have hnv := E.names F F' ⟨hv, rfl⟩
    refine F'.resolve_clean I'.layout hnv.1 (E'.clean hr) ?_
    rw [(E'.names T.inv.faithful F' hr.names).2, hnv.2, hn]
  have hsrc' : Object.resolve h'.view.memory src = o := hres (.inr hsrc) (.inr ho) hno
  -- The field held the same when the references had been resolved.
  have hold : h₃.view.memory.read (Object.field o i) = h.view.content src i := by
    have hsrc₃ : Object.resolve h₃.view.memory src = o :=
      T.inv.faithful.resolve_clean T.inv.layout (.inr (T.evolves.refers hsrc).1) (.inr ho)
        (hno.trans (T.evolves.name hsrc).symm)
    rw [← hfields src i hsrc hi, content, Object.newestField, hsrc₃]
  have hsame : Object.Same h.core.memory (h.view.content src i) e ↔
      W₃.ideal.field (W₃.name o) i = W₃.name e' := by
    obtain ⟨hc, hn⟩ := F.content I.layout hsrc hi
    rw [T.ideal, hno, hne, ← hn]
    exact F.same_iff I.layout hc he
  have hnew (v : Nat) : h'.view.content src i = v ↔ h'.view.memory.read (Object.field o i) = v := by
    rw [content, Object.newestField, hsrc']
  have hmem₁ : h₁.view.memory = h₃.view.memory := by rw [hv₁, logged_memory]
  have hsatb : h'.satb = h₁.satb := by
    have hV : h'.view.satb = h₁.view.satb := by
      rcases hX with ⟨-, -, hv, -⟩ | ⟨-, -, hv⟩ <;> rw [hv]
    exact hV
  have hrecorded : h.gcState.marking = true → h.view.content src i ≠ null →
      ∃ t h₁, h.core.mutators[m]?.join = some t ∧
        writePre t.buffer (Object.newestField h.core.memory src i) h = .ok () h₁ ∧
        h₁.core.memory = h.core.memory ∧ h₁.satb = h.satb.enqueue t.buffer (h.view.content src i) ∧
        exchangeLogged (Object.newestField h.core.memory src i) e x h₁ = .ok out h' ∧
        h'.satb = h₁.satb := by
    intro hmark h0
    have hst : st = .marking := of_decide_eq_true ((marking_eq hs).symm.trans hmark)
    obtain ⟨rfl, rfl, rfl, rfl⟩ := hcalm (by rw [hst]; rfl)
    have hslot : Object.newestField h₃.core.memory o i = Object.field o i :=
      congrArg (Object.field · i) (F.resolve_current I.layout
        (F.current_of_calm (by rw [hst]; rfl) hsrc))
    rw [hslot]
    refine ⟨t, h₁, hm, hpre, hmem₁, ?_, hrun, hsatb⟩
    have hV : h₁.view.satb = h₃.view.satb.enqueue t.buffer (h₃.view.content o i) := by
      rw [hv₁, logged, hold, if_pos ⟨hmark, h0⟩]
    exact hV
  rcases hX with ⟨heq, hout, hv, hcard⟩ | ⟨hneq, hout, hv⟩
  · have hsucc : out.isSuccess = true := by
      rw [hout]
      split <;> rfl
    have hread : h'.view.memory.read (Object.field o i) = x' := by
      rw [hv]
      exact Memory.read_write_self _ _ _
    have hc' := (hnew x').2 hread
    have ho' := E'.current ho
    have hcount' : i < Object.refCount h'.view.memory o := by
      rw [hv]
      show i < Object.refCount (h₃.view.memory.write _ x') o
      rwa [Object.refCount, wordBytes, Memory.read_write_of_ne]
      simp only [Object.field]
      omega
    have hp' := F'.published ho'.1
    exact
      { success_iff := iff_of_true hsucc (hsame.2 heq)
        written := fun _ => hc'.trans (hres hx hx' hnx).symm
        canonical := fun _ h0 => by
          have hcur : h'.view.Current W' x' := by
            refine (E'.clean hx').resolve_left fun hz => ?_
            rw [hz, T.inv.faithful.name_zero] at hnx
            exact Nat.ne_of_gt (F.name_refers_pos (hx.resolve_left h0)) hnx.symm
          rw [hc']
          exact (canonical_iff I' hcur.refers).2 hcur
        carded := fun _ hon => by
          have hidx : h'.view.index (Object.field o i) = h'.view.index o :=
            I'.layout.index_field hp' hcount'
          rw [Object.newestField, show Object.resolve h'.core.memory src = o from hsrc', hidx]
          exact ⟨(I'.layout.bounds hp').committed, hcard hon⟩
        unchanged := fun hfail => by
          rw [hsucc] at hfail
          cases hfail
        retried := by
          rw [show Object.resolve h'.core.memory e = e' from hres he he' hne, ← hold,
            and_iff_right hsucc, hout]
          split
          · rename_i heq
            exact iff_of_false (by simp) fun hne => hne heq
          · rename_i hne
            exact iff_of_true rfl hne
        recorded := hrecorded }
  · subst hout
    have hread : h'.view.memory.read (Object.field o i) = h.view.content src i := by
      rw [hv, hmem₁, hold]
    exact
      { success_iff := iff_of_false (by simp [CasOutcome.isSuccess, CasOutcome.witness?])
          fun hs => hneq (hsame.1 hs)
        written := fun hs => by cases hs
        canonical := fun hs => by cases hs
        carded := fun hs => by cases hs
        unchanged := fun _ => ⟨(hnew _).2 hread, by rw [hold]⟩
        retried := iff_of_false (by simp) fun hs => by cases hs.1
        recorded := hrecorded }

end Mutator

/-! ## 3. At any time of a program -/

namespace Session

variable {place : Place} {o : Options} {h : RegionHeap} {cs : List Command}

/-- **Compare-and-swap is by identity**, at any time of any permitted program, for any fields and any
copies of the objects: it ends, and has done what `RegionHeap.Swapped` says. -/
theorem swaps_by_identity (hb : AnyHeap.build place o = .ok (.ok (.region h)))
    (hp : Permitted execute Allows cs (start h)) :
    ∃ as s, Action.runAll execute cs (start h) = .ok as s ∧
      ∀ m src i expected new, m ∈ s.mutators → src ≠ null → s.Operand src →
        i < Object.refCount s.heap.core.memory (Object.resolve s.heap.core.memory src) →
        s.Operand expected → s.Operand new →
        ∃ out h', Mutator.casRef m src i expected new s.heap = .ok out h' ∧
          s.heap.Swapped m src i expected new out h' := by
  obtain ⟨as, s, hrun, W, S, -⟩ := ends_program hb hp
  refine ⟨as, s, hrun, fun m src i expected new hm h0 hsrc hi he hx => ?_⟩
  have I := S.inv
  obtain ⟨t, ht⟩ := S.mutator hm
  have hsrc := (S.operand hsrc).resolve_left h0
  have hi : i < W.ideal.refs (W.name src) := I.faithful.refCount_resolve I.layout hsrc ▸ hi
  exact Mutator.ends_casRef_swapped I S.inStage ht hsrc hi (S.operand he) (S.operand hx)

/-- The field of an object that was moved holds the old copy of the object: the swap takes a second
attempt, and the field holds the new copy then. -/
theorem swaps_by_identity_retry :
    ∃ h, AnyHeap.build Place.first smallHeap = .ok (.ok (.region h)) ∧
      Permitted execute Allows (failedSwap.take 11) (start h) ∧
      ∃ as s h', Action.runAll execute (failedSwap.take 11) (start h) = .ok as s ∧
        0 ∈ s.mutators ∧ s.reference 0 ≠ null ∧ s.Operand (s.reference 0) ∧
        0 < Object.refCount s.heap.core.memory
          (Object.resolve s.heap.core.memory (s.reference 0)) ∧
        Mutator.casRef 0 (s.reference 0) 0 (s.reference 0) (s.reference 0) s.heap =
          .ok .successAfterRetry h' ∧
        s.heap.Swapped 0 (s.reference 0) 0 (s.reference 0) (s.reference 0) .successAfterRetry h' := by
  obtain ⟨h, hb, hd⟩ := builds_iff.1 (show builds Place.first smallHeap (fun h =>
    decide (Permitted execute Allows (failedSwap.take 11) (start h)) &&
    decide (Ends (Action.runAll execute (failedSwap.take 11)) (start h) fun _ s =>
      (0 ∈ s.mutators ∧ s.reference 0 ≠ null ∧ 0 < Object.refCount s.heap.core.memory
        (Object.resolve s.heap.core.memory (s.reference 0))) ∧
      Ends (Mutator.casRef 0 (s.reference 0) 0 (s.reference 0) (s.reference 0)) s.heap
        fun out _ => out = .successAfterRetry)) = true by decide +kernel)
  rw [Bool.and_eq_true, decide_eq_true_eq, decide_eq_true_eq] at hd
  obtain ⟨hp, hends⟩ := hd
  obtain ⟨as, s, hrun, W, S, -⟩ := ends_program hb hp
  obtain ⟨_, _, hrun', hall⟩ := swaps_by_identity hb hp
  cases hrun.symm.trans hrun'
  obtain ⟨⟨hm, h0, hi⟩, hretry⟩ := hends.of_ok hrun
  have hop := S.operand_reference 0
  obtain ⟨out, h', hcas, hswap⟩ := hall 0 _ 0 _ _ hm h0 hop hi hop hop
  obtain rfl := hretry.of_ok hcas
  exact ⟨h, hb, hp, as, s, h', hrun, hm, h0, hop, hi, hcas, hswap⟩

end Session

end ManagedHeap
