/-
# Operands

An operation resolves the references that it is given before it uses them.  This may make copies, and
forward the older ones; it changes nothing of what an object holds.

* Section 1: which references are to one object, in memory alone.
* Section 2: what a program may pass, at any time: null, any copy of what it holds, and any copy of an
  object that is live.
* Section 3: while references are resolved, what is read from an object stays the same, word for word,
  wherever its newest copy is (`HeapView.SameFields`).
-/
import ManagedHeap.Proofs.LoadBarrier

namespace ManagedHeap

/-! ## 1. References to one object -/

namespace Object

/-- Both are null, or references to one object, whichever copies they are. -/
def Same (m : Memory) (v w : Nat) : Prop :=
  (v = null ∧ w = null) ∨ (v ≠ null ∧ w ≠ null ∧ resolve m v = resolve m w)

instance (m : Memory) (v w : Nat) : Decidable (Same m v w) := by
  unfold Same
  infer_instance

theorem Same.refl (m : Memory) (v : Nat) : Same m v v := by
  by_cases hv : v = null
  · exact .inl ⟨hv, hv⟩
  · exact .inr ⟨hv, hv, rfl⟩

/-- The field with an index of the newest copy of an object. -/
def newestField (m : Memory) (v i : Nat) : Nat := field (resolve m v) i

end Object

namespace HeapView

/-- What the field with an index of an object holds. -/
def content (V : HeapView) (v i : Nat) : Nat := V.memory.read (Object.newestField V.memory v i)

section
variable {V V' V'' : HeapView} {W W' : World} {st : Stage} {ts : List MarkTask} {v w r o i : Nat}

/-- References to one object have one identity. -/
theorem Faithful.same_iff (F : V.Faithful W st) (L : V.Layout) (hv : v = 0 ∨ V.Refers W v)
    (hw : w = 0 ∨ V.Refers W w) : Object.Same V.memory v w ↔ W.name v = W.name w := by
  have hpos {v : Nat} (hv : V.Refers W v) : v ≠ null :=
    Nat.ne_of_gt (L.bounds (F.refers_published hv)).pos
  rcases hv with rfl | hv <;> rcases hw with rfl | hw
  · exact iff_of_true (.refl _ _) rfl
  · refine iff_of_false (fun h => ?_) fun h => ?_
    · rcases h with ⟨-, h0⟩ | ⟨h0, -⟩
      · exact hpos hw h0
      · exact h0 rfl
    · rw [F.name_zero] at h
      exact Nat.ne_of_gt (F.name_refers_pos hw) h.symm
  · refine iff_of_false (fun h => ?_) fun h => ?_
    · rcases h with ⟨h0, -⟩ | ⟨-, h0, -⟩
      · exact hpos hv h0
      · exact h0 rfl
    · rw [F.name_zero] at h
      exact Nat.ne_of_gt (F.name_refers_pos hv) h
  · rw [← F.resolve_eq_iff L hv hw]
    refine ⟨fun h => ?_, fun h => .inr ⟨hpos hv, hpos hw, h⟩⟩
    rcases h with ⟨h0, -⟩ | ⟨-, -, h⟩
    · exact absurd h0 (hpos hv)
    · exact h

/-- What a barrier gives is what all references to the object resolve to. -/
theorem Faithful.resolve_clean (F : V.Faithful W st) (L : V.Layout) (hv : v = 0 ∨ V.Refers W v)
    (hr : V.Clean W r) (hn : W.name r = W.name v) : Object.resolve V.memory v = r := by
  rcases hv with rfl | hv
  · refine (hr.resolve_right fun hc => ?_).symm
    rw [F.name_zero] at hn
    exact Nat.ne_of_gt (F.name_pos hc.1) hn
  · obtain ⟨hm, hname⟩ := F.resolve_refers L hv
    rcases hr with rfl | hr
    · rw [F.name_zero] at hn
      exact absurd hn.symm (Nat.ne_of_gt (F.name_refers_pos hv))
    · exact F.name_inj hm hr.1 (hname.trans hn.symm)

/-- The number of fields of an object, wherever it is. -/
theorem Faithful.refCount_resolve (F : V.Faithful W st) (L : V.Layout) (hv : V.Refers W v) :
    Object.refCount V.memory (Object.resolve V.memory v) = W.ideal.refs (W.name v) := by
  obtain ⟨hm, hname⟩ := F.resolve_refers L hv
  rw [F.refs hm, hname]

/-- What a field of an object holds. -/
theorem Faithful.content (F : V.Faithful W st) (L : V.Layout) (hv : V.Refers W v)
    (hi : i < W.ideal.refs (W.name v)) :
    V.Names W (V.content v i) (W.ideal.field (W.name v) i) := by
  obtain ⟨hm, hname⟩ := F.resolve_refers L hv
  obtain ⟨hok, hn⟩ := F.fields hm (i := i) (by rwa [F.refCount_resolve L hv])
  refine ⟨?_, hn.trans (by rw [hname])⟩
  by_cases h0 : V.content v i = 0
  · exact .inl h0
  · exact .inr (hok.refers h0)

end

end HeapView

/-! ## 2. What a program may pass -/

namespace Session

open HeapView

variable {s : Session} {W : World} {v : Nat}

/-- Null, a copy of an object that the program has a reference to, or one of an object that the last
marking found live or that was published since it began. -/
def Operand (s : Session) (v : Nat) : Prop :=
  v = null ∨ (∃ k, s.heap.view.Aliases (s.reference k) v) ∨ s.heap.view.Denotes v

/-- What is live while marking runs is an object of the program. -/
theorem Ready.denotes_refers (S : s.Ready W) (h : s.heap.view.Denotes v) :
    s.heap.view.Refers W v := by
  by_cases hst : s.stage = .marking
  · obtain ⟨hp, w, ⟨he, -⟩, hw, hl⟩ := h
    have F := S.inv.faithful
    have hm : w ∈ W.objects := (S.inv.snapshot hst).live_mem hw hl
    refine F.refers_of_resolve hp ?_
    rw [← he]
    exact (F.resolve_refers S.inv.layout (.inl hm)).1
  · exact h.refers S.inv hst

/-- **What a program may pass** is null or refers to an object. -/
theorem Ready.operand (S : s.Ready W) (h : s.Operand v) : v = 0 ∨ s.heap.view.Refers W v := by
  rcases h with h | ⟨k, h⟩ | h
  · exact .inl h
  · exact (h.names S.inv (S.reference k).1).1
  · exact .inr (S.denotes_refers h)

/-- A program may pass what it has. -/
theorem Ready.operand_reference (S : s.Ready W) (k : Nat) : s.Operand (s.reference k) :=
  .inr (.inl ⟨k, rfl, (S.reference k).1.imp_right S.inv.faithful.refers_published⟩)

end Session

/-! ## 3. While references are resolved -/

namespace HeapView

/-- What the fields of objects hold is the same, word for word, wherever the objects are. -/
def SameFields (V : HeapView) (W : World) (V' : HeapView) : Prop :=
  ∀ w i, V.Refers W w → i < W.ideal.refs (W.name w) → V'.content w i = V.content w i

section
variable {V V' V'' : HeapView} {W W' : World} {st : Stage} {ts : List MarkTask} {v w r o i : Nat}

theorem SameFields.trans (S : V.SameFields W V') (S' : V'.SameFields W' V'')
    (T : V.Transparent W V' W' st ts) : V.SameFields W V'' := fun w i hw hi => by
  obtain ⟨hw', hn⟩ := T.evolves.refers hw
  exact (S' w i hw' (by rwa [T.ideal, hn])).trans (S w i hw hi)

/-- **When a reference was resolved**, objects hold what they held. -/
theorem Loaded.sameFields (D : V.Loaded none v r V') (R : V.Resolved W v V' W' r st ts)
    (I : V.Inv W st ts) (hv : v = 0 ∨ V.Refers W v) : V.SameFields W V' := by
  intro w i hw hi
  have F := I.faithful
  have L := I.layout
  have F' := R.inv.faithful
  have L' := R.inv.layout
  obtain ⟨hm, hn⟩ := F.resolve_refers L hw
  have hcount := F.refCount_resolve L hw
  have hp := F.published hm
  -- It is enough to look at the newest copy there was.
  have hres : Object.resolve V'.memory w = Object.resolve V'.memory (Object.resolve V.memory w) := by
    refine (F'.resolve_eq_iff L' (R.evolves.refers hw).1 (R.evolves.refers (.inl hm)).1).2 ?_
    rw [R.evolves.name hw, R.evolves.name (.inl hm), hn]
  have hself : Object.resolve V.memory (Object.resolve V.memory w) = Object.resolve V.memory w := by
    obtain ⟨hm', hn'⟩ := F.resolve_refers L (.inl hm)
    exact F.name_inj hm' hm hn'
  rw [content, content, Object.newestField, Object.newestField, hres]
  generalize Object.resolve V.memory w = o at hm hn hcount hp hself
  have hstays (he : Object.resolve V'.memory o = o) :
      V'.memory.read (Object.field (Object.resolve V'.memory o) i) =
        V.memory.read (Object.field o i) := by
    rw [he]
    exact D.slots _ (.inl ⟨o, i, hp, by rwa [hcount], rfl⟩) (by simp)
  by_cases hov : o = v
  · subst hov
    have hr := R.resolve_eq F (.inl hm)
    rcases F.forwardee L (.inl hm) with ⟨-, hf, -⟩ | ⟨c, -, hf, hc, -⟩
    · by_cases hro : r = o
      · exact hstays (hr.trans hro)
      · rw [hr]
        exact (D.contents ⟨hf, hro⟩).field i (by rwa [hcount])
    · have hpos : o ≠ ManagedHeap.null := Nat.ne_of_gt (L.bounds hp).pos
      have hco : c = o := by simpa [Object.resolve, hpos, hf] using hself
      exact hstays (F'.resolve_current L' (R.evolves.current (hco ▸ hc)))
  · have hsize := (L.objects.fits hp).size_pos
    have hstatus : V'.memory.read o = V.memory.read o :=
      D.words o o hp (Nat.le_refl _) (by omega) hov (by simp)
    refine hstays ?_
    rwa [Object.resolve, Object.forwardee?_congr hstatus]

end

end HeapView

namespace Mutator

open HeapView RegionHeap

variable {h : RegionHeap} {W : World} {st : Stage} {ts : List MarkTask} {v : Nat}

/-- The barriers may find older copies only while a cycle relocates. -/
theorem hasForwarded_eq (hs : h.view.InStage st) : h.gcState.hasForwarded = st.relocates := by
  have hg : h.gcState = st.flags := hs.1
  rw [hg]
  cases st <;> rfl

/-- **A reference is resolved**, and objects hold what they held. -/
theorem ends_resolve_sameFields (I : h.view.Inv W st ts) (hs : h.view.InStage st)
    (hv : v = 0 ∨ h.view.Refers W v) :
    Ends (resolve v) h fun r h' => ∃ W', h.view.Resolved W v h'.view W' r st ts ∧
      h.view.SameFields W h'.view ∧ (st.relocates = false → h' = h ∧ r = v) := by
  cases hf : h.gcState.hasForwarded with
  | true =>
    refine (ends_loadBarrier_loaded I hs hf hv fun _ ha => by cases ha).mono ?_
    rintro r h' ⟨D, W', R⟩
    refine ⟨W', R, D.sameFields R I hv, fun hcalm => ?_⟩
    rw [hasForwarded_eq hs, hcalm] at hf
    cases hf
  | false =>
    refine (ends_resolve I hs hv).mono ?_
    rintro r h' ⟨W', R, hcalm⟩
    obtain ⟨rfl, rfl⟩ := hcalm ((hasForwarded_eq hs).symm.trans hf)
    refine ⟨_, R, fun _ _ _ _ => rfl, fun _ => ⟨rfl, ?_⟩⟩
    refine R.result.eq_of_name ?_ I.faithful R.name
    exact hv.imp_right (I.faithful.current_of_calm ((hasForwarded_eq hs).symm.trans hf))

end Mutator

end ManagedHeap
