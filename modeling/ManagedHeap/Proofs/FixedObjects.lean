/-
# Objects that never move

On a heap without barriers an object stays where it was made, and what a program does to it is a write
to memory.  Memory holds such objects (`Memory.Holds`) if they are apart, none has a copy elsewhere, and
their fields are null or references to one another.  A program overwrites words behind the headers of
objects, fields by references, and roots (`Memory.Overwrites`); that is a preorder, and memory goes on
holding the objects.

A run of fields is copied field by field, in an order in which no field is read after it was written.
Memory is then as if the fields of an ideal heap had been copied at once
(`Mutator.ends_copyRefs_fixed`).

* Section 1: what memory holds.
* Section 2: writes of a program.
* Section 3: new objects.
* Section 4: runs of fields, on the heap that never collects.
-/
import ManagedHeap.BumpHeap
import ManagedHeap.Proofs.Accesses

namespace ManagedHeap

namespace Memory

open Object

/-! ## 1. What memory holds -/

/-- Memory holds the objects `O`. -/
structure Holds (m : Memory) (O : Set Nat) : Prop where
  fits : ∀ {o}, o ∈ O → Object.Fits m o
  end_le : ∀ {o}, o ∈ O → o + size m o ≤ rootBase
  apart : ∀ {o p}, o ∈ O → p ∈ O → o ≠ p → o + size m o ≤ p ∨ p + size m p ≤ o
  status : ∀ {o}, o ∈ O → m.read o = 0
  fields : ∀ {o i}, o ∈ O → i < refCount m o → m.read (field o i) = 0 ∨ m.read (field o i) ∈ O

/-- From `m` to `m'` a program has overwritten what it may: words of the objects `O` behind their
headers, and roots; a field or a root is null then or a reference to one of them. -/
structure Overwrites (O : Set Nat) (m m' : Memory) : Prop where
  status : ∀ {o}, o ∈ O → m'.read o = m.read o
  layout : ∀ {o}, o ∈ O → m'.read (o + 8) = m.read (o + 8)
  fields : ∀ {o i}, o ∈ O → i < refCount m o → m'.read (field o i) = 0 ∨ m'.read (field o i) ∈ O
  roots : ∀ {a}, rootBase ≤ a → m'.read a = m.read a ∨ m'.read a = 0 ∨ m'.read a ∈ O
  rest : ∀ {b}, b < rootBase → (∀ o ∈ O, b < o ∨ o + size m o ≤ b) → m'.read b = m.read b

section
variable {m m' m'' : Memory} {O : Set Nat} {o p b i j v : Nat}

theorem size_congr (h : m'.read (o + 8) = m.read (o + 8)) : size m' o = size m o := by
  simp only [size, wordBytes, h]

theorem refCount_congr (h : m'.read (o + 8) = m.read (o + 8)) : refCount m' o = refCount m o := by
  simp only [refCount, wordBytes, h]

/-- An address is in one object. -/
theorem Holds.inside_unique (H : m.Holds O) (ho : o ∈ O) (hp : p ∈ O) (h1 : o ≤ b)
    (h2 : b < o + size m o) (h3 : p ≤ b) (h4 : b < p + size m p) : o = p := by
  by_contra hne
  rcases H.apart ho hp hne with h | h <;> omega

/-- A word behind a header is no word of a header. -/
theorem Holds.not_header (H : m.Holds O) (ho : o ∈ O) (hp : p ∈ O) (h1 : o + 16 ≤ b)
    (h2 : b < o + size m o) : b ≠ p ∧ b ≠ p + 8 := by
  have hsize := (H.fits hp).fields_le
  constructor
  · rintro rfl
    have := H.inside_unique ho hp (by omega) h2 (Nat.le_refl _) (by omega)
    omega
  · rintro rfl
    have := H.inside_unique ho hp (by omega) h2 (by omega) (by omega)
    omega

theorem Holds.field_inside (H : m.Holds O) (ho : o ∈ O) (hi : i < refCount m o) :
    o + 16 ≤ field o i ∧ field o i < o + size m o := by
  have := (H.fits ho).field_lt hi
  exact ⟨Nat.le_add_right _ _, by omega⟩

/-- A slot is one field of one object. -/
theorem Holds.field_inj (H : m.Holds O) (ho : o ∈ O) (hi : i < refCount m o) (hp : p ∈ O)
    (hj : j < refCount m p) : field o i = field p j ↔ o = p ∧ i = j := by
  refine ⟨fun he => ?_, by rintro ⟨rfl, rfl⟩; rfl⟩
  have h1 := H.field_inside ho hi
  have h2 := H.field_inside hp hj
  obtain rfl := H.inside_unique ho hp (b := field o i) (by omega) h1.2 (by omega) (by omega)
  simp only [field] at he
  exact ⟨rfl, by omega⟩

theorem Holds.resolve (H : m.Holds O) (ho : o ∈ O) : Object.resolve m o = o :=
  resolve_of_zero (H.status ho)

theorem Holds.ne_null (H : m.Holds O) (ho : o ∈ O) : o ≠ null := Nat.ne_of_gt (H.fits ho).pos

/-! ## 2. Writes -/

theorem Overwrites.refl (H : m.Holds O) : Overwrites O m m :=
  ⟨fun _ => rfl, fun _ => rfl, H.fields, fun _ => .inl rfl, fun _ _ => rfl⟩

theorem Overwrites.trans (C : Overwrites O m m') (C' : Overwrites O m' m'') : Overwrites O m m'' where
  status ho := (C'.status ho).trans (C.status ho)
  layout ho := (C'.layout ho).trans (C.layout ho)
  fields ho hi := C'.fields ho (refCount_congr (C.layout ho) ▸ hi)
  roots ha := by
    rcases C'.roots ha with h | h
    · rw [h]
      exact C.roots ha
    · exact .inr h
  rest hb hout := by
    refine (C'.rest hb fun o ho => ?_).trans (C.rest hb hout)
    rw [size_congr (C.layout ho)]
    exact hout o ho

/-- **What a program overwrites leaves the objects in order.** -/
theorem Overwrites.holds (C : Overwrites O m m') (H : m.Holds O) : m'.Holds O where
  fits ho := (H.fits ho).congr (C.layout ho)
  end_le ho := size_congr (C.layout ho) ▸ H.end_le ho
  apart ho hp hne := by
    rw [size_congr (C.layout ho), size_congr (C.layout hp)]
    exact H.apart ho hp hne
  status ho := (C.status ho).trans (H.status ho)
  fields ho hi := C.fields ho (refCount_congr (C.layout ho) ▸ hi)

/-- A word of an object is overwritten, by a reference if it is a field. -/
theorem Holds.overwrites (H : m.Holds O) (ho : o ∈ O) (h1 : o + 16 ≤ b) (h2 : b < o + size m o)
    (hv : ∀ i < refCount m o, b = field o i → v = 0 ∨ v ∈ O) : Overwrites O m (m.write b v) where
  status hp := read_write_of_ne _ (H.not_header ho hp h1 h2).1 _
  layout hp := read_write_of_ne _ (H.not_header ho hp h1 h2).2 _
  fields {p i} hp hi := by
    by_cases he : b = field p i
    · have hin := H.field_inside hp hi
      obtain rfl := H.inside_unique ho hp (b := b) (by omega) h2 (by omega) (by omega)
      rw [← he, read_write_self]
      exact hv i hi he
    · rw [read_write_of_ne _ he]
      exact H.fields hp hi
  roots ha := .inl (read_write_of_ne _ (by have := H.end_le ho; omega) _)
  rest _ hout := read_write_of_ne _ (by have := hout o ho; omega) _

/-- A field is overwritten by a reference. -/
theorem Holds.overwrites_field (H : m.Holds O) (ho : o ∈ O) (hi : i < refCount m o)
    (hv : v = 0 ∨ v ∈ O) : Overwrites O m (m.write (field o i) v) :=
  H.overwrites ho (H.field_inside ho hi).1 (H.field_inside ho hi).2 fun _ _ _ => hv

/-- A root is overwritten by a reference. -/
theorem Holds.overwrites_root (H : m.Holds O) (hb : rootBase ≤ b) (hv : v = 0 ∨ v ∈ O) :
    Overwrites O m (m.write b v) := by
  have hout {p k : Nat} (hp : p ∈ O) (hk : k < size m p) : b ≠ p + k := by
    have := H.end_le hp
    omega
  refine ⟨fun hp => read_write_of_ne _ (hout hp (H.fits hp).size_pos) _,
    fun hp => read_write_of_ne _ (hout hp ?_) _, fun {p i} hp hi => ?_, fun {a} _ => ?_,
    fun hlt _ => read_write_of_ne _ (by omega) _⟩
  · have := (H.fits hp).fields_le
    omega
  · have h1 := H.field_inside hp hi
    have h2 := H.end_le hp
    rw [read_write_of_ne _ (by omega)]
    exact H.fields hp hi
  · by_cases he : b = a
    · rw [he, read_write_self]
      exact .inr hv
    · exact .inl (read_write_of_ne _ he _)

/-! ## 3. New objects -/

/-- **A new object** is held with the others, where it is apart from them. -/
theorem Holds.insert (H : m.Holds O)
    (hkeep : ∀ p ∈ O, ∀ b, p ≤ b → b < p + size m p → m'.read b = m.read b) (hfit : Object.Fits m' o)
    (hend : o + size m' o ≤ rootBase)
    (hapart : ∀ p ∈ O, o + size m' o ≤ p ∨ p + size m p ≤ o) (hstatus : m'.read o = 0)
    (hfields : ∀ i < refCount m' o, m'.read (field o i) = 0 ∨ m'.read (field o i) ∈ O) :
    m'.Holds (insert o O) := by
  have hlayout {p : Nat} (hp : p ∈ O) : m'.read (p + 8) = m.read (p + 8) := by
    have := (H.fits hp).fields_le
    exact hkeep p hp _ (by omega) (by omega)
  have hsize {p : Nat} (hp : p ∈ O) : size m' p = size m p := size_congr (hlayout hp)
  refine ⟨?_, ?_, ?_, ?_, ?_⟩
  · rintro p (rfl | hp)
    · exact hfit
    · exact (H.fits hp).congr (hlayout hp)
  · rintro p (rfl | hp)
    · exact hend
    · rw [hsize hp]
      exact H.end_le hp
  · rintro p q (rfl | hp) (rfl | hq) hne
    · exact absurd rfl hne
    · rw [hsize hq]
      exact hapart q hq
    · rw [hsize hp]
      exact (hapart p hp).symm
    · rw [hsize hp, hsize hq]
      exact H.apart hp hq hne
  · rintro p (rfl | hp)
    · exact hstatus
    · rw [hkeep p hp p (Nat.le_refl _) (Nat.lt_add_of_pos_right (H.fits hp).size_pos)]
      exact H.status hp
  · rintro p i (rfl | hp) hi
    · exact (hfields i hi).imp_right .inr
    · rw [refCount_congr (hlayout hp)] at hi
      have hin := H.field_inside hp hi
      rw [hkeep p hp _ (by omega) hin.2]
      exact (H.fields hp hi).imp_right .inr

end

/-! ## 4. Runs of fields -/

/-- What the fields of objects hold, as an ideal heap has it whose objects are named by their
addresses. -/
def fieldsOf (m : Memory) : IdealHeap := { field := fun o i => m.read (field o i) }

/-- What holds in the middle of a run of copies, when the fields `done` were copied. -/
structure CopyingRun (O : Set Nat) (m m' : Memory) (src si dst di : Nat) (done : List Nat) : Prop where
  overwrites : Overwrites O m m'
  fields : ∀ o ∈ O, ∀ i < refCount m o, m'.read (field o i) =
    (done.foldl (IdealHeap.copyField src si dst di) m.fieldsOf).field o i

section
variable {m m' : Memory} {O : Set Nat} {src si dst di k : Nat} {done : List Nat}

theorem CopyingRun.refl (H : m.Holds O) : CopyingRun O m m src si dst di [] :=
  ⟨.refl H, fun _ _ _ _ => rfl⟩

/-- One field of a run is copied. -/
theorem CopyingRun.step (C : CopyingRun O m m' src si dst di done) (H : m.Holds O) (hsrc : src ∈ O)
    (hdst : dst ∈ O) (hsi : si + k < refCount m src) (hdi : di + k < refCount m dst) :
    CopyingRun O m (m'.write (field dst (di + k)) (m'.read (field src (si + k)))) src si dst di
      (done ++ [k]) := by
  have H' := C.overwrites.holds H
  have hcount {o : Nat} (ho : o ∈ O) := refCount_congr (C.overwrites.layout ho)
  have hsi' := hcount hsrc ▸ hsi
  have hdi' := hcount hdst ▸ hdi
  refine ⟨C.overwrites.trans (H'.overwrites_field hdst hdi' (H'.fields hsrc hsi')), fun o ho i hi => ?_⟩
  rw [List.foldl_append, List.foldl_cons, List.foldl_nil, IdealHeap.copyField, IdealHeap.setField_field]
  by_cases he : o = dst ∧ i = di + k
  · obtain ⟨rfl, rfl⟩ := he
    rw [if_pos ⟨rfl, rfl⟩, read_write_self]
    exact C.fields src hsrc _ hsi
  · rw [if_neg he, read_write_of_ne]
    · exact C.fields o ho i hi
    · exact fun hf => he ((H'.field_inj ho (hcount ho ▸ hi) hdst hdi').1 hf.symm)

end

end Memory

namespace Mutator

open Object

variable {h : BumpHeap} {O : Set Nat} {m src si dst di len slot : Nat} {t : Mutator}

/-- Without barriers, what is read is what the slot holds. -/
theorem read_fixed : (Heap.barriers (H := BumpHeap)).read slot = loadSlot slot := bind_pure _

/-- **Copy of a run of reference fields** on a heap without barriers: the fields are as if they had all
been read before the first was written. -/
theorem ends_copyRefs_fixed (H : h.core.memory.Holds O) (hm : h.core.mutators[m]?.join = some t)
    (hsrc : src ∈ O) (hdst : dst ∈ O) (hsi : si + len ≤ refCount h.core.memory src)
    (hdi : di + len ≤ refCount h.core.memory dst) :
    Ends (copyRefs m src si dst di len) h fun _ h' => ∃ m',
      h' = HasMemory.setMemory m' h ∧ Memory.Overwrites O h.core.memory m' ∧
      ∀ o ∈ O, ∀ i < refCount h.core.memory o, m'.read (field o i) =
        (h.core.memory.fieldsOf.copyFields src si dst di len).field o i := by
  by_cases hlen : len = 0
  · subst hlen
    rw [copyRefs, if_pos rfl, ends_pure]
    refine ⟨_, rfl, .refl H, fun o _ i _ => ?_⟩
    by_cases ho : o = dst
    · subst ho
      have hnone : ¬ (di ≤ i ∧ i < di + 0) := by omega
      simp only [IdealHeap.copyFields, Function.update_self, if_neg hnone]
      rfl
    · simp only [IdealHeap.copyFields, Function.update_of_ne ho]
      rfl
  rw [copyRefs_of_ne hlen]
  show Ends (copyResolved m src si dst di len) h _
  refine (ends_copyResolved rfl (H.fits hsrc) (H.fits hdst) hsi hdi hlen hm).2 ?_
  have hrun : Ends (Action.each (copyOrder (field src si) (field dst di) len)
      (copyRef (H := BumpHeap) ⟨field src si, len⟩ ⟨field dst di, len⟩)) h fun _ h' => ∃ m',
        h' = HasMemory.setMemory m' h ∧ Memory.CopyingRun O h.core.memory m' src si dst di
          (copyOrder (field src si) (field dst di) len) := by
    refine ends_each (fun done _ (h' : BumpHeap) => ∃ m', h' = HasMemory.setMemory m' h ∧
      Memory.CopyingRun O h.core.memory m' src si dst di done) ⟨_, rfl, .refl H⟩ ?_
    rintro done k rest _ hsplit ⟨m', rfl, C⟩
    have hk : k < len := mem_copyOrder.1 (by rw [hsplit]; simp)
    have H' := C.overwrites.holds H
    have hcount {o : Nat} (ho : o ∈ O) := Memory.refCount_congr (C.overwrites.layout ho)
    have hs := (H'.fits hsrc).slot_eq (hcount hsrc ▸ hsi) hk
    have hd := (H'.fits hdst).slot_eq (hcount hdst ▸ hdi) hk
    have hmem : HasMemory.memory (HasMemory.setMemory m' h) = m' := rfl
    simp only [copyRef, read_fixed, ends_bind, ends_lift, ends_loadSlot, ends_storeSlot, hmem]
    exact ⟨_, hs, _, hd, _, rfl, C.step H hsrc hdst (by omega) (by omega)⟩
  have hdown : src = dst → decide (field src si < field dst di) = decide (si < di) := by
    rintro rfl
    simp only [field]
    exact decide_eq_decide.2 (by omega)
  show Ends (do
    Action.each (copyOrder (field src si) (field dst di) len)
      (copyRef (H := BumpHeap) ⟨field src si, len⟩ ⟨field dst di, len⟩)
    pure ()) h _
  rw [ends_bind]
  refine hrun.mono ?_
  rintro _ _ ⟨m', rfl, C⟩
  refine ends_pure.2 ⟨m', rfl, C.overwrites, fun o ho i hi => ?_⟩
  rw [C.fields o ho i hi, ← IdealHeap.foldl_copyField_eq hdown, copyOrder]
  simp only [decide_eq_true_eq]

end Mutator

end ManagedHeap
