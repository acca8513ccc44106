/-
# What references mean

While a cycle relocates, an object can have two copies, a reference may be that of the older one,
and the memory of the older one still holds an object.  This module says when all of that is in
order.

* A `World` is what one knows about a heap beyond its state: which addresses are those of the
  objects of the program (`objects`), which object an address stands for (`name`), and the ideal
  heap.  A reference *refers* to an object when it is its address, or that of a copy it was moved
  from; it is *current* when the barriers would give it back as it is.
* `Faithful` says that the objects hold what those of the ideal heap do, and where a stale
  reference may still be.
* `Snapshot` says how far marking has come.  It is the invariant of marking from a snapshot: what
  was reachable when marking began is marked, or recorded, or behind a field that was not traced
  and still holds what it held.

The world changes only in ghost: no definition of a heap reads it.
-/
import ManagedHeap.Proofs.Buffers
import ManagedHeap.Proofs.Ideal
import ManagedHeap.Proofs.Records
import Mathlib.Data.Set.Basic

namespace ManagedHeap

/-! ## 1. Stages of a cycle -/

/-- How far a cycle has come. -/
inductive Stage where
  | idle
  | marking
  /-- The regions to relocate are chosen. -/
  | chosen
  /-- Their live objects are copied. -/
  | copied
  /-- No reference to an older copy is left. -/
  | updated
  deriving DecidableEq, Repr

namespace Stage

/-- The flags of the barriers. -/
def flags : Stage → GcState
  | idle => .idle
  | marking => .duringMark
  | chosen => .duringEvacuation
  | copied | updated => .duringUpdate

/-- The phase of the cycle. -/
def phase : Stage → CyclePhase
  | idle => .idle
  | marking => .concurrentMark
  | chosen | copied | updated => .concurrentRelocate

/-- Whether some regions are relocated. -/
def relocates : Stage → Bool
  | idle | marking => false
  | chosen | copied | updated => true

/-- Whether fields and roots may hold references to older copies. -/
def stale : Stage → Bool
  | chosen | copied => true
  | idle | marking | updated => false

theorem relocates_of_stale (st : Stage) (h : st.stale = true) : st.relocates = true := by
  cases st <;> first | rfl | cases h

theorem ne_marking_of_relocates (st : Stage) (h : st.relocates = true) : st ≠ .marking := by
  rintro rfl
  cases h

theorem ne_marking_of_stale (st : Stage) (h : st.stale = true) : st ≠ .marking :=
  st.ne_marking_of_relocates (st.relocates_of_stale h)

end Stage

/-! ## 2. The world -/

/-- Reachable from some values through the fields of a memory. -/
inductive Reached (m : Memory) (roots : Set Nat) : Nat → Prop where
  | root {v : Nat} : v ∈ roots → v ≠ 0 → Reached m roots v
  | field {o i : Nat} : Reached m roots o → i < Object.refCount m o →
      m.read (Object.field o i) ≠ 0 → Reached m roots (m.read (Object.field o i))

/-- What is known about a heap beyond its state. -/
structure World where
  /-- The addresses of the objects of the program, the newest copy of each. -/
  objects : Set Nat
  /-- The identity of the object that an address stands for. -/
  name : Nat → Nat
  ideal : IdealHeap
  /-- Objects into which references were stored without a barrier. -/
  loose : Set Nat := ∅
  /-- Memory when marking began. -/
  snapshot : Memory := {}
  /-- What the roots held when marking began. -/
  rootValues : Set Nat := ∅

/-- A step that a worker of the collector has begun and not ended. -/
inductive MarkTask where
  /-- To mark what a slot holds. -/
  | slot (a : Nat)
  /-- To mark an object. -/
  | entry (v : Nat)
  /-- To make a marked object grey. -/
  | push (o : Nat)
  deriving DecidableEq, Repr

namespace World

/-- Reachable when marking began. -/
def Base (W : World) (o : Nat) : Prop := Reached W.snapshot W.rootValues o

end World

namespace HeapView

/-- An address that an object was moved from, and the address of the copy. -/
structure Moved (V : HeapView) (W : World) (v c : Nat) : Prop where
  published : V.Published v
  relocating : V.Relocating v
  status : V.memory.read v = Object.tagged c
  mem : c ∈ W.objects
  settled : ¬ V.Relocating c
  name_eq : W.name v = W.name c

/-- A reference to an object, by its address or an older one. -/
def Refers (V : HeapView) (W : World) (v : Nat) : Prop := v ∈ W.objects ∨ ∃ c, V.Moved W v c

/-- A reference that the barriers would give back as it is. -/
def Current (V : HeapView) (W : World) (v : Nat) : Prop :=
  v ∈ W.objects ∧ (V.Relocating v → V.memory.read v = Object.tagged v)

/-- What a field of an object may hold. -/
def FieldOk (V : HeapView) (W : World) (st : Stage) (o v : Nat) : Prop :=
  v = 0 ∨ V.Current W v ∨ (V.Refers W v ∧ ((st.stale = true ∧ V.Live o) ∨ o ∈ W.loose))

/-- What a root may hold. -/
def RootOk (V : HeapView) (W : World) (st : Stage) (v : Nat) : Prop :=
  v = 0 ∨ V.Current W v ∨ (st.stale = true ∧ V.Refers W v)

/-- The heap holds the objects of the program. -/
structure Faithful (V : HeapView) (W : World) (st : Stage) : Prop where
  published : ∀ {o}, o ∈ W.objects → V.Published o
  count_pos : 0 < W.ideal.count
  name_zero : W.name 0 = 0
  name_pos : ∀ {o}, o ∈ W.objects → 0 < W.name o
  name_lt : ∀ {o}, o ∈ W.objects → W.name o < W.ideal.count
  name_inj : ∀ {o o'}, o ∈ W.objects → o' ∈ W.objects → W.name o = W.name o' → o = o'
  refs : ∀ {o}, o ∈ W.objects → Object.refCount V.memory o = W.ideal.refs (W.name o)
  bytes : ∀ {o}, o ∈ W.objects → Object.payloadBytes V.memory o = W.ideal.bytes (W.name o)
  fields : ∀ {o i}, o ∈ W.objects → i < Object.refCount V.memory o →
    V.FieldOk W st o (V.memory.read (Object.field o i)) ∧
      W.name (V.memory.read (Object.field o i)) = W.ideal.field (W.name o) i
  words : ∀ {o k}, o ∈ W.objects → 8 ∣ k → k + 8 ≤ Object.payloadBytes V.memory o →
    V.memory.read (o + 16 + 8 * Object.refCount V.memory o + k) = W.ideal.word (W.name o) k
  roots : ∀ {c}, c ∈ V.roots.cells → c.live = true →
    V.RootOk W st (V.memory.read c.slot) ∧ W.name (V.memory.read c.slot) = W.ideal.root c.slot
  registered : V.roots.registered = W.ideal.registered
  /-- An object that was copied, or could not be, is in a region that is relocated. -/
  status : ∀ {o}, V.Published o → V.memory.read o = 0 ∨
    (V.Relocating o ∧ V.Kept o ∧ o ∈ W.objects ∧ V.memory.read o = Object.tagged o) ∨
    ∃ c, V.Moved W o c
  /-- A region is to be kept for some object of it that could not be copied. -/
  excused : ∀ {i}, (V.region i).evacFailed = true →
    ∃ o ∈ W.objects, V.index o = i ∧ V.memory.read o = Object.tagged o
  states : ∀ i, (V.region i).state ≠ .marked ∧
    (st.relocates = false → (V.region i).state ≠ .relocating)
  /-- What marking found live, and marking that was cancelled too, is an object of the program, or
  was moved. -/
  survivors : st ≠ .marking → ∀ {o}, V.Published o → V.Live o → V.Refers W o
  live : st.relocates = true → ∀ {o}, o ∈ W.objects → V.Relocating o → V.Live o
  copied : st = .copied ∨ st = .updated → ∀ {o}, o ∈ W.objects → V.Relocating o →
    V.memory.read o = Object.tagged o
  unrecorded : st ≠ .marking → ∀ v, ¬ V.satb.Recorded v

/-- The flags and the phase are those of a stage. -/
def InStage (V : HeapView) (st : Stage) : Prop := V.gcState = st.flags ∧ V.phase = st.phase

/-! ## 3. The invariant of marking -/

/-- A reference that marking has seen, or will: its object is live, or it is to be marked. -/
def Accounted (V : HeapView) (ts : List MarkTask) (v : Nat) : Prop :=
  V.Live v ∨ V.satb.Recorded v ∨ .entry v ∈ ts

/-- Marking has not looked at a field: its object is not marked, or waits to be traced. -/
def Untraced (V : HeapView) (ts : List MarkTask) (o i : Nat) : Prop :=
  ¬ V.Live o ∨ o ∈ V.grey.toList ∨ .push o ∈ ts ∨ .slot (Object.field o i) ∈ ts

/-- A task is about objects of the program. -/
def TaskOk (V : HeapView) (W : World) : MarkTask → Prop
  | .slot a => ∃ o ∈ W.objects, ∃ i < Object.refCount V.memory o, a = Object.field o i
  | .entry v => v = 0 ∨ v ∈ W.objects
  | .push o => o ∈ W.objects

/-- **The invariant of marking from a snapshot**, with the tasks of all workers. -/
structure Snapshot (V : HeapView) (W : World) (ts : List MarkTask) : Prop where
  base_mem : ∀ {o}, W.Base o → o ∈ W.objects
  shape : ∀ {o}, W.Base o → W.snapshot.read (o + 8) = V.memory.read (o + 8)
  live_mem : ∀ {o}, V.Published o → V.Live o → o ∈ W.objects
  new_live : ∀ {o}, o ∈ W.objects → ¬ W.Base o → V.Live o
  roots : ∀ {v}, v ∈ W.rootValues → v = 0 ∨ V.Accounted ts v
  traced : ∀ {o i}, W.Base o → i < Object.refCount V.memory o →
    W.snapshot.read (Object.field o i) = 0 ∨
      V.Accounted ts (W.snapshot.read (Object.field o i)) ∨
      (V.Untraced ts o i ∧
        V.memory.read (Object.field o i) = W.snapshot.read (Object.field o i))
  recorded : ∀ {v}, V.satb.Recorded v → v ∈ W.objects
  grey : ∀ {o}, o ∈ V.grey.toList → o ∈ W.objects
  tasks : ∀ {t}, t ∈ ts → V.TaskOk W t

/-- The invariant of a heap: its layout, its objects, and how far marking has come. -/
structure Inv (V : HeapView) (W : World) (st : Stage) (ts : List MarkTask) : Prop where
  layout : V.Layout
  faithful : V.Faithful W st
  snapshot : st = .marking → V.Snapshot W ts

/-! ## 4. Copies of an object -/

section
variable {V : HeapView} {W : World} {st : Stage} {o v c e : Nat}

theorem Moved.refers (h : V.Moved W v c) : V.Refers W v := .inr ⟨c, h⟩

theorem Current.refers (h : V.Current W v) : V.Refers W v := .inl h.1

theorem Moved.current (h : V.Moved W v c) : V.Current W c := ⟨h.mem, fun hr => absurd hr h.settled⟩

theorem Faithful.refers_published (F : V.Faithful W st) (h : V.Refers W v) : V.Published v := by
  rcases h with h | ⟨c, h⟩
  · exact F.published h
  · exact h.published

theorem Faithful.name_refers_pos (F : V.Faithful W st) (h : V.Refers W v) : 0 < W.name v := by
  rcases h with h | ⟨c, h⟩
  · exact F.name_pos h
  · rw [h.name_eq]
    exact F.name_pos h.mem

/-- A current reference is not forwarded, or to itself. -/
theorem Faithful.resolve_current (F : V.Faithful W st) (L : V.Layout) (h : V.Current W v) :
    Object.resolve V.memory v = v := by
  have hB := L.bounds (F.published h.1)
  rcases F.status (F.published h.1) with h0 | ⟨-, -, -, hs⟩ | ⟨c, hc⟩
  · exact Object.resolve_of_zero h0
  · exact Object.resolve_of_tagged hs hB.aligned hB.pos
  · exact Object.resolve_of_tagged (h.2 hc.relocating) hB.aligned hB.pos

theorem Moved.resolve (h : V.Moved W v c) (F : V.Faithful W st) (L : V.Layout) :
    Object.resolve V.memory v = c :=
  Object.resolve_of_tagged h.status (L.bounds (F.published h.mem)).aligned
    (L.bounds h.published).pos

/-- What a reference resolves to is the same object, by its newest address. -/
theorem Faithful.resolve_refers (F : V.Faithful W st) (L : V.Layout) (h : V.Refers W v) :
    Object.resolve V.memory v ∈ W.objects ∧ W.name (Object.resolve V.memory v) = W.name v := by
  rcases h with h | ⟨c, h⟩
  · have hB := L.bounds (F.published h)
    rcases F.status (F.published h) with h0 | ⟨-, -, -, hs⟩ | ⟨c, hc⟩
    · rw [Object.resolve_of_zero h0]
      exact ⟨h, rfl⟩
    · rw [Object.resolve_of_tagged hs hB.aligned hB.pos]
      exact ⟨h, rfl⟩
    · rw [hc.resolve F L]
      exact ⟨hc.mem, hc.name_eq.symm⟩
  · rw [h.resolve F L]
    exact ⟨h.mem, h.name_eq.symm⟩

/-- **Two references are to one object exactly if they resolve to one address.** -/
theorem Faithful.resolve_eq_iff (F : V.Faithful W st) (L : V.Layout) (h : V.Refers W v)
    (h' : V.Refers W e) :
    Object.resolve V.memory v = Object.resolve V.memory e ↔ W.name v = W.name e := by
  obtain ⟨h1, h2⟩ := F.resolve_refers L h
  obtain ⟨h3, h4⟩ := F.resolve_refers L h'
  constructor
  · intro he
    rw [← h2, ← h4, he]
  · intro he
    exact F.name_inj h1 h3 (by rw [h2, h4, he])

/-- An object of the program that was moved is named by its copy, so it is none any more. -/
theorem Faithful.not_moved (F : V.Faithful W st) (h : v ∈ W.objects) : ¬ V.Moved W v c := by
  intro hm
  have := F.name_inj h hm.mem hm.name_eq
  subst this
  exact hm.settled hm.relocating

/-- Outside of a relocation every reference is current. -/
theorem Faithful.current_of_calm (F : V.Faithful W st) (hst : st.relocates = false)
    (h : V.Refers W v) : V.Current W v := by
  rcases h with h | ⟨c, h⟩
  · exact ⟨h, fun hr => absurd hr ((F.states _).2 hst)⟩
  · exact absurd h.relocating ((F.states _).2 hst)

theorem FieldOk.refers (h : V.FieldOk W st o v) (hv : v ≠ 0) : V.Refers W v := by
  rcases h with h | h | h
  · exact absurd h hv
  · exact h.refers
  · exact h.1

theorem RootOk.refers (h : V.RootOk W st v) (hv : v ≠ 0) : V.Refers W v := by
  rcases h with h | h | h
  · exact absurd h hv
  · exact h.refers
  · exact h.2

end

/-! ## 5. Heaps with the same objects -/

/-- The same addresses are those of objects, and nothing but what is live may have changed about
the objects' regions and headers. -/
structure SamePlaces (V V' : HeapView) : Prop where
  index : ∀ a, V'.index a = V.index a
  failed : ∀ i, (V'.region i).evacFailed = (V.region i).evacFailed
  published : ∀ o, V'.Published o ↔ V.Published o
  relocating : ∀ {o}, V.Published o → (V'.Relocating o ↔ V.Relocating o)
  status : ∀ {o}, V.Published o → V'.memory.read o = V.memory.read o
  shape : ∀ {o}, V.Published o → V'.memory.read (o + 8) = V.memory.read (o + 8)

/-- The same objects are live as well. -/
structure SameObjects (V V' : HeapView) : Prop extends SamePlaces V V' where
  live : ∀ {o}, V.Published o → (V'.Live o ↔ V.Live o)

section
variable {V V' : HeapView} {W W' : World} {st : Stage} {o v c : Nat}

theorem SameObjects.refl (V : HeapView) : SameObjects V V :=
  ⟨⟨fun _ => rfl, fun _ => rfl, fun _ => Iff.rfl, fun _ => Iff.rfl, fun _ => rfl, fun _ => rfl⟩,
    fun _ => Iff.rfl⟩

/-- Objects are a matter of memory and regions. -/
theorem SameObjects.of_eq (hm : V'.memory = V.memory) (hr : V'.region = V.region)
    (hl : V'.low = V.low) (hs : V'.regionSize = V.regionSize) : SameObjects V V' := by
  have hreg (o : Nat) : V'.regionOf o = V.regionOf o := by
    simp only [regionOf, index, hr, hl, hs]
  refine ⟨⟨fun _ => ?_, fun _ => ?_, fun o => ?_, fun {o} _ => ?_, fun _ => ?_, fun _ => ?_⟩,
    fun {o} _ => ?_⟩
  · rw [index, index, hl, hs]
  · rw [hr]
  · rw [Published, hreg, Published]
  · rw [Relocating, hreg, Relocating]
  · rw [hm]
  · rw [hm]
  · rw [Live, hreg, Live]

theorem SamePlaces.kept (S : SamePlaces V V') : V'.Kept o ↔ V.Kept o := by
  rw [Kept, regionOf, S.index, S.failed, Kept, regionOf]

theorem SamePlaces.refCount (S : SamePlaces V V') (h : V.Published o) :
    Object.refCount V'.memory o = Object.refCount V.memory o := by
  simp only [Object.refCount, wordBytes, S.shape h]

theorem SamePlaces.payloadBytes (S : SamePlaces V V') (h : V.Published o) :
    Object.payloadBytes V'.memory o = Object.payloadBytes V.memory o := by
  simp only [Object.payloadBytes, Object.refCount, Object.size, wordBytes, S.shape h]

theorem Moved.same (h : V.Moved W v c) (S : SamePlaces V V')
    (hpub : ∀ {o}, o ∈ W.objects → V.Published o)
    (ho : W'.objects = W.objects) (hn : W'.name = W.name) : V'.Moved W' v c where
  published := (S.published v).2 h.published
  relocating := (S.relocating h.published).2 h.relocating
  status := (S.status h.published).trans h.status
  mem := ho ▸ h.mem
  settled := fun hr => h.settled ((S.relocating (hpub h.mem)).1 hr)
  name_eq := hn ▸ h.name_eq

theorem Refers.same (h : V.Refers W v) (S : SamePlaces V V')
    (hpub : ∀ {o}, o ∈ W.objects → V.Published o)
    (ho : W'.objects = W.objects) (hn : W'.name = W.name) : V'.Refers W' v := by
  rcases h with h | ⟨c, h⟩
  · exact .inl (ho ▸ h)
  · exact .inr ⟨c, h.same S hpub ho hn⟩

theorem Current.same (h : V.Current W v) (S : SamePlaces V V')
    (hpub : ∀ {o}, o ∈ W.objects → V.Published o)
    (ho : W'.objects = W.objects) : V'.Current W' v := by
  have hp := hpub h.1
  exact ⟨ho ▸ h.1, fun hr => (S.status hp).trans (h.2 ((S.relocating hp).1 hr))⟩

theorem FieldOk.same (h : V.FieldOk W st o v) (S : SamePlaces V V')
    (hlive : st ≠ .marking → ∀ {o}, V.Published o → (V'.Live o ↔ V.Live o))
    (hpub : ∀ {o}, o ∈ W.objects → V.Published o) (hp : V.Published o)
    (ho : W'.objects = W.objects) (hn : W'.name = W.name) (hl : W.loose ⊆ W'.loose) :
    V'.FieldOk W' st o v := by
  rcases h with h | h | ⟨h, hs⟩
  · exact .inl h
  · exact .inr (.inl (h.same S hpub ho))
  · refine .inr (.inr ⟨h.same S hpub ho hn, ?_⟩)
    rcases hs with ⟨hst, hs⟩ | hs
    · exact .inl ⟨hst, (hlive (st.ne_marking_of_stale hst) hp).2 hs⟩
    · exact .inr (hl hs)

theorem RootOk.same (h : V.RootOk W st v) (S : SamePlaces V V')
    (hpub : ∀ {o}, o ∈ W.objects → V.Published o)
    (ho : W'.objects = W.objects) (hn : W'.name = W.name) : V'.RootOk W' st v := by
  rcases h with h | h | ⟨hst, h⟩
  · exact .inl h
  · exact .inr (.inl (h.same S hpub ho))
  · exact .inr (.inr ⟨hst, h.same S hpub ho hn⟩)

/-- **The objects stay and what they hold changes.**  What is left to show is about the contents of
fields, payloads and roots. -/
theorem Faithful.change (F : V.Faithful W st) (S : SamePlaces V V')
    (hlive : st ≠ .marking → ∀ {o}, V.Published o → (V'.Live o ↔ V.Live o))
    (ho : W'.objects = W.objects) (hn : W'.name = W.name)
    (hcount : W'.ideal.count = W.ideal.count) (hrefs : W'.ideal.refs = W.ideal.refs)
    (hbytes : W'.ideal.bytes = W.ideal.bytes)
    (hfields : ∀ {o i}, o ∈ W.objects → i < Object.refCount V.memory o →
      V'.FieldOk W' st o (V'.memory.read (Object.field o i)) ∧
        W.name (V'.memory.read (Object.field o i)) = W'.ideal.field (W.name o) i)
    (hwords : ∀ {o k}, o ∈ W.objects → 8 ∣ k → k + 8 ≤ Object.payloadBytes V.memory o →
      V'.memory.read (o + 16 + 8 * Object.refCount V.memory o + k) = W'.ideal.word (W.name o) k)
    (hroots : ∀ {c}, c ∈ V'.roots.cells → c.live = true →
      V'.RootOk W' st (V'.memory.read c.slot) ∧
        W.name (V'.memory.read c.slot) = W'.ideal.root c.slot)
    (hreg : V'.roots.registered = W'.ideal.registered)
    (hstates : ∀ i, (V'.region i).state ≠ .marked ∧
      (st.relocates = false → (V'.region i).state ≠ .relocating))
    (hrec : st ≠ .marking → ∀ v, ¬ V'.satb.Recorded v) : V'.Faithful W' st where
  published h := (S.published _).2 (F.published (ho ▸ h))
  count_pos := hcount ▸ F.count_pos
  name_zero := hn ▸ F.name_zero
  name_pos h := hn ▸ F.name_pos (ho ▸ h)
  name_lt h := by
    rw [hcount, hn]
    exact F.name_lt (ho ▸ h)
  name_inj h h' he := F.name_inj (ho ▸ h) (ho ▸ h') (hn ▸ he)
  refs h := by
    rw [S.refCount (F.published (ho ▸ h)), hrefs, hn]
    exact F.refs (ho ▸ h)
  bytes h := by
    rw [S.payloadBytes (F.published (ho ▸ h)), hbytes, hn]
    exact F.bytes (ho ▸ h)
  fields h hi := by
    rw [S.refCount (F.published (ho ▸ h))] at hi
    rw [hn]
    exact hfields (ho ▸ h) hi
  words h hk hle := by
    rw [S.payloadBytes (F.published (ho ▸ h))] at hle
    rw [S.refCount (F.published (ho ▸ h)), hn]
    exact hwords (ho ▸ h) hk hle
  roots h hl := by
    rw [hn]
    exact hroots h hl
  registered := hreg
  status h := by
    have hp := (S.published _).1 h
    rcases F.status hp with h0 | ⟨hr, hk, hm, hs⟩ | ⟨c, hc⟩
    · exact .inl ((S.status hp).trans h0)
    · exact .inr (.inl ⟨(S.relocating hp).2 hr, S.kept.2 hk, ho ▸ hm, (S.status hp).trans hs⟩)
    · exact .inr (.inr ⟨c, hc.same S F.published ho hn⟩)
  excused {i} hk := by
    obtain ⟨o, hm, hi, hs⟩ := F.excused (S.failed i ▸ hk)
    exact ⟨o, ho ▸ hm, (S.index o).trans hi, (S.status (F.published hm)).trans hs⟩
  states := hstates
  survivors hst _ h hl := by
    have hp := (S.published _).1 h
    exact (F.survivors hst hp ((hlive hst hp).1 hl)).same S F.published ho hn
  live hst _ h hr := by
    have hp := F.published (ho ▸ h)
    exact (hlive (st.ne_marking_of_relocates hst) hp).2 (F.live hst (ho ▸ h) ((S.relocating hp).1 hr))
  copied hst _ h hr := by
    have hp := F.published (ho ▸ h)
    exact (S.status hp).trans (F.copied hst (ho ▸ h) ((S.relocating hp).1 hr))
  unrecorded := hrec

/-- The objects stay, and so does memory. -/
theorem Faithful.sameMemory (F : V.Faithful W st) (S : SamePlaces V V')
    (hlive : st ≠ .marking → ∀ {o}, V.Published o → (V'.Live o ↔ V.Live o))
    (hmem : V'.memory = V.memory) (hcells : ∀ {c}, c ∈ V'.roots.cells → c ∈ V.roots.cells)
    (hreg : V'.roots.registered = V.roots.registered)
    (hstates : ∀ i, (V'.region i).state ≠ .marked ∧
      (st.relocates = false → (V'.region i).state ≠ .relocating))
    (hrec : st ≠ .marking → ∀ v, ¬ V'.satb.Recorded v) : V'.Faithful W st := by
  refine F.change S hlive rfl rfl rfl rfl rfl (fun {o i} ho hi => ?_) (fun {o k} ho hk hle => ?_)
    (fun {c} hc hl => ?_) (hreg.trans F.registered) hstates hrec
  · rw [hmem]
    obtain ⟨h1, h2⟩ := F.fields ho hi
    exact ⟨h1.same S hlive F.published (F.published ho) rfl rfl fun _ h => h, h2⟩
  · rw [hmem]
    exact F.words ho hk hle
  · rw [hmem]
    obtain ⟨h1, h2⟩ := F.roots (hcells hc) hl
    exact ⟨h1.same S F.published rfl rfl, h2⟩

/-- What marking has seen stays seen when objects stay, records are added, and a field is only
overwritten when what it held is accounted for. -/
theorem Snapshot.change {ts : List MarkTask} (X : V.Snapshot W ts) (S : SameObjects V V')
    (F : V.Faithful W st) (ho : W'.objects = W.objects) (hs : W'.snapshot = W.snapshot)
    (hv : W'.rootValues = W.rootValues) (hg : V'.grey = V.grey)
    (hrec : ∀ v, V.satb.Recorded v → V'.satb.Recorded v)
    (hrec' : ∀ v, V'.satb.Recorded v → v ∈ W.objects)
    (hfield : ∀ {o i}, W.Base o → i < Object.refCount V.memory o →
      V'.memory.read (Object.field o i) = V.memory.read (Object.field o i) ∨
        V.memory.read (Object.field o i) = 0 ∨
        V'.Accounted ts (V.memory.read (Object.field o i))) :
    V'.Snapshot W' ts := by
  have hbase {o : Nat} : W'.Base o ↔ W.Base o := by
    simp only [World.Base, hs, hv]
  have hlive {v : Nat} (hv : v ∈ W.objects) : V'.Live v ↔ V.Live v := S.live (F.published hv)
  have hacc {v : Nat} (hv : v ∈ W.objects) (h : V.Accounted ts v) : V'.Accounted ts v := by
    rcases h with h | h | h
    · exact .inl ((hlive hv).2 h)
    · exact .inr (.inl (hrec v h))
    · exact .inr (.inr h)
  refine ⟨fun h => ho ▸ X.base_mem (hbase.1 h), fun {o} h => ?_, fun h hl => ?_, fun h hb => ?_,
    fun {v} h => ?_, fun {o i} h hi => ?_, fun h => ho ▸ hrec' _ h, fun h => ?_, fun {t} h => ?_⟩
  · rw [hs, S.shape (F.published (X.base_mem (hbase.1 h)))]
    exact X.shape (hbase.1 h)
  · have hp := (S.published _).1 h
    exact ho ▸ X.live_mem hp ((S.live hp).1 hl)
  · have hm := ho ▸ h
    exact (hlive hm).2 (X.new_live hm fun h => hb (hbase.2 h))
  · rw [hv] at h
    by_cases h0 : v = 0
    · exact .inl h0
    · refine .inr (hacc (X.base_mem (.root h h0)) ?_)
      exact (X.roots h).resolve_left h0
  · have hb := hbase.1 h
    have hm := X.base_mem hb
    have hp := F.published hm
    rw [S.refCount hp] at hi
    have hcount : i < Object.refCount W.snapshot o := by
      simp only [Object.refCount, wordBytes, X.shape hb] at hi ⊢
      exact hi
    rw [hs]
    by_cases h0 : W.snapshot.read (Object.field o i) = 0
    · exact .inl h0
    have hval : W.snapshot.read (Object.field o i) ∈ W.objects := X.base_mem (.field hb hcount h0)
    rcases X.traced hb hi with h1 | h1 | ⟨h1, h2⟩
    · exact absurd h1 h0
    · exact .inr (.inl (hacc hval h1))
    · rcases hfield hb hi with hf | hf | hf
      · refine .inr (.inr ⟨?_, hf.trans h2⟩)
        rcases h1 with h1 | h1 | h1
        · exact .inl fun hl => h1 ((hlive hm).1 hl)
        · exact .inr (.inl (hg ▸ h1))
        · exact .inr (.inr h1)
      · exact absurd (h2 ▸ hf) h0
      · exact .inr (.inl (h2 ▸ hf))
  · rw [hg] at h
    exact ho ▸ X.grey h
  · have ht := X.tasks h
    cases t with
    | slot a =>
      obtain ⟨o, hm, i, hi, rfl⟩ := ht
      exact ⟨o, ho ▸ hm, i, by rwa [S.refCount (F.published hm)], rfl⟩
    | entry v =>
      rcases ht with h0 | hm
      · exact .inl h0
      · exact .inr (ho ▸ hm)
    | push o => exact (ho ▸ ht : o ∈ W'.objects)

end

end HeapView

end ManagedHeap
