/-
# Writes, and what they do to the invariant

The elementary changes of a heap that leave all objects where they are: a field, a payload word or
a root is overwritten, a reference is recorded, a root comes or goes, allocation takes memory into
use.  Each of them keeps the invariant (`Inv`), and does to the ideal heap what its name says.

A write to a field while marking runs is the delicate one.  What the field held must be accounted
for before, unless the object is new; this is what the pre-write barrier is for.
-/
import ManagedHeap.Proofs.References
import ManagedHeap.Proofs.Tally

namespace ManagedHeap.HeapView

/-! ## 1. Where the words of objects are -/

section
variable {V : HeapView} {o p i j k a : Nat}

/-- A byte of an object is none of another. -/
theorem Layout.inside_unique (L : V.Layout) (ho : V.Published o) (hp : V.Published p)
    (h1 : o ≤ a) (h2 : a < o + Object.size V.memory o) (h3 : p ≤ a)
    (h4 : a < p + Object.size V.memory p) : o = p := by
  by_contra hne
  rcases L.disjoint ho hp hne with h | h <;> omega

/-- An object is in one region. -/
theorem Layout.index_inside (L : V.Layout) (h : V.Published o) {b : Nat} (hb : o ≤ b)
    (hlt : b < o + Object.size V.memory o) : V.index b = V.index o := by
  have hB := L.bounds h
  have hbelow := L.objects.below h
  have hr := L.regions (V.index o)
  have htop : (V.regionOf o).top ≤ (V.regionOf o).limit := hr.top_le
  have hlimit : (V.regionOf o).limit = (V.regionOf o).bottom + V.regionSize := hr.limit_eq
  have hbottom : (V.regionOf o).bottom = V.low + V.index o * V.regionSize := hr.bottom_eq
  have hle := hB.bottom_le
  exact index_eq (by omega) (by omega)

theorem Layout.field_inside (L : V.Layout) (ho : V.Published o)
    (hi : i < Object.refCount V.memory o) :
    o + 16 ≤ Object.field o i ∧ Object.field o i + 8 ≤ o + Object.size V.memory o := by
  have := (L.objects.fits ho).field_lt hi
  simp only [Object.field] at *
  omega

theorem Layout.payload_inside (L : V.Layout) (ho : V.Published o)
    (hk : k + 8 ≤ Object.payloadBytes V.memory o) :
    o + 16 + 8 * Object.refCount V.memory o + k + 8 ≤ o + Object.size V.memory o := by
  have := (L.objects.fits ho).fields_le
  simp only [Object.payloadBytes] at hk
  omega

/-- A field is in the region of its object. -/
theorem Layout.index_field (L : V.Layout) (ho : V.Published o)
    (hi : i < Object.refCount V.memory o) : V.index (Object.field o i) = V.index o := by
  have h := L.field_inside ho hi
  exact L.index_inside ho (by omega) (by omega)

/-- A field is no word of a header. -/
theorem Layout.field_ne_header (L : V.Layout) (ho : V.Published o)
    (hi : i < Object.refCount V.memory o) (hp : V.Published p) :
    p ≠ Object.field o i ∧ p + 8 ≠ Object.field o i := by
  have h1 := L.field_inside ho hi
  have h2 := (L.objects.fits hp).fields_le
  constructor
  · intro he
    have := L.inside_unique (a := Object.field o i) ho hp (by omega) (by omega) (by omega) (by omega)
    omega
  · intro he
    have := L.inside_unique (a := Object.field o i) ho hp (by omega) (by omega) (by omega) (by omega)
    omega

theorem Layout.field_inj (L : V.Layout) (ho : V.Published o)
    (hi : i < Object.refCount V.memory o) (hp : V.Published p)
    (hj : j < Object.refCount V.memory p) (he : Object.field o i = Object.field p j) :
    o = p ∧ i = j := by
  have h1 := L.field_inside ho hi
  have h2 := L.field_inside hp hj
  have := L.inside_unique (a := Object.field o i) ho hp (by omega) (by omega) (by omega) (by omega)
  subst this
  simp only [Object.field] at he
  exact ⟨rfl, by omega⟩

theorem Layout.field_ne_payload (L : V.Layout) (ho : V.Published o)
    (hi : i < Object.refCount V.memory o) (hp : V.Published p)
    (hk : k + 8 ≤ Object.payloadBytes V.memory p) :
    p + 16 + 8 * Object.refCount V.memory p + k ≠ Object.field o i := by
  intro he
  have h1 := L.field_inside ho hi
  have h2 := L.payload_inside hp hk
  have := L.inside_unique (a := Object.field o i) ho hp (by omega) (by omega) (by omega) (by omega)
  subst this
  simp only [Object.field] at he
  omega

theorem Layout.payload_inj (L : V.Layout) {k' : Nat} (ho : V.Published o) (hp : V.Published p)
    (hk : k + 8 ≤ Object.payloadBytes V.memory o) (hk' : k' + 8 ≤ Object.payloadBytes V.memory p)
    (he : o + 16 + 8 * Object.refCount V.memory o + k =
      p + 16 + 8 * Object.refCount V.memory p + k') : o = p ∧ k = k' := by
  have h1 := L.payload_inside ho hk
  have h2 := L.payload_inside hp hk'
  have := L.inside_unique (a := o + 16 + 8 * Object.refCount V.memory o + k) ho hp (by omega)
    (by omega) (by omega) (by omega)
  subst this
  exact ⟨rfl, by omega⟩

/-- A root cell is outside of all objects. -/
theorem Layout.slot_ge (L : V.Layout) {c : RootCell} (hc : c ∈ V.roots.cells) :
    rootBase ≤ c.slot := by
  obtain ⟨k, -, he⟩ := L.roots c hc
  omega

theorem Layout.inside_lt (L : V.Layout) (ho : V.Published o)
    (h : a < o + Object.size V.memory o) : a < rootBase :=
  Nat.lt_of_lt_of_le h (L.bounds ho).end_le

end

/-! ## 2. Evolution -/

/-- How many mutators there are. -/
def count (V : HeapView) : Nat := V.mutators.toList.countP (·.isSome)

/-- References stay what they are, and an object that is new was not there before. -/
structure Preserves (V : HeapView) (W : World) (V' : HeapView) (W' : World) : Prop where
  refers : ∀ {v}, V.Refers W v → V'.Refers W' v ∧ W'.name v = W.name v
  current : ∀ {v}, V.Current W v → V'.Current W' v
  published : ∀ {o}, V.Published o → V'.Published o
  fresh : ∀ {o}, V'.Published o → V.Published o ∨ V'.Refers W' o
  old : ∀ {o}, o ∈ W'.objects → o ∈ W.objects ∨ ¬ V.Published o
  /-- An object of the program was one before, maybe elsewhere, or has a new identity. -/
  born : ∀ {o}, o ∈ W'.objects → (∃ p ∈ W.objects, W.name p = W'.name o) ∨
    W.ideal.count ≤ W'.name o
  count_le : W.ideal.count ≤ W'.ideal.count
  shape : ∀ {o}, V.Published o → V'.memory.read (o + 8) = V.memory.read (o + 8)
  fills : Fills V V'
  counted : V.Counted none → V'.Counted none
  loose : W'.loose = W.loose
  snapshot : W'.snapshot = W.snapshot
  rootValues : W'.rootValues = W.rootValues
  gcState : V'.gcState = V.gcState
  phase : V'.phase = V.phase
  pending : V'.pending = V.pending
  cancel : V'.cancelRequested = V.cancelRequested
  options : V'.options = V.options
  joined : V.joined = V.count → V'.joined = V'.count
  index : ∀ a, V'.index a = V.index a
  relocating : ∀ {o}, V.Published o → (V'.Relocating o ↔ V.Relocating o)

/-- A reference is still to the same object, and one that was current is so still. -/
structure Follows (V : HeapView) (W : World) (V' : HeapView) (W' : World) : Prop where
  refers : ∀ {v}, V.Refers W v → V'.Refers W' v ∧ W'.name v = W.name v
  current : ∀ {v}, V.Current W v → V'.Current W' v

/-- An object has a copy elsewhere. -/
def Forwarded (V : HeapView) (p c : Nat) : Prop :=
  V.Published p ∧ Object.forwardee? V.memory p = some c ∧ c ≠ p

/-- The objects that have a copy since `V` were copied to memory that was untouched, each to a place of
its own. -/
structure Copies (V V' : HeapView) : Prop where
  fresh : ∀ {p c}, V'.Forwarded p c →
    V.Forwarded p c ∨ V.arena.Fresh V'.arena c (Object.size V'.memory p)
  apart : ∀ {p q c d}, V'.Forwarded p c → ¬ V.Forwarded p c → V'.Forwarded q d →
    ¬ V.Forwarded q d → p ≠ q →
    c + Object.size V'.memory p ≤ d ∨ d + Object.size V'.memory q ≤ c

/-- A mutator is given a range, apart from where objects were copied to. -/
structure Gives (V V' : HeapView) (m a n : Nat) : Prop where
  serves : V.arena.Serves V'.arena m a n
  apart : ∀ {p c}, V'.Forwarded p c → ¬ V.Forwarded p c →
    c + Object.size V'.memory p ≤ a ∨ a + n ≤ c

/-- From `V` to `V'` memory was handed out that was free, and objects were copied to it. -/
structure Grants (V V' : HeapView) : Prop where
  fills : Fills V V'
  published : ∀ {o}, V.Published o → V'.Published o
  copies : V.Copies V'
  sizes : ∀ {o}, V.Published o → Object.size V'.memory o = Object.size V.memory o

/-- What every operation of a mutator keeps. -/
structure Persists (V : HeapView) (W : World) (V' : HeapView) (W' : World) : Prop
    extends V.Preserves W V' W' where
  copies : V.Copies V'
  tallied : V.Tallied → V'.Tallied

/-- What the operations of a mutator keep that end no mutator and drop no root. -/
structure Evolves (V : HeapView) (W : World) (V' : HeapView) (W' : World) : Prop
    extends V.Persists W V' W' where
  bound : ∀ {m}, (V.mutator? m).isSome = true → (V'.mutator? m).isSome = true
  handles : ∀ {c}, c ∈ V.roots.cells → c.live = true → c ∈ V'.roots.cells

section
variable {V V' V'' : HeapView} {W W' W'' : World} {st : Stage}
  {v o p c m a n : Nat}

theorem SamePlaces.forwarded (S : SamePlaces V V') : V'.Forwarded p c ↔ V.Forwarded p c := by
  unfold Forwarded
  rw [S.published]
  exact and_congr_right fun h => by rw [Object.forwardee?_congr (S.status h)]

theorem Copies.of_none (h : ∀ {p c}, V'.Forwarded p c → V.Forwarded p c) : V.Copies V' :=
  ⟨fun hp => .inl (h hp), fun hp hn => absurd (h hp) hn⟩

theorem Copies.trans (C : V.Copies V') (C' : V'.Copies V'') (F : Fills V V') (F' : Fills V' V'')
    (hs : ∀ {o}, V'.Published o → Object.size V''.memory o = Object.size V'.memory o) :
    V.Copies V'' := by
  have hold {p c : Nat} (hp : V'.Forwarded p c) (hn : ¬ V.Forwarded p c) :
      V.arena.Fresh V'.arena c (Object.size V''.memory p) := by
    rw [hs hp.1]
    exact (C.fresh hp).resolve_left hn
  have hnew {p c : Nat} (hp : V''.Forwarded p c) (hn : ¬ V'.Forwarded p c) :
      V'.arena.Fresh V''.arena c (Object.size V''.memory p) := (C'.fresh hp).resolve_left hn
  refine ⟨fun {p c} hp => ?_, fun {p q c d} hp hpn hq hqn hne => ?_⟩
  · by_cases h1 : V.Forwarded p c
    · exact .inl h1
    · by_cases h2 : V'.Forwarded p c
      · exact .inr ((hold h2 h1).fills F'.arena)
      · exact .inr ((hnew hp h2).of_fills F.arena)
  · by_cases h1 : V'.Forwarded p c <;> by_cases h2 : V'.Forwarded q d
    · rw [hs h1.1, hs h2.1]
      exact C.apart h1 hpn h2 hqn hne
    · exact (hold h1 hpn).apart (hnew hq h2)
    · exact ((hold h2 hqn).apart (hnew hp h1)).symm
    · exact C'.apart hp h1 hq h2 hne

/-- Objects are copied first, and then a mutator is given a range. -/
theorem Gives.of_serves (C : V.Copies V') (F : Fills V V') (F' : Fills V' V'')
    (h : V'.arena.Serves V''.arena m a n)
    (hf : ∀ {p c}, V''.Forwarded p c → V'.Forwarded p c)
    (hs : ∀ {o}, V'.Published o → Object.size V''.memory o = Object.size V'.memory o) :
    V.Gives V'' m a n where
  serves := h.of_fills F.arena
  apart hp hn := by
    rw [hs (hf hp).1]
    exact ((C.fresh (hf hp)).resolve_left hn).apart_serves h F'.arena

theorem Follows.refl (V : HeapView) (W : World) : V.Follows W V W := ⟨fun h => ⟨h, rfl⟩, id⟩

/-- References are a matter of memory and regions. -/
theorem Follows.of_eq (hm : V'.memory = V.memory) (hr : V'.region = V.region)
    (hl : V'.low = V.low) (hs : V'.regionSize = V.regionSize) : V.Follows W V' W := by
  have hreg (o : Nat) : V'.regionOf o = V.regionOf o := by
    simp only [regionOf, index, hr, hl, hs]
  have hrel {o : Nat} : V'.Relocating o ↔ V.Relocating o := by rw [Relocating, hreg, Relocating]
  refine ⟨fun {v} h => ⟨h.imp_right ?_, rfl⟩, fun {v} h => ⟨h.1, fun hv => ?_⟩⟩
  · rintro ⟨c, h⟩
    exact ⟨c, by rw [Published, hreg]; exact h.published, hrel.2 h.relocating, hm ▸ h.status, h.mem,
      fun hc => h.settled (hrel.1 hc), h.name_eq⟩
  · exact hm ▸ h.2 (hrel.1 hv)

theorem Follows.trans (h : V.Follows W V' W') (h' : V'.Follows W' V'' W'') :
    V.Follows W V'' W'' where
  refers hv := ⟨(h'.refers (h.refers hv).1).1,
    (h'.refers (h.refers hv).1).2.trans (h.refers hv).2⟩
  current hv := h'.current (h.current hv)

theorem Preserves.follows (h : V.Preserves W V' W') : V.Follows W V' W' := ⟨h.refers, h.current⟩

theorem Preserves.sizes (h : V.Preserves W V' W') (ho : V.Published o) :
    Object.size V'.memory o = Object.size V.memory o := by
  simp only [Object.size, wordBytes, h.shape ho]

theorem Preserves.trans (h : V.Preserves W V' W') (h' : V'.Preserves W' V'' W'') :
    V.Preserves W V'' W'' where
  refers := (h.follows.trans h'.follows).refers
  current := (h.follows.trans h'.follows).current
  published ho := h'.published (h.published ho)
  fresh ho := by
    rcases h'.fresh ho with h1 | h1
    · rcases h.fresh h1 with h2 | h2
      · exact .inl h2
      · exact .inr (h'.refers h2).1
    · exact .inr h1
  old ho := by
    rcases h'.old ho with h1 | h1
    · exact h.old h1
    · exact .inr fun h2 => h1 (h.published h2)
  born ho := by
    rcases h'.born ho with ⟨p, hp, he⟩ | hc
    · rw [← he]
      exact h.born hp
    · exact .inr (Nat.le_trans h.count_le hc)
  count_le := Nat.le_trans h.count_le h'.count_le
  shape ho := (h'.shape (h.published ho)).trans (h.shape ho)
  fills := h.fills.trans h'.fills
  counted hc := h'.counted (h.counted hc)
  loose := h'.loose.trans h.loose
  snapshot := h'.snapshot.trans h.snapshot
  rootValues := h'.rootValues.trans h.rootValues
  gcState := h'.gcState.trans h.gcState
  phase := h'.phase.trans h.phase
  pending := h'.pending.trans h.pending
  cancel := h'.cancel.trans h.cancel
  options := h'.options.trans h.options
  joined hj := h'.joined (h.joined hj)
  index a := (h'.index a).trans (h.index a)
  relocating hp := (h'.relocating (h.published hp)).trans (h.relocating hp)

theorem Grants.trans (h : V.Grants V') (h' : V'.Grants V'') : V.Grants V'' where
  fills := h.fills.trans h'.fills
  published ho := h'.published (h.published ho)
  copies := h.copies.trans h'.copies h.fills h'.fills h'.sizes
  sizes ho := (h'.sizes (h.published ho)).trans (h.sizes ho)

/-- Nothing is handed out when regions are as full as before and memory is the same. -/
theorem Grants.of_space (S : SameSpace V V') (hp : ∀ o, V'.Published o ↔ V.Published o)
    (hm : V'.memory = V.memory) : V.Grants V' :=
  ⟨S.fills, (hp _).2, .of_none fun h => ⟨(hp _).1 h.1, hm ▸ h.2⟩, fun _ => by rw [hm]⟩

theorem Persists.grants (h : V.Persists W V' W') : V.Grants V' :=
  ⟨h.fills, h.published, h.copies, h.sizes⟩

theorem Persists.trans (h : V.Persists W V' W') (h' : V'.Persists W' V'' W'') :
    V.Persists W V'' W'' where
  toPreserves := h.toPreserves.trans h'.toPreserves
  copies := (h.grants.trans h'.grants).copies
  tallied X := h'.tallied (h.tallied X)

theorem Evolves.refl (V : HeapView) (W : World) : V.Evolves W V W :=
  ⟨⟨⟨fun h => ⟨h, rfl⟩, fun h => h, fun h => h, .inl, .inl, fun h => .inl ⟨_, h, rfl⟩, Nat.le_refl _,
    fun _ => rfl, Fills.refl V, fun h => h, rfl, rfl, rfl, rfl, rfl, rfl, rfl, rfl,
    fun h => h, fun _ => rfl, fun _ => Iff.rfl⟩, .of_none id, id⟩, fun h => h, fun h _ => h⟩

theorem Evolves.trans (h : V.Evolves W V' W') (h' : V'.Evolves W' V'' W'') :
    V.Evolves W V'' W'' where
  toPersists := h.toPersists.trans h'.toPersists
  bound hm := h'.bound (h.bound hm)
  handles hc hl := h'.handles (h.handles hc hl) hl

/-- **An object more**, where objects may have been copied as well. -/
theorem Evolves.place (h : V.Evolves W V' W') (P : V'.Preserves W' V'' W'') (C : V.Copies V'')
    (ht : V.Tallied → V''.Tallied) (hm : V''.mutators = V'.mutators) (hr : V''.roots = V'.roots) :
    V.Evolves W V'' W'' where
  toPreserves := h.toPreserves.trans P
  copies := C
  tallied := ht
  bound hb := by
    simp only [mutator?, hm]
    exact h.bound hb
  handles hc hl := hr ▸ h.handles hc hl

theorem Preserves.inStage (h : V.Preserves W V' W') (hs : V.InStage st) : V'.InStage st :=
  ⟨h.gcState.trans hs.1, h.phase.trans hs.2⟩

theorem Preserves.name (h : V.Preserves W V' W') (hv : V.Refers W v) : W'.name v = W.name v :=
  (h.refers hv).2

/-- Allocation binds and ends no mutator. -/
theorem Grows.count (h : Grows V V') : V'.count = V.count := by
  have hcount (M : Array (Option Mutator)) : M.toList.countP (·.isSome) =
      (M.map (·.map Mutator.buffer)).toList.countP (·.isSome) := by
    simp only [Array.toList_map, List.countP_map]
    congr 1
    funext t
    cases t <;> rfl
  unfold HeapView.count
  rw [hcount, hcount, h.buffers]

end

/-! ## 3. Writes -/

section
variable {V : HeapView} {W : World} {st : Stage} {ts : List MarkTask} {o i k x slot : Nat}

/-- A write outside of all headers leaves the objects where they are. -/
theorem sameObjects_write {a : Nat} (h : ∀ p, V.Published p → p ≠ a ∧ p + 8 ≠ a) :
    SameObjects V { V with memory := V.memory.write a x } where
  published _ := Iff.rfl
  live _ := Iff.rfl
  relocating _ := Iff.rfl
  index _ := rfl
  failed _ := rfl
  status hp := Memory.read_write_of_ne _ (Ne.symm (h _ hp).1) _
  shape hp := Memory.read_write_of_ne _ (Ne.symm (h _ hp).2) _

/-- **A field is overwritten.**  The world is that of the ideal heap after the same write. -/
theorem Inv.storeField (I : V.Inv W st ts) (ho : o ∈ W.objects)
    (hi : i < Object.refCount V.memory o) {l : Set Nat} (hl : W.loose ⊆ l)
    (hx : V.FieldOk { W with loose := l } st o x)
    (hcov : st = .marking → W.Base o → V.memory.read (Object.field o i) = 0 ∨
      V.Accounted ts (V.memory.read (Object.field o i))) :
    ({ V with memory := V.memory.write (Object.field o i) x }).Inv
      { W with ideal := W.ideal.setField (W.name o) i (W.name x), loose := l } st ts := by
  have L := I.layout
  have F := I.faithful
  have hp := F.published ho
  have hin := L.field_inside hp hi
  have S : SameObjects V { V with memory := V.memory.write (Object.field o i) x } :=
    sameObjects_write fun p h => L.field_ne_header hp hi h
  refine ⟨L.write_object hp (by omega) (by omega) (L.field_ne_header hp hi hp).2.symm,
    F.change S.1 (fun _ => S.live) rfl rfl rfl rfl rfl ?_ ?_ ?_ F.registered F.states F.unrecorded,
    fun hst => ?_⟩
  · intro p j hpm hj
    show FieldOk _ _ _ _ ((V.memory.write _ x).read _) ∧ W.name ((V.memory.write _ x).read _) = _
    rw [IdealHeap.setField_field]
    by_cases he : Object.field o i = Object.field p j
    · obtain ⟨rfl, rfl⟩ := L.field_inj hp hi (F.published hpm) hj he
      rw [Memory.read_write_self, if_pos ⟨rfl, rfl⟩]
      exact ⟨hx.same S.1 (fun _ => S.live) F.published hp rfl rfl (fun _ h => h), rfl⟩
    · rw [Memory.read_write_of_ne _ he, if_neg]
      · obtain ⟨h1, h2⟩ := F.fields hpm hj
        exact ⟨h1.same S.1 (fun _ => S.live) F.published (F.published hpm) rfl rfl hl, h2⟩
      · rintro ⟨hn, rfl⟩
        exact he (by rw [F.name_inj hpm ho hn])
  · intro p k hpm hk hle
    show (V.memory.write _ x).read _ = _
    rw [Memory.read_write_of_ne _ (L.field_ne_payload hp hi (F.published hpm) hle).symm]
    exact F.words hpm hk hle
  · intro c hc hlive
    have hge := L.slot_ge hc
    have hlt := L.inside_lt (a := Object.field o i) hp (by omega)
    show RootOk _ _ _ ((V.memory.write _ x).read _) ∧ W.name ((V.memory.write _ x).read _) = _
    rw [Memory.read_write_of_ne _ (by omega)]
    obtain ⟨h1, h2⟩ := F.roots hc hlive
    exact ⟨h1.same S.1 F.published rfl rfl, h2⟩
  · refine (I.snapshot hst).change S F rfl rfl rfl rfl (fun _ h => h)
      (fun v h => (I.snapshot hst).recorded h) fun {p j} hb hj => ?_
    show (V.memory.write _ x).read _ = _ ∨ _
    have hpm := (I.snapshot hst).base_mem hb
    by_cases he : Object.field o i = Object.field p j
    · obtain ⟨rfl, rfl⟩ := L.field_inj hp hi (F.published hpm) hj he
      exact .inr (hcov hst hb)
    · exact .inl (Memory.read_write_of_ne _ he _)

/-- References and names stay when objects do. -/
theorem Persists.of_same {V' : HeapView} {W' : World} (F : V.Faithful W st) (S : SamePlaces V V')
    (ho : W'.objects = W.objects) (hn : W'.name = W.name) (hl : W'.loose = W.loose)
    (hs : W'.snapshot = W.snapshot) (hr : W'.rootValues = W.rootValues)
    (hcount : W'.ideal.count = W.ideal.count) (hf : Fills V V')
    (htl : V.Counted none → V'.Counted none) (hg : V'.gcState = V.gcState)
    (hph : V'.phase = V.phase) (hpe : V'.pending = V.pending)
    (hc : V'.cancelRequested = V.cancelRequested) (hopt : V'.options = V.options)
    (hj : V.joined = V.count → V'.joined = V'.count) (hi : ∀ a, V'.index a = V.index a)
    (ht : V.Tallied → V'.Tallied) : V.Persists W V' W' where
  refers h := ⟨h.same S F.published ho hn, by rw [hn]⟩
  current h := h.same S F.published ho
  published h := (S.published _).2 h
  fresh h := .inl ((S.published _).1 h)
  old h := .inl (ho ▸ h)
  born h := .inl ⟨_, ho ▸ h, by rw [hn]⟩
  count_le := Nat.le_of_eq hcount.symm
  shape h := S.shape h
  fills := hf
  counted := htl
  copies := .of_none S.forwarded.1
  tallied := ht
  loose := hl
  snapshot := hs
  rootValues := hr
  gcState := hg
  phase := hph
  pending := hpe
  cancel := hc
  options := hopt
  joined := hj
  index := hi
  relocating h := S.relocating h

/-- References and names stay when objects do, and so does the rest when only memory, roots and
records change. -/
theorem Persists.of_view {m : Memory} {r : RootSet} {q : SatbQueues} {I' : IdealHeap}
    (F : V.Faithful W st) (S : SamePlaces V { V with memory := m, roots := r, satb := q })
    (hcount : I'.count = W.ideal.count) (ht : V.Tallied → ({ V with memory := m }).Tallied) :
    V.Persists W { V with memory := m, roots := r, satb := q } { W with ideal := I' } :=
  Persists.of_same F S rfl rfl rfl rfl rfl hcount
    (SameSpace.fills ⟨⟨rfl, rfl, rfl⟩, rfl, rfl, fun _ => rfl, fun _ => rfl, fun _ => rfl,
      fun _ => rfl⟩) (fun h => h) rfl rfl rfl rfl rfl (fun h => h) (fun _ => rfl)
    fun X => { ht X with }

theorem Evolves.storeField (I : V.Inv W st ts) (ho : o ∈ W.objects)
    (hi : i < Object.refCount V.memory o) :
    V.Evolves W { V with memory := V.memory.write (Object.field o i) x }
      { W with ideal := W.ideal.setField (W.name o) i (W.name x) } :=
  have hp := I.faithful.published ho
  have hin := I.layout.field_inside hp hi
  have hne {p : Nat} (h : V.Published p) := I.layout.field_ne_header hp hi h
  ⟨Persists.of_view I.faithful (sameObjects_write fun _ h => hne h).1 rfl
    (I.layout.tallied_write hp (by omega) (by omega) fun h => (hne h).2), fun h => h, fun h _ => h⟩

/-- **A payload word is overwritten.** -/
theorem Inv.storeWord (I : V.Inv W st ts) (ho : o ∈ W.objects) (hk : 8 ∣ k)
    (hle : k + 8 ≤ Object.payloadBytes V.memory o) :
    let V' := { V with
      memory := V.memory.write (o + 16 + 8 * Object.refCount V.memory o + k) x }
    let W' := { W with ideal := W.ideal.setWord (W.name o) k x }
    V'.Inv W' st ts ∧ V.Evolves W V' W' := by
  intro V' W'
  have L := I.layout
  have F := I.faithful
  have hp := F.published ho
  have hin := L.payload_inside hp hle
  have hne {p : Nat} (h : V.Published p) : p ≠ o + 16 + 8 * Object.refCount V.memory o + k ∧
      p + 8 ≠ o + 16 + 8 * Object.refCount V.memory o + k := by
    have h2 := (L.objects.fits h).fields_le
    constructor <;> intro he
    · have := L.inside_unique (a := p) hp h (by omega) (by omega) (by omega) (by omega)
      omega
    · have := L.inside_unique (a := p + 8) hp h (by omega) (by omega) (by omega) (by omega)
      omega
  have S : SameObjects V V' := sameObjects_write fun p h => hne h
  have hfield {p j : Nat} (hpm : p ∈ W.objects) (hj : j < Object.refCount V.memory p) :
      V'.memory.read (Object.field p j) = V.memory.read (Object.field p j) :=
    Memory.read_write_of_ne _ (L.field_ne_payload (F.published hpm) hj hp hle) _
  refine ⟨⟨L.write_object hp (by omega) (by omega) (hne hp).2.symm,
    F.change S.1 (fun _ => S.live) rfl rfl rfl rfl rfl ?_ ?_ ?_ F.registered F.states F.unrecorded,
    fun hst => ?_⟩,
    Persists.of_view F S.1 rfl (L.tallied_write hp (by omega) (by omega) fun h => (hne h).2),
    fun h => h, fun h _ => h⟩
  · intro p j hpm hj
    rw [hfield hpm hj]
    obtain ⟨h1, h2⟩ := F.fields hpm hj
    exact ⟨h1.same S.1 (fun _ => S.live) F.published (F.published hpm) rfl rfl (fun _ h => h), h2⟩
  · intro p j hpm hj hjle
    show (V.memory.write _ x).read _ = _
    rw [IdealHeap.setWord_word]
    by_cases he : o + 16 + 8 * Object.refCount V.memory o + k =
        p + 16 + 8 * Object.refCount V.memory p + j
    · obtain ⟨rfl, rfl⟩ := L.payload_inj hp (F.published hpm) hle hjle he
      rw [Memory.read_write_self, if_pos ⟨rfl, rfl⟩]
    · rw [Memory.read_write_of_ne _ he, if_neg]
      · exact F.words hpm hj hjle
      · rintro ⟨hn, rfl⟩
        exact he (by rw [F.name_inj hpm ho hn])
  · intro c hc hlive
    have hge := L.slot_ge hc
    have hlt := L.inside_lt (a := o + 16 + 8 * Object.refCount V.memory o + k) hp (by omega)
    show RootOk _ _ _ ((V.memory.write _ x).read _) ∧ W.name ((V.memory.write _ x).read _) = _
    rw [Memory.read_write_of_ne _ (by omega)]
    obtain ⟨h1, h2⟩ := F.roots hc hlive
    exact ⟨h1.same S.1 F.published rfl rfl, h2⟩
  · exact (I.snapshot hst).change S F rfl rfl rfl rfl (fun _ h => h)
      (fun v h => (I.snapshot hst).recorded h)
      fun hb hj => .inl (hfield ((I.snapshot hst).base_mem hb) hj)

/-- **A root is overwritten.** -/
theorem Inv.storeRoot (I : V.Inv W st ts) (hs : rootBase ≤ slot)
    (hx : x = 0 ∨ V.Current W x) :
    let V' := { V with memory := V.memory.write slot x }
    let W' := { W with ideal := W.ideal.setRoot slot (W.name x) }
    V'.Inv W' st ts ∧ V.Evolves W V' W' := by
  intro V' W'
  have L := I.layout
  have F := I.faithful
  have hout {p a : Nat} (h : V.Published p) (ha : a < p + Object.size V.memory p) : a ≠ slot := by
    have := L.inside_lt h ha
    omega
  have S : SameObjects V V' := sameObjects_write fun p h => by
    have h2 := (L.objects.fits h).fields_le
    exact ⟨hout h (by omega), hout h (by omega)⟩
  have hfield {p j : Nat} (hpm : p ∈ W.objects) (hj : j < Object.refCount V.memory p) :
      V'.memory.read (Object.field p j) = V.memory.read (Object.field p j) := by
    have hp := F.published hpm
    have := L.field_inside hp hj
    exact Memory.read_write_of_ne _ (hout hp (by omega)).symm _
  refine ⟨⟨L.write_root hs,
    F.change S.1 (fun _ => S.live) rfl rfl rfl rfl rfl ?_ ?_ ?_ F.registered F.states F.unrecorded,
    fun hst => ?_⟩,
    Persists.of_view F S.1 rfl (L.tallied_write_root hs), fun h => h, fun h _ => h⟩
  · intro p j hpm hj
    rw [hfield hpm hj]
    obtain ⟨h1, h2⟩ := F.fields hpm hj
    exact ⟨h1.same S.1 (fun _ => S.live) F.published (F.published hpm) rfl rfl (fun _ h => h), h2⟩
  · intro p j hpm hj hjle
    have hp := F.published hpm
    have := L.payload_inside hp hjle
    show (V.memory.write _ x).read _ = _
    rw [Memory.read_write_of_ne _ (hout hp (by omega)).symm]
    exact F.words hpm hj hjle
  · intro c hc hlive
    show RootOk _ _ _ ((V.memory.write _ x).read _) ∧ W.name ((V.memory.write _ x).read _) =
      Function.update W.ideal.root slot (W.name x) c.slot
    by_cases he : slot = c.slot
    · subst he
      rw [Memory.read_write_self, Function.update_self]
      refine ⟨?_, rfl⟩
      rcases hx with hx | hx
      · exact .inl hx
      · exact .inr (.inl (hx.same S.1 F.published rfl))
    · rw [Memory.read_write_of_ne _ he, Function.update_of_ne (Ne.symm he)]
      obtain ⟨h1, h2⟩ := F.roots hc hlive
      exact ⟨h1.same S.1 F.published rfl rfl, h2⟩
  · exact (I.snapshot hst).change S F rfl rfl rfl rfl (fun _ h => h)
      (fun v h => (I.snapshot hst).recorded h)
      fun hb hj => .inl (hfield ((I.snapshot hst).base_mem hb) hj)

/-- **A word that the program does not see is overwritten**: it is outside of all objects of the
program and no root that is in use. -/
theorem Inv.storeAside {a : Nat} (I : V.Inv W st ts) (hst : st ≠ .marking)
    (L' : ({ V with memory := V.memory.write a x }).Layout)
    (hhead : ∀ p, V.Published p → p ≠ a ∧ p + 8 ≠ a)
    (hout : ∀ p ∈ W.objects, a < p ∨ p + Object.size V.memory p ≤ a)
    (hroot : ∀ c ∈ V.roots.cells, c.live = true → c.slot ≠ a)
    (ht : V.Tallied → ({ V with memory := V.memory.write a x }).Tallied) :
    ({ V with memory := V.memory.write a x }).Inv W st ts ∧
      V.Evolves W { V with memory := V.memory.write a x } W := by
  have L := I.layout
  have F := I.faithful
  have S : SameObjects V { V with memory := V.memory.write a x } := sameObjects_write hhead
  have hread {p b : Nat} (hp : p ∈ W.objects) (h1 : p ≤ b)
      (h2 : b < p + Object.size V.memory p) : (V.memory.write a x).read b = V.memory.read b :=
    Memory.read_write_of_ne _ (by rcases hout p hp with h | h <;> omega) _
  refine ⟨⟨L', F.change S.1 (fun _ => S.live) rfl rfl rfl rfl rfl ?_ ?_ ?_ F.registered F.states
    F.unrecorded, fun h => absurd h hst⟩, Persists.of_view F S.1 rfl ht, fun h => h, fun h _ => h⟩
  · intro p j hp hj
    have hin := L.field_inside (F.published hp) hj
    show FieldOk _ _ _ _ ((V.memory.write a x).read _) ∧ W.name ((V.memory.write a x).read _) = _
    rw [hread hp (by omega) (by omega)]
    obtain ⟨h1, h2⟩ := F.fields hp hj
    exact ⟨h1.same S.1 (fun _ => S.live) F.published (F.published hp) rfl rfl (fun _ h => h), h2⟩
  · intro p k hp hk hle
    have hin := L.payload_inside (F.published hp) hle
    exact (hread hp (by omega) (by omega)).trans (F.words hp hk hle)
  · intro c hc hl
    show RootOk _ _ _ ((V.memory.write a x).read _) ∧ W.name ((V.memory.write a x).read _) = _
    rw [Memory.read_write_of_ne _ (hroot c hc hl).symm]
    obtain ⟨h1, h2⟩ := F.roots hc hl
    exact ⟨h1.same S.1 F.published rfl rfl, h2⟩

end

/-! ## 4. Allocation, records and roots -/

section
variable {V V' : HeapView} {W : World} {st : Stage} {ts : List MarkTask} {v slot : Nat}

theorem Grows.sameObjects (G : Grows V V') : SameObjects V V' where
  published _ := G.published
  live _ := G.live
  relocating _ := G.relocating
  index := G.index
  failed := G.kept
  status _ := by rw [G.memory]
  shape _ := by rw [G.memory]

/-- **Allocation** keeps the invariant and the world. -/
theorem Inv.of_grows (I : V.Inv W st ts) (G : Grows V V') (L' : V'.Layout) : V'.Inv W st ts := by
  have F := I.faithful
  have S := G.sameObjects
  have hroots : V'.roots = V.roots := by rw [G.frame]
  have hsatb : V'.satb = V.satb := by rw [G.frame]
  have hgrey : V'.grey = V.grey := by rw [G.frame]
  refine ⟨L', F.sameMemory S.1 (fun _ => S.live) G.memory (fun hc => hroots ▸ hc) (by rw [hroots])
    (fun i => ?_) ?_, fun hst => ?_⟩
  · rcases G.state i with e | ⟨-, e⟩
    · rw [e]
      exact F.states i
    · rw [e]
      exact ⟨by simp, by simp⟩
  · rw [hsatb]
    exact F.unrecorded
  · refine (I.snapshot hst).change S F rfl rfl rfl hgrey ?_ ?_ fun _ _ => .inl (by rw [G.memory])
    · rw [hsatb]
      exact fun _ h => h
    · rw [hsatb]
      exact fun v h => (I.snapshot hst).recorded h

/-- The mutators are bound as before. -/
theorem Grows.isSome (G : Grows V V') {m : Nat} :
    (V'.mutator? m).isSome = (V.mutator? m).isSome := by
  rw [← Option.isSome_map, G.mutator, Option.isSome_map]

theorem Inv.grows (I : V.Inv W st ts) (G : Grows V V') (L' : V'.Layout) (hf : Fills V V')
    (htl : V.Counted none → V'.Counted none) : V'.Inv W st ts ∧ V.Evolves W V' W := by
  have F := I.faithful
  have S := G.sameObjects
  have hroots : V'.roots = V.roots := by rw [G.frame]
  refine ⟨I.of_grows G L',
    Persists.of_same F S.1 rfl rfl rfl rfl rfl rfl hf htl ?_ ?_ ?_ ?_ ?_ (fun hj => by
      rw [G.count, ← hj, G.frame]) G.index ((G.retains hf).tallied I.layout L'),
    fun hm => G.isSome ▸ hm, fun hc _ => hroots ▸ hc⟩
  · rw [G.frame]
  · rw [G.frame]
  · rw [G.frame]
  · rw [G.frame]
  · rw [G.frame]

/-- Nothing about objects has changed but what is recorded, and only as marking allows. -/
theorem Inv.setSatb {q : SatbQueues} (I : V.Inv W st ts)
    (hids : q.ids = V.satb.ids) (hreg : q.registered = V.satb.registered)
    (hrec : ∀ v, V.satb.Recorded v → q.Recorded v)
    (hrec' : ∀ v, q.Recorded v → V.satb.Recorded v ∨ (st = .marking ∧ v ∈ W.objects)) :
    ({ V with satb := q }).Inv W st ts ∧ V.Evolves W { V with satb := q } W := by
  have F := I.faithful
  have S : SameObjects V { V with satb := q } := SameObjects.of_eq rfl rfl rfl rfl
  refine ⟨⟨I.layout.setControl hids hreg, F.sameMemory S.1 (fun _ => S.live) rfl (fun h => h) rfl
    F.states ?_, fun hst => ?_⟩,
    Persists.of_view F S.1 rfl id, fun h => h, fun h _ => h⟩
  · intro hst v h
    rcases hrec' v h with h | ⟨h, -⟩
    · exact F.unrecorded hst v h
    · exact hst h
  · refine (I.snapshot hst).change S F rfl rfl rfl rfl hrec (fun v h => ?_) fun _ _ => .inl rfl
    rcases hrec' v h with h | ⟨-, h⟩
    · exact (I.snapshot hst).recorded h
    · exact h

/-- An overwritten reference is recorded while marking runs. -/
theorem Inv.record (I : V.Inv W .marking ts) {id : Nat} (hid : id ∈ V.satb.ids)
    (hv : v ∈ W.objects) :
    ({ V with satb := V.satb.enqueue id v }).Inv W .marking ts ∧
      V.Evolves W { V with satb := V.satb.enqueue id v } W ∧
      (V.satb.enqueue id v).Recorded v ∧
      ∀ w, V.satb.Recorded w → (V.satb.enqueue id v).Recorded w := by
  have hn : V.satb.ids.Nodup := I.layout.buffers.nodup
  have hiff {w : Nat} := SatbQueues.recorded_enqueue (v := w) (w := v) hn hid
  obtain ⟨h1, h2⟩ := I.setSatb (q := V.satb.enqueue id v) (by simp) (by simp)
    (fun w h => hiff.2 (.inl h)) fun w h => by
      rcases hiff.1 h with h | rfl
      · exact .inl h
      · exact .inr ⟨rfl, hv⟩
  exact ⟨h1, h2, hiff.2 (.inr rfl), fun w h => hiff.2 (.inl h)⟩

/-- The roots are others, and still hold objects. -/
theorem Inv.setRoots {r : RootSet} {J : IdealHeap} (I : V.Inv W st ts)
    (hok : ∀ c ∈ r.cells, ∃ k < r.registered, c.slot = rootBase + 8 * k)
    (hI : J = { W.ideal with root := J.root, registered := J.registered })
    (hroots : ∀ {c}, c ∈ r.cells → c.live = true →
      V.RootOk W st (V.memory.read c.slot) ∧
        W.name (V.memory.read c.slot) = J.root c.slot)
    (hreg : r.registered = J.registered) :
    ({ V with roots := r }).Inv { W with ideal := J } st ts ∧
      V.Persists W { V with roots := r } { W with ideal := J } := by
  have F := I.faithful
  have S : SameObjects V { V with roots := r } := SameObjects.of_eq rfl rfl rfl rfl
  have hcount : J.count = W.ideal.count := by rw [hI]
  have hrefs : J.refs = W.ideal.refs := by rw [hI]
  have hbytes : J.bytes = W.ideal.bytes := by rw [hI]
  have hfield : J.field = W.ideal.field := by rw [hI]
  have hword : J.word = W.ideal.word := by rw [hI]
  refine ⟨⟨I.layout.setRoots hok, F.change S.1 (fun _ => S.live) rfl rfl hcount hrefs hbytes ?_ ?_ ?_ hreg
    F.states F.unrecorded, fun hst => ?_⟩,
    Persists.of_view F S.1 hcount id⟩
  · intro o i ho hi
    obtain ⟨h1, h2⟩ := F.fields ho hi
    refine ⟨h1.same S.1 (fun _ => S.live) F.published (F.published ho) rfl rfl (fun _ h => h), ?_⟩
    show _ = J.field _ _
    rw [hfield]
    exact h2
  · intro o k ho hk hle
    show _ = J.word _ _
    rw [hword]
    exact F.words ho hk hle
  · intro c hc hl
    obtain ⟨h1, h2⟩ := hroots hc hl
    exact ⟨h1.same S.1 F.published rfl rfl, h2⟩
  · exact (I.snapshot hst).change S F rfl rfl rfl rfl (fun _ h => h)
      (fun v h => (I.snapshot hst).recorded h) fun _ _ => .inl rfl

end

end ManagedHeap.HeapView
