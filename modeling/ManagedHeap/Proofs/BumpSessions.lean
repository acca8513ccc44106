/-
# Programs on a heap that never collects

The program of a `BumpSession` may keep every reference that it was given, because no object moves and
none goes.  So the objects are what these references are to (`BumpSession.objects`), and this is what
holds of them at any time (`BumpSession.Sound`): memory holds them, none of their bytes is free, and
what is free reads as zero.

An operation makes an object, in memory that was free, or it changes no more than the objects and roots
that it may change (`BumpSession.Changed`).  Either keeps the session sound, and hands out what was free
(`BumpSession.Did`).

* Section 1: the session, and what a program may do.
* Section 2: what holds of it, and what an operation does to it.
* Section 3: accesses and roots.
* Section 4: allocation.
* Section 5: mutators, and all operations.
-/
import ManagedHeap.Proofs.BumpAllocation
import ManagedHeap.Proofs.FixedObjects
import ManagedHeap.Proofs.Operations

namespace ManagedHeap

/-! ## 1. Sessions -/

/-- A heap that never collects, and what a program has of it. -/
structure BumpSession where
  heap : BumpHeap
  /-- The references that the program was given. -/
  held : List Nat := []
  /-- The slots of its roots. -/
  handles : List Nat := []
  /-- The numbers of its mutators. -/
  mutators : List Nat := []

namespace BumpSession

/-- A heap with a program that has nothing yet. -/
def start (heap : BumpHeap) : BumpSession := { heap }

/-- The reference at a place, null if the program has none there. -/
def reference (s : BumpSession) (k : Nat) : Nat := s.held.getD k null

/-- The objects that the program has references to. -/
def objects (s : BumpSession) : Set Nat := { o | o ∈ s.held ∧ o ≠ null }

/-- The contents of memory. -/
def memory (s : BumpSession) : Memory := s.heap.core.memory

/-- Run an action on the heap. -/
def onHeap {α : Type} (act : Action BumpHeap α) : Action BumpSession α :=
  act.onPart BumpSession.heap fun heap s => { s with heap }

/-- The roots that the program has after an operation. -/
def handlesAfter (s : BumpSession) : Operation → Answer → List Nat
  | .dropRoot slot, _ => s.handles.filter (· ≠ slot)
  | _, .slot a => s.handles ++ [a]
  | _, _ => s.handles

/-- The mutators that the program has after an operation. -/
def mutatorsAfter (s : BumpSession) : Operation → Answer → List Nat
  | .destroy m, _ => s.mutators.filter (· ≠ m)
  | _, .mutator m => s.mutators ++ [m]
  | _, _ => s.mutators

/-- What the program has after an operation. -/
def record (s : BumpSession) (op : Operation) (a : Answer) : BumpSession :=
  { s with
    held := s.held ++ a.references
    handles := s.handlesAfter op a
    mutators := s.mutatorsAfter op a }

/-- An operation of a mutator. -/
def perform (op : Operation) : Action BumpSession Answer := do
  let s ← get
  let a ← onHeap (op.run s.reference)
  modify (·.record op a)
  return a

/-- A reference at a place is not null. -/
def IsObject (s : BumpSession) (k : Nat) : Prop := s.reference k ≠ null

/-- The object at a place has `len` fields from `i` on. -/
def HasFields (s : BumpSession) (k i len : Nat) : Prop :=
  s.IsObject k ∧ i + len ≤ Object.refCount s.memory (s.reference k)

/-- The payload of the object at a place has a word at an offset. -/
def HasWord (s : BumpSession) (k offset : Nat) : Prop :=
  s.IsObject k ∧ wordBytes ∣ offset ∧
    offset + wordBytes ≤ Object.payloadBytes s.memory (s.reference k)

/-- The operation is on objects, within their bounds, and by a mutator that the program has. -/
def AllowsOperation (s : BumpSession) : Operation → Prop
  | .alloc m _ _ | .allocRaw m _ | .retireTlab m | .flush m | .destroy m => m ∈ s.mutators
  | .clone m src => m ∈ s.mutators ∧ s.IsObject src
  | .loadRef src i => s.HasFields src i 1
  | .storeRef m src i _ | .casRef m src i _ _ => m ∈ s.mutators ∧ s.HasFields src i 1
  | .copyRefs m src si dst di len =>
    m ∈ s.mutators ∧ (len = 0 ∨ (s.HasFields src si len ∧ s.HasFields dst di len))
  | .loadWord src offset | .storeWord src offset _ => s.HasWord src offset
  | .loadRoot slot | .storeRoot slot _ | .dropRoot slot => slot ∈ s.handles
  | _ => True

instance (s : BumpSession) (k i len : Nat) : Decidable (s.HasFields k i len) :=
  inferInstanceAs (Decidable (_ ≠ _ ∧ _ ≤ _))

instance (s : BumpSession) (k offset : Nat) : Decidable (s.HasWord k offset) :=
  inferInstanceAs (Decidable (_ ≠ _ ∧ _ ∣ _ ∧ _ ≤ _))

instance (s : BumpSession) (op : Operation) : Decidable (s.AllowsOperation op) :=
  match op with
  | .alloc m _ _ | .allocRaw m _ | .retireTlab m | .flush m | .destroy m =>
    inferInstanceAs (Decidable (m ∈ s.mutators))
  | .clone m src => inferInstanceAs (Decidable (m ∈ s.mutators ∧ s.reference src ≠ null))
  | .loadRef src i => inferInstanceAs (Decidable (s.HasFields src i 1))
  | .storeRef m src i _ | .casRef m src i _ _ =>
    inferInstanceAs (Decidable (m ∈ s.mutators ∧ s.HasFields src i 1))
  | .copyRefs m src si dst di len => inferInstanceAs
    (Decidable (m ∈ s.mutators ∧ (len = 0 ∨ (s.HasFields src si len ∧ s.HasFields dst di len))))
  | .loadWord src offset | .storeWord src offset _ =>
    inferInstanceAs (Decidable (s.HasWord src offset))
  | .loadRoot slot | .storeRoot slot _ | .dropRoot slot =>
    inferInstanceAs (Decidable (slot ∈ s.handles))
  | .resolve _ | .newRoot _ | .create | .poll => inferInstanceAs (Decidable True)

/-! ## 2. The invariant -/

/-- What holds of a session. -/
structure Sound (s : BumpSession) : Prop where
  tidy : s.heap.Tidy
  holds : s.memory.Holds s.objects
  taken : ∀ {o b}, o ∈ s.objects → o ≤ b → b < o + Object.size s.memory o → ¬ s.heap.arena.Free b
  empty : ∀ {b}, s.heap.arena.Free b → s.memory.read b = 0
  roots : ∀ slot ∈ s.handles,
    rootBase ≤ slot ∧ (s.memory.read slot = 0 ∨ s.memory.read slot ∈ s.objects)
  mutators : ∀ m ∈ s.mutators, (s.heap.mutator? m).isSome = true

/-- What an operation has done. -/
structure Did (s : BumpSession) (op : Operation) (a : Answer) (s' : BumpSession) : Prop where
  sound : s'.Sound
  grows : BumpHeap.Extends s.heap s'.heap
  serves : ∀ {m x n}, op.given s'.memory a = some (m, x, n) →
    s.heap.arena.Serves s'.heap.arena m x n
  raw : ∀ {m k}, op = .allocRaw m k → s'.memory = s.memory

/-- No object was made: what was overwritten are objects and roots that there were. -/
structure Changed (s : BumpSession) (op : Operation) (a : Answer) (h' : BumpHeap) : Prop where
  tidy : h'.Tidy
  grows : BumpHeap.Extends s.heap h'
  overwrites : Memory.Overwrites s.objects s.memory h'.core.memory
  bound : ∀ {m}, (s.heap.mutator? m).isSome = true → op = .destroy m ∨ (h'.mutator? m).isSome = true
  references : ∀ v ∈ a.references, v = 0 ∨ v ∈ s.objects
  made : ∀ {m}, a = .mutator m → (h'.mutator? m).isSome = true
  rooted : ∀ {slot}, a = .slot slot → rootBase ≤ slot ∧
    (h'.core.memory.read slot = 0 ∨ h'.core.memory.read slot ∈ s.objects)
  serves : ∀ {m x n}, op.given h'.core.memory a = some (m, x, n) →
    s.heap.arena.Serves h'.arena m x n
  raw : ∀ {m k}, op = .allocRaw m k → h'.core.memory = s.memory

section
variable {s s' : BumpSession} {op : Operation} {a : Answer} {h' h₁ : BumpHeap} {m' : Memory}
  {k m n o b : Nat} {post : Answer → BumpSession → Prop}

/-- A reference of the program is null or to one of its objects. -/
theorem reference_mem (s : BumpSession) (k : Nat) : s.reference k = 0 ∨ s.reference k ∈ s.objects := by
  by_cases h0 : s.reference k = 0
  · exact .inl h0
  · refine .inr ⟨?_, h0⟩
    have hk : k < s.held.length := by
      by_contra hge
      exact h0 (List.getD_eq_default _ _ (Nat.not_lt.1 hge))
    rw [reference, List.getD_eq_getElem _ _ hk]
    exact List.getElem_mem hk

theorem IsObject.mem (h : s.IsObject k) : s.reference k ∈ s.objects :=
  (s.reference_mem k).resolve_left h

theorem objects_record (h : ∀ v ∈ a.references, v = 0 ∨ v ∈ s.objects) :
    (({ s with heap := h' } : BumpSession).record op a).objects = s.objects := by
  ext v
  simp only [objects, record, List.mem_append, Set.mem_ofPred_eq]
  constructor
  · rintro ⟨hv | hv, h0⟩
    · exact ⟨hv, h0⟩
    · exact (h v hv).resolve_left h0
  · rintro ⟨hv, h0⟩
    exact ⟨.inl hv, h0⟩

theorem mem_handlesAfter {slot : Nat} (h : slot ∈ s.handlesAfter op a) :
    slot ∈ s.handles ∨ a = .slot slot := by
  unfold handlesAfter at h
  split at h
  · exact .inl (List.mem_of_mem_filter h)
  · rcases List.mem_append.1 h with h | h
    · exact .inl h
    · exact .inr (by rw [List.mem_singleton.1 h])
  · exact .inl h

theorem mem_mutatorsAfter (h : m ∈ s.mutatorsAfter op a) :
    (m ∈ s.mutators ∧ op ≠ .destroy m) ∨ a = .mutator m := by
  unfold mutatorsAfter at h
  split at h
  · obtain ⟨hm, hne⟩ := List.mem_filter.1 h
    refine .inl ⟨hm, fun he => ?_⟩
    cases he
    simp at hne
  · rename_i hop
    rcases List.mem_append.1 h with h | h
    · exact .inl ⟨h, fun he => hop m he⟩
    · exact .inr (by rw [List.mem_singleton.1 h])
  · rename_i hop _
    exact .inl ⟨h, fun he => hop m he⟩

/-- What is free is below the roots, and in no object. -/
theorem Sound.free_outside (S : s.Sound) (hb : s.heap.arena.Free b) : b < rootBase ∧
    ∀ o ∈ s.objects, b < o ∨ o + Object.size s.memory o ≤ b := by
  refine ⟨Nat.lt_of_lt_of_le (S.tidy.free_bounds hb).2 S.tidy.boundary_le, fun o ho => ?_⟩
  by_contra hc
  push Not at hc
  exact S.taken ho hc.1 hc.2 hb

/-- **A change keeps the session sound.** -/
theorem Changed.did (C : Changed s op a h') (S : s.Sound) :
    Did s op a (({ s with heap := h' } : BumpSession).record op a) := by
  have hobj : (({ s with heap := h' } : BumpSession).record op a).objects = s.objects :=
    objects_record C.references
  have hfree {b : Nat} (hb : h'.arena.Free b) : s.heap.arena.Free b :=
    C.grows.fills.free C.tidy.orderly hb
  refine ⟨?_, C.grows, C.serves, C.raw⟩
  constructor
  · exact C.tidy
  · rw [hobj]
    exact C.overwrites.holds S.holds
  · intro o b ho h1 h2 hb
    rw [hobj] at ho
    refine S.taken ho h1 ?_ (hfree hb)
    rwa [← Memory.size_congr (C.overwrites.layout ho)]
  · intro b hb
    have hout := S.free_outside (hfree hb)
    exact (C.overwrites.rest hout.1 hout.2).trans (S.empty (hfree hb))
  · intro slot hslot
    rw [hobj]
    rcases mem_handlesAfter (s := s) hslot with h | h
    · obtain ⟨hge, hr⟩ := S.roots slot h
      refine ⟨hge, ?_⟩
      show h'.core.memory.read slot = 0 ∨ h'.core.memory.read slot ∈ s.objects
      rcases C.overwrites.roots hge with h | h
      · rwa [h]
      · exact h
    · exact C.rooted h
  · intro m hm
    rcases mem_mutatorsAfter (s := s) hm with ⟨h, hne⟩ | h
    · exact (C.bound (S.mutators m h)).resolve_left hne
    · exact C.made h

theorem after_perform (h : After (op.run s.reference) s.heap fun a h' =>
    post a (({ s with heap := h' } : BumpSession).record op a)) : After (perform op) s post := by
  simp only [perform, onHeap, after_bind, after_get, after_onPart, after_modify, after_pure]
  exact h

/-- Nothing has happened. -/
theorem Changed.same (S : s.Sound) (hrefs : ∀ v ∈ a.references, v = 0 ∨ v ∈ s.objects)
    (ha : a.plain = true ∨ a = .object none ∨ a = .memory none) : Changed s op a s.heap where
  tidy := S.tidy
  grows := refl_of BumpHeap.Extends _
  overwrites := .refl S.holds
  bound h := .inr h
  references := hrefs
  made h := by rcases ha with ha | ha | ha <;> simp [h, Answer.plain] at ha
  rooted h := by rcases ha with ha | ha | ha <;> simp [h, Answer.plain] at ha
  serves h := by
    rcases ha with ha | rfl | rfl
    · rw [Operation.given_of_plain ha] at h
      cases h
    · cases op <;> cases h
    · cases op <;> cases h
  raw _ := rfl

/-- A write of the program. -/
theorem Changed.of_overwrites (S : s.Sound) (C : Memory.Overwrites s.objects s.memory m')
    (hrefs : ∀ v ∈ a.references, v = 0 ∨ v ∈ s.objects) (ha : a.plain = true)
    (hop : ∀ m k, op ≠ .allocRaw m k) : Changed s op a (HasMemory.setMemory m' s.heap) :=
  have same : Changed s op a s.heap := .same S hrefs (.inl ha)
  { same with
    tidy := S.tidy.of_core rfl fun h => .inl h
    grows := BumpHeap.extends_of_core rfl fun h => .inl h
    bound := fun h => .inr h
    made := fun h => by simp [h, Answer.plain] at ha
    overwrites := C
    rooted := fun h => by simp [h, Answer.plain] at ha
    serves := fun h => by
      rw [Operation.given_of_plain ha] at h
      cases h
    raw := fun h => absurd h (hop _ _) }

end

end BumpSession

/-! ## 3. Accesses and roots -/

namespace Mutator

open Object

section
variable {h : BumpHeap} {O : Set Nat} {m o i n v : Nat} {t : Mutator}

theorem resolve_fixed : (resolve o : Action BumpHeap Nat) = pure o := rfl

theorem write_fixed {b slot : Nat} :
    (Heap.barriers (H := BumpHeap)).write b slot v = storeSlot slot v :=
  (pure_bind _ _).trans (bind_pure _)

theorem flush_fixed : (flush m : Action BumpHeap Unit) = (do
    let _ ← getState m
    pure ()) := rfl

theorem clonePre_fixed : (Heap.barriers (H := BumpHeap)).clonePre o = pure () := rfl

theorem postAlloc_fixed : (Heap.postAlloc o : Action BumpHeap Unit) = pure () := rfl

theorem publish_fixed {start size refs : Nat} : (publish start size refs : Action BumpHeap Nat) =
    onMemory (Object.writeHeader start size refs) := bind_pure _

theorem ends_fieldSlot_fixed {post : Nat → BumpHeap → Prop} (H : h.core.memory.Holds O)
    (ho : o ∈ O) (hi : i < refCount h.core.memory o) :
    Ends (fieldSlot o i) h post ↔ post (field o i) h := by
  have hslot : Object.fieldSlot (HasMemory.memory h) o i = .ok (field o i) :=
    Object.fieldSlot_eq (H.fits ho).aligned hi
  simp only [fieldSlot, ends_bind, ends_getMemory, ends_lift, hslot, Except.ok.injEq,
    exists_eq_left']

theorem ends_getState_fixed {post : Mutator → BumpHeap → Prop} (hm : h.mutator? m = some t) :
    Ends (getState m) h post ↔ post t h := by
  have hm : (Heap.core h).mutators[m]?.join = some t := hm
  simp only [getState, ends_bind, ends_get, hm, ends_pure]

theorem ends_payloadWord_fixed {post : Nat → BumpHeap → Prop} (H : h.core.memory.Holds O)
    (ho : o ∈ O) (h8 : 8 ∣ n) (hn : n + 8 ≤ payloadBytes h.core.memory o) :
    Ends (payloadWord o n) h post ↔ post (o + 16 + 8 * refCount h.core.memory o + n) h := by
  have hword : Object.payloadWord (HasMemory.memory h) o n =
      .ok (o + 16 + 8 * refCount h.core.memory o + n) := (H.fits ho).payloadWord_eq h8 hn
  simp only [payloadWord, resolve_fixed, ends_bind, ends_pure, ends_getMemory, ends_lift, hword,
    Except.ok.injEq, exists_eq_left']

end

end Mutator

namespace BumpSession

open Mutator

variable {s : BumpSession}

theorem Sound.ends_loadRef (S : s.Sound) {src i : Nat} (ha : s.AllowsOperation (.loadRef src i)) :
    Ends ((Operation.loadRef src i).run s.reference) s.heap (Changed s (.loadRef src i)) := by
  obtain ⟨ho, hi⟩ := ha
  have hslot := S.holds.fields ho.mem hi
  simp only [Operation.run, loadRef, resolve_fixed, ends_bind, ends_pure,
    ends_fieldSlot_fixed S.holds ho.mem hi, read_fixed, ends_loadSlot]
  exact .same S (fun v hv => List.mem_singleton.1 hv ▸ hslot) (.inl rfl)

theorem Sound.ends_storeRef (S : s.Sound) {m src i value : Nat}
    (ha : s.AllowsOperation (.storeRef m src i value)) :
    Ends ((Operation.storeRef m src i value).run s.reference) s.heap
      (Changed s (.storeRef m src i value)) := by
  obtain ⟨hm, ho, hi⟩ := ha
  obtain ⟨t, ht⟩ := Option.isSome_iff_exists.1 (S.mutators m hm)
  simp only [Operation.run, storeRef, resolve_fixed, ends_bind, ends_pure,
    ends_fieldSlot_fixed S.holds ho.mem hi, ends_getState_fixed ht, write_fixed, ends_storeSlot]
  exact .of_overwrites S (S.holds.overwrites_field ho.mem hi (s.reference_mem value))
    (by simp [Answer.references]) rfl (by simp)

theorem Sound.ends_casRef (S : s.Sound) {m src i expected new : Nat}
    (ha : s.AllowsOperation (.casRef m src i expected new)) :
    Ends ((Operation.casRef m src i expected new).run s.reference) s.heap
      (Changed s (.casRef m src i expected new)) := by
  obtain ⟨hm, ho, hi⟩ := ha
  obtain ⟨t, ht⟩ := Option.isSome_iff_exists.1 (S.mutators m hm)
  have hslot := S.holds.fields ho.mem hi
  simp only [Operation.run, casRef, resolve_fixed, ends_bind, ends_pure,
    ends_fieldSlot_fixed S.holds ho.mem hi, ends_getState_fixed ht]
  show Ends (BarrierHooks.plainExchange _ _ _) _ _
  simp only [BarrierHooks.plainExchange, ends_bind]
  refine ends_exchangeSlot.2 ⟨fun _ => ends_pure.2 ?_, fun _ => ends_pure.2 ?_⟩
  · exact .of_overwrites S (S.holds.overwrites_field ho.mem hi (s.reference_mem new))
      (by simp [Answer.references, CasOutcome.witness?]) rfl (by simp)
  · exact .same S (fun v hv => List.mem_singleton.1 hv ▸ hslot) (.inl rfl)

theorem Sound.ends_copyRefs (S : s.Sound) {m src si dst di len : Nat}
    (ha : s.AllowsOperation (.copyRefs m src si dst di len)) :
    Ends ((Operation.copyRefs m src si dst di len).run s.reference) s.heap
      (Changed s (.copyRefs m src si dst di len)) := by
  obtain ⟨hm, rfl | ⟨hsrc, hdst⟩⟩ := ha
  · simp only [Operation.run, Mutator.copyRefs, if_true, ends_bind, ends_pure]
    exact .same S (by simp [Answer.references]) (.inl rfl)
  obtain ⟨t, ht⟩ := Option.isSome_iff_exists.1 (S.mutators m hm)
  simp only [Operation.run, ends_bind, ends_pure]
  refine (ends_copyRefs_fixed S.holds ht hsrc.1.mem hdst.1.mem hsrc.2 hdst.2).mono ?_
  rintro _ _ ⟨m', rfl, C, -⟩
  exact .of_overwrites S C (by simp [Answer.references]) rfl (by simp)

theorem Sound.ends_loadWord (S : s.Sound) {src offset : Nat}
    (ha : s.AllowsOperation (.loadWord src offset)) :
    Ends ((Operation.loadWord src offset).run s.reference) s.heap
      (Changed s (.loadWord src offset)) := by
  obtain ⟨ho, h8, hn⟩ := ha
  simp only [Operation.run, loadWord, ends_bind, ends_pure,
    ends_payloadWord_fixed S.holds ho.mem h8 hn, ends_loadSlot]
  exact .same S (by simp [Answer.references]) (.inl rfl)

theorem Sound.ends_storeWord (S : s.Sound) {src offset word : Nat}
    (ha : s.AllowsOperation (.storeWord src offset word)) :
    Ends ((Operation.storeWord src offset word).run s.reference) s.heap
      (Changed s (.storeWord src offset word)) := by
  obtain ⟨ho, h8, hn⟩ := ha
  have hle := (S.holds.fits ho.mem).fields_le
  have hn' : offset + 8 ≤ Object.payloadBytes s.memory (s.reference src) := hn
  simp only [Object.payloadBytes] at hn'
  simp only [Operation.run, storeWord, ends_bind, ends_pure,
    ends_payloadWord_fixed S.holds ho.mem h8 hn, ends_storeSlot]
  -- A word of the payload is no field.
  refine .of_overwrites S (S.holds.overwrites ho.mem ?_ ?_ fun i hi he => ?_)
    (by simp [Answer.references]) rfl (by simp)
  · omega
  · show _ < s.reference src + Object.size s.memory (s.reference src)
    have : Object.refCount s.heap.core.memory (s.reference src) =
      Object.refCount s.memory (s.reference src) := rfl
    omega
  · simp only [Object.field] at he
    have : Object.refCount s.heap.core.memory (s.reference src) =
      Object.refCount s.memory (s.reference src) := rfl
    omega

theorem Sound.ends_newRoot (S : s.Sound) {value : Nat} :
    Ends ((Operation.newRoot value).run s.reference) s.heap (Changed s (.newRoot value)) := by
  have hge : rootBase ≤ s.heap.core.roots.nextSlot := Nat.le_add_right _ _
  have hv := s.reference_mem value
  simp only [Operation.run, newRoot, resolve_fixed, Heap.onRoots, RootSet.newRoot, ends_bind,
    ends_pure, ends_onPart, ends_get, ends_set]
  exact
    { tidy := S.tidy.of_core rfl fun h => .inl h
      grows := BumpHeap.extends_of_core rfl fun h => .inl h
      overwrites := S.holds.overwrites_root hge hv
      bound := fun h => .inr h
      references := by simp [Answer.references]
      made := fun h => by cases h
      rooted := fun h => by
        cases h
        refine ⟨hge, ?_⟩
        show (s.memory.write _ _).read _ = 0 ∨ (s.memory.write _ _).read _ ∈ s.objects
        rwa [Memory.read_write_self]
      serves := fun h => by cases h
      raw := fun h => by cases h }

theorem Sound.ends_loadRoot (S : s.Sound) {slot : Nat} (ha : slot ∈ s.handles) :
    Ends ((Operation.loadRoot slot).run s.reference) s.heap (Changed s (.loadRoot slot)) := by
  simp only [Operation.run, loadRoot, read_fixed, ends_bind, ends_pure, ends_loadSlot]
  exact .same S (fun v hv => List.mem_singleton.1 hv ▸ (S.roots slot ha).2) (.inl rfl)

theorem Sound.ends_storeRoot (S : s.Sound) {slot value : Nat} (ha : slot ∈ s.handles) :
    Ends ((Operation.storeRoot slot value).run s.reference) s.heap
      (Changed s (.storeRoot slot value)) := by
  simp only [Operation.run, storeRoot, resolve_fixed, ends_bind, ends_pure, ends_storeSlot]
  exact .of_overwrites S (S.holds.overwrites_root (S.roots slot ha).1 (s.reference_mem value))
    (by simp [Answer.references]) rfl (by simp)

/-- Memory may have been handed out, but has the contents that it had. -/
theorem Changed.of_gives (S : s.Sound) {h' : BumpHeap} {op : Operation} {a : Answer} (T : h'.Tidy)
    (G : BumpHeap.Gives s.heap h') (hrefs : a.references = []) (hm : ∀ m, a ≠ .mutator m)
    (hslot : ∀ x, a ≠ .slot x) (hserves : ∀ {m x n}, op.given h'.core.memory a = some (m, x, n) →
      s.heap.arena.Serves h'.arena m x n) : Changed s op a h' where
  tidy := T
  grows := G.toExtends
  overwrites := by
    rw [G.memory]
    exact .refl S.holds
  bound h := .inr ((G.isSome _).trans h)
  references := by simp [hrefs]
  made h := absurd h (hm _)
  rooted h := absurd h (hslot _)
  serves := hserves
  raw _ := G.memory

theorem Sound.ends_dropRoot (S : s.Sound) {slot : Nat} :
    Ends ((Operation.dropRoot slot).run s.reference) s.heap (Changed s (.dropRoot slot)) := by
  simp only [Operation.run, dropRoot, Heap.modifyCore, ends_bind, ends_modify, ends_pure]
  exact .of_gives S (S.tidy.of_core rfl fun h => .inl h)
    ⟨BumpHeap.extends_of_core rfl fun h => .inl h, rfl, fun _ => rfl⟩ rfl (by simp) (by simp)
    fun h => by cases h

/-! ## 4. Allocation -/

/-- **A new object** is in memory that was free. -/
theorem Sound.did_create (S : s.Sound) {op : Operation} {m n o : Nat} {h₁ : BumpHeap} {m' : Memory}
    (B : s.heap.Obtained m n (some o) h₁)
    (hop : ∀ memory, op.given memory (.object (some o)) = some (m, o, Object.size memory o))
    (hkeep : ∀ b, b < o ∨ o + n ≤ b → m'.read b = s.memory.read b)
    (hsize : Object.size m' o = n) (h8 : 8 ∣ n) (hle : 16 + 8 * Object.refCount m' o ≤ n)
    (hmax : n ≤ Object.maxSize) (hstatus : m'.read o = 0)
    (hfields : ∀ i < Object.refCount m' o, m'.read (Object.field o i) = 0 ∨
      m'.read (Object.field o i) ∈ s.objects) :
    Did s op (.object (some o))
      (({ s with heap := HasMemory.setMemory m' h₁ } : BumpSession).record op
        (.object (some o))) := by
  have hserves := B.serves o rfl
  have hn := hserves.proper.pos
  have T₁ := B.tidy
  have hfree {b : Nat} (h1 : o ≤ b) (h2 : b < o + n) : s.heap.arena.Free b := hserves.free h1 h2
  have hend : o + n ≤ rootBase := by
    have h1 := (S.tidy.free_bounds (hfree (b := o + n - 1) (by omega) (by omega))).2
    have h2 := S.tidy.boundary_le
    omega
  have hfit : Object.Fits m' o := by
    have h1 := (S.tidy.free_bounds (hfree (Nat.le_refl o) (by omega))).1
    have h2 := S.tidy.low_pos
    refine ⟨by omega, hserves.proper.aligned, hsize ▸ h8, hsize ▸ hle, hsize ▸ hmax, ?_⟩
    show o < rootBase
    omega
  have hobj : (({ s with heap := HasMemory.setMemory m' h₁ } : BumpSession).record op
      (.object (some o))).objects = insert o s.objects := by
    ext v
    simp only [objects, record, Answer.references, Option.toList_some, List.mem_append,
      List.mem_singleton, Set.mem_ofPred_eq, Set.mem_insert_iff]
    constructor
    · rintro ⟨hv | rfl, h0⟩
      · exact .inr ⟨hv, h0⟩
      · exact .inl rfl
    · rintro (rfl | ⟨hv, h0⟩)
      · exact ⟨.inr rfl, Nat.ne_of_gt hfit.pos⟩
      · exact ⟨.inl hv, h0⟩
  -- No object was where the new one is.
  have hapart : ∀ p ∈ s.objects, o + n ≤ p ∨ p + Object.size s.memory p ≤ o := by
    intro p hp
    by_contra hc
    push Not at hc
    have hpos := (S.holds.fits hp).size_pos
    exact S.taken hp (Nat.le_max_right o p) (by omega) (hfree (Nat.le_max_left o p) (by omega))
  have hold {p b : Nat} (hp : p ∈ s.objects) (h1 : p ≤ b) (h2 : b < p + Object.size s.memory p) :
      m'.read b = s.memory.read b := hkeep b (by have := hapart p hp; omega)
  have H' : m'.Holds (insert o s.objects) :=
    S.holds.insert (fun p hp b => hold hp) hfit (hsize ▸ hend) (fun p hp => hsize ▸ hapart p hp)
      hstatus hfields
  have hgone {b : Nat} (hb : h₁.arena.Free b) : s.heap.arena.Free b :=
    B.gives.fills.free T₁.orderly hb
  have hgrows : BumpHeap.Extends s.heap (HasMemory.setMemory m' h₁) :=
    trans_of BumpHeap.Extends B.gives.toExtends
      (BumpHeap.extends_of_core (c := { h₁.core with memory := m' }) rfl fun h => .inl h)
  refine ⟨?_, hgrows, fun {k x i} hg => ?_, fun he => by
    have := hop m'
    rw [he] at this
    cases this⟩
  · constructor
    · exact T₁.of_core (c := { h₁.core with memory := m' }) rfl fun h => .inl h
    · rw [hobj]
      exact H'
    · intro p b hp h1 h2 hb
      have hb : h₁.arena.Free b := hb
      have h2 : b < p + Object.size m' p := h2
      rw [hobj] at hp
      rcases hp with rfl | hp
      · exact hserves.not_free T₁.orderly h1 (hsize ▸ h2) hb
      · have hle := (S.holds.fits hp).fields_le
        refine S.taken hp h1 ?_ (hgone hb)
        rwa [← Memory.size_congr (hold hp (by omega) (by omega))]
    · intro b hb
      have hb : h₁.arena.Free b := hb
      refine (hkeep b ?_).trans (S.empty (hgone hb))
      by_contra hc
      exact hserves.not_free T₁.orderly (by omega) (by omega) hb
    · intro slot hslot
      obtain ⟨hge, hr⟩ := S.roots slot ((mem_handlesAfter (s := s) hslot).resolve_right (by simp))
      refine ⟨hge, ?_⟩
      rw [hobj]
      show m'.read slot = 0 ∨ m'.read slot ∈ insert o s.objects
      rw [hkeep slot (.inr (Nat.le_trans hend hge))]
      exact hr.imp_right .inr
    · intro k hk
      have hk := ((mem_mutatorsAfter (s := s) hk).resolve_right (by simp)).1
      exact (B.gives.isSome k).trans (S.mutators k hk)
  · have hg : op.given m' (.object (some o)) = some (k, x, i) := hg
    rw [hop, hsize] at hg
    cases hg
    exact hserves

/-- Nothing was handed out. -/
theorem Sound.did_refuse (S : s.Sound) {op : Operation} {m n : Nat} {h₁ : BumpHeap}
    (B : s.heap.Obtained m n none h₁) : Did s op (.object none)
      (({ s with heap := h₁ } : BumpSession).record op (.object none)) := by
  refine Changed.did (.of_gives S B.tidy B.gives rfl (by simp) (by simp) fun h => ?_) S
  cases op <;> cases h

theorem Sound.after_allocRaw (S : s.Sound) {m size : Nat} :
    After ((Operation.allocRaw m size).run s.reference) s.heap (Changed s (.allocRaw m size)) := by
  simp only [Operation.run, after_bind, after_pure]
  refine (after_allocate_obtained S.tidy).mono ?_
  rintro r h₁ ⟨B, -⟩
  refine .of_gives S B.tidy B.gives rfl (by simp) (by simp) fun h => ?_
  cases r with
  | none => cases h
  | some a =>
    cases h
    exact B.serves _ rfl

/-- **A new object** has null fields and a payload of zeros. -/
theorem Sound.after_alloc (S : s.Sound) {m refs payload : Nat} :
    After ((Operation.alloc m refs payload).run s.reference) s.heap fun a h' =>
      Did s (.alloc m refs payload) a
        (({ s with heap := h' } : BumpSession).record (.alloc m refs payload) a) := by
  simp only [Operation.run, allocateObject, after_bind, after_pure]
  cases hsize : Object.sizeFor refs payload with
  | none => exact after_pure.2 (S.did_refuse (m := m) (n := 1) ⟨S.tidy, refl_of _ _, by simp⟩)
  | some n =>
    obtain ⟨hn, hmax⟩ := Object.sizeFor_eq_some hsize
    have hround := roundedSize_eq hmax
    rw [after_bind]
    refine (after_allocate_obtained S.tidy).mono ?_
    rintro r h₁ ⟨B, -⟩
    rw [show roundedSize n = n by omega] at B
    cases r with
    | none => exact after_pure.2 (S.did_refuse B)
    | some o =>
      have P := (B.serves o rfl).proper
      have hmem : h₁.core.memory = s.memory := B.gives.memory
      have hempty {b : Nat} (h1 : o ≤ b) (h2 : b < o + n) : s.memory.read b = 0 :=
        S.empty ((B.serves o rfl).free h1 h2)
      have hhead : Ends (onMemory (Object.writeHeader o n refs)) h₁ fun v h' =>
          o = v ∧ h' = HasMemory.setMemory (Object.withHeader s.memory o n refs) h₁ := by
        rw [ends_onMemory]
        refine (Object.ends_writeHeader (by omega) hmax P.aligned).2 ⟨rfl, ?_⟩
        rw [← hmem]
        rfl
      simp only [publish_fixed, after_bind]
      refine hhead.after.mono ?_
      rintro _ _ ⟨rfl, rfl⟩
      refine after_pure.2 ?_
      have hlayout : (Object.withHeader s.memory o n refs).read (o + 8) = Object.layoutWord n refs :=
        Object.read_withHeader_layout
      have hcount := Object.refCount_of_layout hlayout hmax
      have hsz := Object.size_of_layout hlayout hmax
      have hgiven : ∀ memory, (Operation.alloc m refs payload).given memory (.object (some o)) =
          some (m, o, Object.size memory o) := fun _ => rfl
      refine S.did_create B hgiven
        (fun b hb => Object.read_withHeader_of_ne (by omega) (by omega)) hsz (by omega)
        (by omega) hmax (by simp) fun i hi => ?_
      rw [hcount] at hi
      simp only [Object.field]
      rw [Object.read_withHeader_of_ne (by omega) (by omega)]
      exact .inl (hempty (by omega) (by omega))

/-- **A copy** holds what the object holds. -/
theorem Sound.after_clone (S : s.Sound) {m src : Nat} (ha : s.IsObject src) :
    After ((Operation.clone m src).run s.reference) s.heap fun a h' =>
      Did s (.clone m src) a
        (({ s with heap := h' } : BumpSession).record (.clone m src) a) := by
  have hfit := S.holds.fits ha.mem
  have hsize := hfit.size_aligned
  have hle := hfit.fields_le
  have hmax := hfit.size_le
  have hround := roundedSize_eq hmax
  simp only [Operation.run, cloneObject, resolve_fixed, clonePre_fixed, after_bind, after_pure,
    getMemory, after_get]
  refine (after_allocate_obtained S.tidy).mono ?_
  rintro r h₁ ⟨B, -⟩
  have hn : roundedSize (Object.size (HasMemory.memory s.heap) (s.reference src)) =
      Object.size s.memory (s.reference src) := by
    show roundedSize (Object.size s.memory (s.reference src)) = _
    omega
  rw [hn] at B
  cases r with
  | none => exact after_pure.2 (S.did_refuse B)
  | some o =>
    have P := (B.serves o rfl).proper
    have hmem : h₁.core.memory = s.memory := B.gives.memory
    have hfree {b : Nat} (h1 : o ≤ b) (h2 : b < o + Object.size s.memory (s.reference src)) :
        s.heap.arena.Free b := (B.serves o rfl).free h1 h2
    -- The object is not where its copy is.
    have hdis : s.reference src + Object.size s.memory (s.reference src) ≤ o ∨
        o + Object.size s.memory (s.reference src) ≤ s.reference src := by
      by_contra hc
      push Not at hc
      exact S.taken ha.mem (Nat.le_max_right o _) (by omega) (hfree (Nat.le_max_left o _) (by omega))
    have hcopy : Ends (onMemory (Object.copy (s.reference src) o)) h₁ fun v h' => o = v ∧
        ∃ m', h' = HasMemory.setMemory m' h₁ ∧ m'.read o = 0 ∧
          (∀ k, 1 ≤ k → 8 * k < Object.size s.memory (s.reference src) →
            m'.read (o + 8 * k) = s.memory.read (s.reference src + 8 * k)) ∧
          ∀ b, b < o ∨ o + Object.size s.memory (s.reference src) ≤ b →
            m'.read b = s.memory.read b := by
      rw [ends_onMemory, show HasMemory.memory h₁ = s.memory from hmem]
      refine (Object.ends_copy hfit P.aligned hdis).mono ?_
      rintro v m' ⟨rfl, h0, hwords, hrest⟩
      exact ⟨rfl, m', rfl, h0, hwords, hrest⟩
    rw [after_bind]
    refine hcopy.after.mono ?_
    rintro _ _ ⟨rfl, m', rfl, h0, hwords, hrest⟩
    simp only [postAlloc_fixed, after_bind, after_pure]
    have hlayout : m'.read (o + 8) = s.memory.read (s.reference src + 8) :=
      hwords 1 (Nat.le_refl 1) (by omega)
    have hsz : Object.size m' o = Object.size s.memory (s.reference src) := by
      simp only [Object.size, wordBytes, hlayout]
    have hcount : Object.refCount m' o = Object.refCount s.memory (s.reference src) := by
      simp only [Object.refCount, wordBytes, hlayout]
    have hgiven : ∀ memory, (Operation.clone m src).given memory (.object (some o)) =
        some (m, o, Object.size memory o) := fun _ => rfl
    refine S.did_create B hgiven hrest hsz hsize (by omega) hmax h0 fun i hi => ?_
    rw [hcount] at hi
    have hf := S.holds.fields ha.mem hi
    have hw := hwords (i + 2) (by omega) (by omega)
    rw [show Object.field o i = o + 8 * (i + 2) by simp only [Object.field]; omega, hw,
      show s.reference src + 8 * (i + 2) = Object.field (s.reference src) i by
        simp only [Object.field]; omega]
    exact hf

/-! ## 5. Mutators -/

theorem Sound.after_retireTlab (S : s.Sound) {m : Nat} :
    After ((Operation.retireTlab m).run s.reference) s.heap (Changed s (.retireTlab m)) := by
  simp only [Operation.run, after_bind, after_pure]
  refine (after_giveUp S.tidy).mono ?_
  rintro _ h₁ ⟨T, G, -⟩
  exact .of_gives S T G rfl (by simp) (by simp) fun h => by cases h

theorem Sound.after_create (S : s.Sound) :
    After (Operation.create.run s.reference) s.heap (Changed s .create) := by
  have hcreate : (Mutator.create : Action BumpHeap Nat) = do
      let h ← get
      Heap.modifyCore fun c => { c with mutators := c.mutators.push (some {}) }
      return h.core.mutators.size := rfl
  have hnew {k : Nat} : (s.heap.core.mutators.push (some {}))[k]?.join =
      if k = s.heap.core.mutators.size then some {} else s.heap.mutator? k := by
    rw [Array.getElem?_push]
    split <;> rfl
  have hold {k : Nat} {t : Mutator} (ht : (s.heap.core.mutators.push (some {}))[k]?.join = some t) :
      s.heap.mutator? k = some t ∨ t.tlab = {} := by
    rw [hnew] at ht
    split at ht
    · cases ht
      exact .inr rfl
    · exact .inl ht
  simp only [Operation.run, hcreate, Heap.modifyCore, after_bind, after_get, after_modify, after_pure]
  exact
    { tidy := S.tidy.of_core rfl hold
      grows := BumpHeap.extends_of_core rfl hold
      overwrites := .refl S.holds
      bound := fun {k} hk => .inr (by
        show ((s.heap.core.mutators.push (some {}))[k]?.join).isSome = true
        rw [hnew]
        split
        · rfl
        · exact hk)
      references := by simp [Answer.references]
      made := fun {k} hk => by
        cases hk
        show ((s.heap.core.mutators.push (some {}))[s.heap.core.mutators.size]?.join).isSome = true
        rw [hnew, if_pos rfl]
        rfl
      rooted := fun h => by cases h
      serves := fun h => by cases h
      raw := fun h => by cases h }

theorem Sound.after_destroy (S : s.Sound) {m : Nat} :
    After ((Operation.destroy m).run s.reference) s.heap (Changed s (.destroy m)) := by
  have hleave : Heap.onSafepoint Safepoint.leave = (pure () : Action BumpHeap Unit) := rfl
  have hdrop {k : Nat} : (Heap.dropBuffer k : Action BumpHeap Unit) = pure () := rfl
  simp only [Operation.run, destroy, flush_fixed, hleave, hdrop, after_bind, after_pure]
  refine after_getState fun t _ => after_getState fun t hm => (after_giveUp S.tidy).mono ?_
  rintro _ h₁ ⟨T, G, -⟩
  obtain ⟨t₁, hm₁⟩ := Option.isSome_iff_exists.1 ((G.isSome m).trans (by
    rw [show s.heap.mutator? m = some t from hm]
    rfl))
  have hrest {k : Nat} {u : Mutator} (hu : (h₁.core.mutators.setIfInBounds m none)[k]?.join = some u) :
      h₁.mutator? k = some u ∨ u.tlab = {} := by
    have hu : (h₁.setMutator m none).mutator? k = some u := hu
    rw [BumpHeap.mutator?_setMutator hm₁] at hu
    split at hu
    · cases hu
    · exact .inl hu
  rw [setState, Heap.modifyCore, after_modify]
  exact
    { tidy := T.of_core rfl hrest
      grows := trans_of BumpHeap.Extends G.toExtends (BumpHeap.extends_of_core
        (c := { h₁.core with mutators := h₁.core.mutators.setIfInBounds m none }) rfl hrest)
      overwrites := by
        show Memory.Overwrites s.objects s.memory h₁.core.memory
        rw [G.memory]
        exact .refl S.holds
      bound := fun {k} hk => by
        by_cases he : k = m
        · exact .inl (by rw [he])
        · refine .inr ?_
          show ((h₁.setMutator m none).mutator? k).isSome = true
          rw [BumpHeap.mutator?_setMutator hm₁, if_neg he]
          exact (G.isSome k).trans hk
      references := by simp [Answer.references]
      made := fun h => by cases h
      rooted := fun h => by cases h
      serves := fun h => by cases h
      raw := fun h => by cases h }

/-- **Every operation** keeps a session sound, and hands out what was free. -/
theorem Sound.after_perform (S : s.Sound) {op : Operation} (ha : s.AllowsOperation op) :
    After (perform op) s (Did s op) := by
  have hchanged (h : After (op.run s.reference) s.heap (Changed s op)) :
      After (perform op) s (Did s op) :=
    BumpSession.after_perform (h.mono fun _ _ C => C.did S)
  cases op with
  | alloc m refs payload => exact BumpSession.after_perform S.after_alloc
  | allocRaw m size => exact hchanged S.after_allocRaw
  | clone m src => exact BumpSession.after_perform (S.after_clone ha.2)
  | loadRef src i => exact hchanged (S.ends_loadRef ha).after
  | storeRef m src i value => exact hchanged (S.ends_storeRef ha).after
  | casRef m src i expected new => exact hchanged (S.ends_casRef ha).after
  | copyRefs m src si dst di len => exact hchanged (S.ends_copyRefs ha).after
  | loadWord src offset => exact hchanged (S.ends_loadWord ha).after
  | storeWord src offset word => exact hchanged (S.ends_storeWord ha).after
  | resolve src =>
    refine hchanged (ends_pure.2 ?_ : Ends (pure (Answer.reference (s.reference src))) _ _).after
    exact .same S (fun v hv => List.mem_singleton.1 hv ▸ s.reference_mem src) (.inl rfl)
  | newRoot value => exact hchanged S.ends_newRoot.after
  | loadRoot slot => exact hchanged (S.ends_loadRoot ha).after
  | storeRoot slot value => exact hchanged (S.ends_storeRoot ha).after
  | dropRoot slot => exact hchanged S.ends_dropRoot.after
  | retireTlab m => exact hchanged S.after_retireTlab
  | flush m =>
    refine hchanged ?_
    simp only [Operation.run, flush_fixed, after_bind, after_pure]
    exact after_getState fun _ _ => .same S (by simp [Answer.references]) (.inl rfl)
  | create => exact hchanged S.after_create
  | destroy m => exact hchanged S.after_destroy
  | poll =>
    refine hchanged (ends_pure.2 ?_ : Ends (pure (Answer.flag false)) _ _).after
    exact .same S (by simp [Answer.references]) (.inl rfl)

end BumpSession

end ManagedHeap
