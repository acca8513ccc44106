/-
# The ledger of a relocating heap

A heap of regions hands out memory to mutators, to others, and to itself for the copies of objects.
Its view is an arena, so books can be kept of that (`Session.desk`).  A command hands out what was
free (`HeapView.Grants`), or it ends a cycle and gives regions back (`HeapView.Emptied`); either is a
step that keeps the books.

* Section 1: the arena of a heap that has its memory in order.
* Section 2: what is a step, seen from what a command has done.
* Section 3: memory that is asked for without a mutator.
* Section 4: one request.
* Section 5: whole programs.
-/
import ManagedHeap.Proofs.Sessions

namespace ManagedHeap

/-! ## 1. The arena of a heap -/

namespace HeapView

/-- The range between two addresses is in committed memory, and in one region. -/
def Inside (V : HeapView) (a b : Nat) : Prop :=
  V.low ≤ a ∧ b ≤ V.high ∧ ∃ i < V.committed, (V.region i).bottom ≤ a ∧ b ≤ (V.region i).limit

section
variable {V V' : HeapView} {m a n : Nat} {b : Tlab}

/-- The buffer of a mutator is in a region in use. -/
theorem Layout.of_buffer (L : V.Layout) (hb : V.arena.buffer m = some b) :
    V.TlabOk b ∧ (V.regionOf b.start).InUse ∧
      ∀ x, b.start ≤ x → x < b.limit → V.index x = V.index b.start := by
  obtain ⟨t, ht, rfl, hlt⟩ := buffer_eq_some.1 hb
  have h0 := L.tlab_start ht hlt
  exact ⟨L.tlabs.ok ht h0, (L.tlab_region ht h0).2, fun x => L.tlab_index ht h0⟩

/-- What may be handed out is spare. -/
theorem spare_of_free (h : V.arena.Free a) : V.Spare a := by
  rcases h with h | ⟨m, b, hb, h1, h2⟩
  · exact .inl h
  · obtain ⟨t, ht, rfl, -⟩ := buffer_eq_some.1 hb
    exact .inr ⟨m, t, ht, h1, h2⟩

/-- What may be handed out is in a region. -/
theorem Layout.of_free (L : V.Layout) (h : V.arena.Free a) :
    V.low ≤ a ∧ V.index a < V.maxRegions := by
  rcases h with h | ⟨m, b, hb, h1, h2⟩
  · obtain ⟨hi, hlow, -⟩ := L.of_untouched h
    exact ⟨hlow, hi⟩
  · obtain ⟨h, hu, hin⟩ := L.of_buffer hb
    have hs := h.start_le
    refine ⟨Nat.le_trans h.low_le (Nat.le_trans hs h1), ?_⟩
    rw [hin a (Nat.le_trans hs h1) h2]
    exact L.lt_maxRegions hu.1

/-- What is inside stays so while its region is in use. -/
theorem Inside.stays {a b : Nat} (h : V.Inside a b) (L : V.Layout) (L' : V'.Layout)
    (S : SameRange V V') (hab : a < b) (hu : (V'.region (V.index a)).state ≠ .empty) :
    V'.Inside a b := by
  obtain ⟨hlow, -, i, -, h1, h2⟩ := h
  have hr := L.regions i
  have hr' := L'.regions i
  have hb := hr.bottom_eq
  have hl := hr.limit_eq
  have hb' := hr'.bottom_eq
  have hl' := hr'.limit_eq
  rw [S.low, S.regionSize] at hb'
  rw [S.regionSize] at hl'
  obtain rfl : V.index a = i := index_eq (by omega) (by omega)
  have hcommitted := L'.committed_of_state hu
  have hlast : V'.index (b - 1) = V.index a := by
    rw [S.index]
    exact index_eq (by omega) (by omega)
  have hhigh := L'.geometry.lt_high (a := b - 1) (by rw [S.low]; omega) (hlast ▸ hcommitted)
  exact ⟨S.low ▸ hlow, by omega, _, hcommitted, by omega, by omega⟩

/-- **What was handed out stays in use** while nothing but memory that was free is handed out. -/
theorem Inside.inUse {a b : Nat} (h : V.Inside a b) (L : V.Layout) (L' : V'.Layout)
    (F : Fills V V') (hab : a < b) (ht : ¬ V.Untouched a) :
    (V'.region (V.index a)).state ≠ .empty := by
  obtain ⟨-, -, i, hi, h1, h2⟩ := h
  have S := F.toSameRange
  have hr := L.regions i
  have hr' := L'.regions i
  have hb := hr.bottom_eq
  have hl := hr.limit_eq
  have hb' := hr'.bottom_eq
  have hl' := hr'.limit_eq
  rw [S.low, S.regionSize] at hb'
  rw [S.regionSize] at hl'
  obtain rfl : V.index a = i := index_eq (by omega) (by omega)
  have hmax := Nat.lt_of_lt_of_le hi L.geometry.committed_le
  intro he
  have htop := (hr'.empty he).1
  exact ht (F.arena.untouched ⟨_, S.maxRegions.symm ▸ hmax, by omega, by omega⟩)

/-- **What was handed out is in one region** that is committed. -/
theorem Layout.inside (L : V.Layout) (L' : V'.Layout) (S : SameRange V V')
    (hp : V.arena.Proper a n)
    (h : ∀ x, a ≤ x → x < a + n → V.arena.Free x ∧ ¬ V'.arena.untouched x) :
    V'.Inside a (a + n) := by
  have hn := hp.pos
  obtain ⟨hfree, htaken⟩ := h a (Nat.le_refl _) (by omega)
  obtain ⟨hlow, hmax⟩ := L.of_free hfree
  have hlast : V.index (a + n - 1) = V.index a := hp.whole (by omega) (by omega)
  rw [← S.low] at hlow
  rw [← S.index, ← S.maxRegions] at hmax
  rw [← S.index, ← S.index] at hlast
  have hb := L'.geometry.index_bounds hlow
  have hb' := L'.geometry.index_bounds (a := a + n - 1) (by omega)
  rw [hlast] at hb'
  have hr := L'.regions (V'.index a)
  have h1 := hr.bottom_eq
  have h2 := hr.limit_eq
  -- The region is in use, because its top has moved over the range.
  have htop : a < (V'.region (V'.index a)).top :=
    Nat.lt_of_not_le fun hle => htaken ⟨_, hmax, hle, by omega⟩
  have hcommitted : V'.index a < V'.committed := by
    refine L'.committed_of_state fun he => ?_
    have := (hr.empty he).1
    omega
  have hhigh := L'.geometry.lt_high (a := a + n - 1) (by omega) (hlast ▸ hcommitted)
  exact ⟨hlow, by omega, _, hcommitted, by omega, by omega⟩

end

end HeapView

/-! ## 2. Steps -/

namespace Session

open HeapView

/-- What a session hands out is what its heap does. -/
def desk : Desk Session where
  arena s := s.heap.view.arena
  memory s := s.heap.view.memory
  inUse s i := (s.heap.view.region i).state ≠ .empty
  inside s := s.heap.view.Inside
  copied s p c n := s.heap.view.Forwarded p c ∧ n = Object.size s.heap.view.memory p

section
variable {s s' : Session} {x : Option Piece} {p c n : Nat} {W : World} {st : Stage}

/-- An object has got a copy. -/
theorem moves_iff : desk.Moves s s' p c n ↔ s'.heap.view.Forwarded p c ∧
    ¬ s.heap.view.Forwarded p c ∧ n = Object.size s'.heap.view.memory p :=
  ⟨fun ⟨h, hn⟩ => ⟨h.1, fun h' => hn _ ⟨h', rfl⟩, h.2⟩,
    fun ⟨h, hn, he⟩ => ⟨⟨h, he⟩, fun _ h' => hn h'.1⟩⟩

/-- **What was free is handed out.** -/
theorem step_of_grants (L : s.heap.view.Layout) (L' : s'.heap.view.Layout)
    (G : s.heap.view.Grants s'.heap.view)
    (hx : ∀ y, x = some y → y.Given s.heap.view.arena s'.heap.view.arena)
    (ha : ∀ y p c, x = some y → s'.heap.view.Forwarded p c → ¬ s.heap.view.Forwarded p c →
      c + Object.size s'.heap.view.memory p ≤ y.start ∨ y.start + y.size ≤ c) :
    desk.Step s s' x where
  passes := G.fills.arena.passes
  orderly := L'.orderly
  inUse {m t} ht := by
    show (s'.heap.view.region (s.heap.view.index t.start)).state ≠ .empty
    rw [← G.fills.toSameRange.index]
    exact (L'.of_buffer ht).2.1.1
  fresh hm := by
    obtain ⟨h, hn, rfl⟩ := moves_iff.1 hm
    exact (G.copies.fresh h).resolve_left hn
  copies {p q c d n k} hm hm' := by
    obtain ⟨h, hn, rfl⟩ := moves_iff.1 hm
    obtain ⟨h', hn', rfl⟩ := moves_iff.1 hm'
    by_cases he : p = q
    · subst he
      have hc : c = d := Option.some.inj (h.2.1.symm.trans h'.2.1)
      exact .inl ⟨rfl, hc, rfl⟩
    · exact .inr (G.copies.apart h hn h' hn' he)
  given := hx _
  apart hy hm := by
    obtain ⟨h, hn, rfl⟩ := moves_iff.1 hm
    exact ha _ _ _ hy h hn
  zero h := L.spare _ (spare_of_free h)
  inside hp h := L.inside L' G.fills.toSameRange hp h
  stays hab h hu := h.stays L L' G.fills.toSameRange hab hu

/-- **Regions are given back**, and nothing is handed out. -/
theorem step_of_emptied (L : s.heap.view.Layout) (L' : s'.heap.view.Layout)
    (F : s'.heap.view.Faithful W st) (E : Emptied s.heap.view s'.heap.view) :
    desk.Step s s' none := by
  -- No object has a copy elsewhere then.
  have hnone {p c n : Nat} : ¬ desk.Moves s s' p c n := fun h => by
    obtain ⟨⟨hp, hc, -⟩, -⟩ := moves_iff.1 h
    rcases F.status hp with h0 | ⟨hr, -⟩ | ⟨d, hm⟩
    · rw [Object.forwardee?_of_zero h0] at hc
      cases hc
    · exact E.calm _ hr
    · exact E.calm _ hm.relocating
  have hbuffer : s'.heap.view.arena.buffer = s.heap.view.arena.buffer :=
    congrArg buffersOf E.mutators
  exact
    { passes :=
        { untouched := fun {b} hu => (E.untouched hu).imp_right fun he hne => hne <| by
            rwa [regionOf, E.index] at he
          buffers := fun ht => .inl ⟨_, hbuffer ▸ ht, rfl, rfl, Nat.le_refl _⟩
          region := funext E.index }
      orderly := L'.orderly
      inUse := fun {m t} ht => by
        show (s'.heap.view.region (s.heap.view.index t.start)).state ≠ .empty
        rw [← E.index]
        exact (L'.of_buffer ht).2.1.1
      fresh := fun h => absurd h hnone
      copies := fun h => absurd h hnone
      given := fun h => by cases h
      apart := fun h => by cases h
      zero := fun h => L.spare _ (spare_of_free h)
      inside := fun hp h => L.inside L' E.toSameRange hp h
      stays := fun hab h hu => h.stays L L' E.toSameRange hab hu }

end

end Session

/-! ## 3. Memory without a mutator -/

namespace HeapView

variable {V V' : HeapView}

/-- Allocation copies no object. -/
theorem Grows.grants (G : Grows V V') (F : Fills V V') : V.Grants V' :=
  ⟨F, G.published.2, .of_none fun h => ⟨G.published.1 h.1, G.memory ▸ h.2⟩, fun _ => by rw [G.memory]⟩

end HeapView

namespace RegionHeap

variable {h : RegionHeap}

/-- Time is not seen. -/
theorem ends_sleep {t : Nat} : Ends (Heap.sleep t) h fun _ h' => h'.view = h.view := by
  have hnote {e : Event} {g : RegionHeap} (hg : g.view = h.view) :
      Ends (note e) g fun _ h' => h'.view = h.view := ends_note fun h' hv => hv.trans hg
  show Ends (do Heap.modifyCore fun c => { c with clock := c.clock + t }; takeUp) h _
  simp only [Heap.modifyCore, ends_bind, ends_modify, takeUp, ends_get]
  cases hc : h.controller with
  | none => exact ends_pure.2 rfl
  | some c =>
    cases hp : c.pending with
    | none =>
      simp only [hp]
      exact ends_pure.2 rfl
    | some cause =>
      simp only [hp, begin, setController, ends_ite, ends_bind, ends_modify, ends_pure]
      exact ⟨fun _ => hnote rfl, fun _ => rfl⟩

end RegionHeap

namespace Session

open HeapView

variable {s : Session} {h' : RegionHeap} {W : World} {ts : List MarkTask} {n : Nat}
  {x : Option Piece}

/-- Allocation keeps what operations need. -/
theorem Ready.of_grows (S : s.Ready W ts) (L' : h'.view.Layout) (G : Grows s.heap.view h'.view)
    (F : Fills s.heap.view h'.view) : ({ s with heap := h' } : Session).Ready W ts := by
  have hf := G.frame
  obtain ⟨hgc, hphase, hjoined, hpending, hroots⟩ : h'.view.gcState = s.heap.view.gcState ∧
      h'.view.phase = s.heap.view.phase ∧ h'.view.joined = s.heap.view.joined ∧
      h'.view.pending = s.heap.view.pending ∧ h'.view.roots = s.heap.view.roots := by
    rw [hf]
    exact ⟨rfl, rfl, rfl, rfl, rfl⟩
  have hsame := G.sameObjects.toSamePlaces
  exact
    { inv := S.inv.of_grows G L'
      inStage := ⟨hgc.trans S.inStage.1, hphase.trans S.inStage.2⟩
      loose := S.loose
      joined := hjoined.trans (S.joined.trans G.count.symm)
      pending := hpending.trans S.pending
      balanced := F.balanced S.balanced
      mutators := fun m hm => G.isSome.trans (S.mutators m hm)
      handles := fun slot hs => by
        obtain ⟨c, hc, h⟩ := S.handles slot hs
        exact ⟨c, hroots ▸ hc, h⟩
      held := fun v hv => (S.held v hv).imp_right fun h =>
        h.same hsame S.inv.faithful.published rfl rfl }

/-- **Memory is handed out to nobody's buffer**, or none. -/
theorem Ready.step_of_grows (S : s.Ready W ts) (L' : h'.view.Layout) (G : Grows s.heap.view h'.view)
    (F : Fills s.heap.view h'.view) (hx : ∀ y, x = some y →
      (y.use = .shared ∨ y.use = .buffer none) ∧
        s.heap.view.arena.Fresh h'.view.arena y.start y.size) :
    desk.Step s { s with heap := h' } x := by
  refine step_of_grants S.inv.layout L' (G.grants F) (fun y hy => .inr (hx y hy)) ?_
  exact fun y p c _ hp hn => absurd ⟨G.published.1 hp.1, G.memory ▸ hp.2⟩ hn

end Session

/-! ## 4. Requests -/

/-- A range, unless it is empty. -/
def Piece.range? (u : Use) (a n : Nat) : Option Piece := if 0 < n then some ⟨u, a, n⟩ else none

theorem Piece.range?_eq_some {u : Use} {a n : Nat} {y : Piece} :
    Piece.range? u a n = some y ↔ 0 < n ∧ y = ⟨u, a, n⟩ := by
  unfold range?
  split
  · rename_i hn
    simp [hn, eq_comm]
  · rename_i hn
    simp [hn]

/-- What a program asks for, and what a heap is asked for without a mutator. -/
inductive Demand where
  | command (c : Command)
  /-- An allocation outside of buffers. -/
  | allocate (n : Nat)
  /-- An allocation of a buffer for nobody. -/
  | allocateTlab (sizing : TlabSizing) (n : Nat)
  /-- Such a buffer, which starts at an address, will not be allocated from any more. -/
  | retireTlab (a : Nat)
  | sleep (time : Nat)
  deriving DecidableEq, Repr

/-- The range that a mutator was given by a command. -/
def Command.piece? (V : HeapView) : Command → Answer → Option Piece
  | .operation op, a => (op.given V.memory a).map fun (m, x, n) => ⟨V.arena.useOf m x, x, n⟩
  | _, _ => none

namespace Session

open HeapView

/-- Serve a demand.  Gives the range that was given for it. -/
def serve : Demand → Action Session (Option Piece)
  | .command c => do
    let a ← execute c
    let s ← get
    return c.piece? s.heap.view a
  | .allocate n => do
    let a? ← onHeap (Heap.allocate n)
    return a?.bind (Piece.range? .shared · n)
  | .allocateTlab z n => do
    let (_, given) ← onHeap (Heap.allocateTlab z n)
    return given.bind fun (a, k) => Piece.range? (.buffer none) a k
  | .retireTlab a => do
    onHeap (Heap.retireTlab a)
    return none
  | .sleep t => do
    onHeap (Heap.sleep t)
    return none

/-- Commands as a program may give them; whole words are asked for, and a buffer of some bytes with a
sizing for regions; a buffer is retired if its region counts one that no mutator has. -/
def AllowsDemand (s : Session) : Demand → Prop
  | .command c => s.Allows c
  | .allocate n => objectAlignment ∣ n
  | .allocateTlab z n => objectAlignment ∣ n ∧ z.size ≤ s.heap.space.regionSize ∧
      0 < max n s.heap.core.options.minTlabSize
  | .retireTlab a => ∀ i ∈ s.heap.space.indexOf? a,
      s.heap.view.tlabCount i < (s.heap.view.region i).activeTlabs
  | .sleep _ => True

instance (s : Session) (d : Demand) : Decidable (s.AllowsDemand d) := by
  cases d <;> unfold AllowsDemand <;> infer_instance

end Session

/-- What is given is memory as it is, and no object. -/
def Demand.isRaw : Demand → Bool
  | .command (.operation (.allocRaw _ _)) | .allocate _ | .allocateTlab _ _ => true
  | _ => false

namespace Session

open HeapView

section
variable {s : Session} {h' : RegionHeap} {W : World} {d : Demand} {op : Operation} {c : CycleStep}

/-- What serving a demand has done. -/
structure Served (s : Session) (d : Demand) (x : Option Piece) (s' : Session) : Prop where
  ready : ∃ W, s'.Ready W
  step : desk.Step s s' x
  zero : d.isRaw = true → ∀ y, x = some y → ∀ a, y.Holds a → s'.heap.view.memory.read a = 0
  grants : d ≠ .command (.step .recycle) → s.heap.view.Grants s'.heap.view

/-- Memory is handed out to nobody's buffer, or none. -/
theorem Ready.served_of_grows {x : Option Piece} (S : s.Ready W) (L' : h'.view.Layout)
    (G : Grows s.heap.view h'.view) (F : Fills s.heap.view h'.view)
    (hx : ∀ y, x = some y → (y.use = .shared ∨ y.use = .buffer none) ∧
      s.heap.view.arena.Fresh h'.view.arena y.start y.size) :
    s.Served d x { s with heap := h' } where
  ready := ⟨W, S.of_grows L' G F⟩
  step := S.step_of_grows L' G F hx
  zero _ y hy a ha := by
    show h'.view.memory.read a = 0
    rw [G.memory]
    exact S.inv.layout.spare _ (.inl ((hx y hy).2.unused a ha.1 ha.2))
  grants _ := G.grants F

/-- **An operation** hands out what it was given. -/
theorem Ready.ends_serve_operation (S : s.Ready W) (ha : s.AllowsOperation op) :
    Ends (serve (.command (.operation op))) s (s.Served (.command (.operation op))) := by
  simp only [serve, execute, ends_bind, ends_get, ends_pure]
  refine (S.ends_perform ha).mono ?_
  rintro a _ ⟨h', W', b, I, rfl, -, P⟩
  refine ⟨⟨W', (S.record P).1⟩, step_of_grants S.inv.layout P.inv.layout P.persists.grants ?_ ?_, ?_,
    fun _ => P.persists.grants⟩
  · intro y hy
    obtain ⟨⟨m, x, n⟩, hg, rfl⟩ := Option.map_eq_some_iff.1 hy
    exact (P.given hg).serves.given
  · intro y p c hy hp hn
    obtain ⟨⟨m, x, n⟩, hg, rfl⟩ := Option.map_eq_some_iff.1 hy
    exact (P.given hg).apart hp hn
  · intro hraw y hy e he
    obtain ⟨⟨m, x, n⟩, hg, rfl⟩ := Option.map_eq_some_iff.1 hy
    cases op <;> cases hraw
    rename_i m' k
    cases a <;> try cases hg
    rename_i a?
    cases a? <;> cases hg
    exact (P.raw rfl rfl).zero e he.1 he.2

/-- **A step of a cycle** hands out memory for copies, or gives regions back. -/
theorem Ready.ends_serve_step (S : s.Ready W) (ha : s.stage = c.stage) :
    Ends (serve (.command (.step c))) s (s.Served (.command (.step c))) := by
  simp only [serve, execute, ends_bind, ends_get, ends_pure]
  refine (S.ends_advance ha).mono ?_
  rintro b _ ⟨h', W', rfl, A, -, hg, -⟩
  refine ⟨⟨W', (S.enter A).1⟩, ?_, fun hraw => (by cases hraw), fun hc => hg fun he => hc (he ▸ rfl)⟩
  rcases A.space with G | E
  · exact step_of_grants S.inv.layout A.inv.layout G (fun _ h => by cases h) fun _ _ _ h => by cases h
  · exact step_of_emptied S.inv.layout A.inv.layout A.inv.faithful E

/-- **Whatever is asked for** is served, in a step that keeps the books. -/
theorem Ready.ends_serve (S : s.Ready W) (ha : s.AllowsDemand d) :
    Ends (serve d) s (s.Served d) := by
  have L := S.inv.layout
  cases d with
  | command c =>
    cases c with
    | operation op => exact S.ends_serve_operation ha
    | step c => exact S.ends_serve_step ha
    | cancel =>
      simp only [serve, execute, ends_bind, ends_get, ends_pure]
      refine S.ends_cancel.mono ?_
      rintro b _ ⟨S', -, h', d, rfl, hv⟩
      have G : s.heap.view.Grants h'.view := by
        rw [hv]
        exact .of_space { SameSpace.refl s.heap.view with } (fun _ => Iff.rfl) rfl
      exact ⟨⟨W, S'⟩, step_of_grants L S'.inv.layout G (fun _ h => by cases h)
        (fun _ _ _ h => by cases h), fun hraw => (by cases hraw), fun _ => G⟩
  | allocate n =>
    simp only [serve, onHeap, ends_bind, ends_onPart, ends_pure]
    refine (RegionHeap.ends_allocate L ha).mono fun r h' A => ?_
    refine S.served_of_grows A.layout A.grows A.fills fun y hy => ?_
    obtain ⟨a, rfl, hy⟩ := Option.bind_eq_some_iff.1 hy
    obtain ⟨hn, rfl⟩ := Piece.range?_eq_some.1 hy
    exact ⟨.inl rfl, A.fresh a rfl hn⟩
  | allocateTlab z n =>
    obtain ⟨hn, hz, hpos⟩ := ha
    simp only [serve, onHeap, ends_bind, ends_onPart, ends_pure]
    refine (RegionHeap.ends_allocateTlab L hz hn hpos).mono ?_
    rintro ⟨z', given⟩ h' B
    refine S.served_of_grows B.layout B.grows B.fills fun y hy => ?_
    obtain ⟨⟨a, k⟩, rfl, hy⟩ := Option.bind_eq_some_iff.1 hy
    obtain ⟨-, rfl⟩ := Piece.range?_eq_some.1 hy
    exact ⟨.inr rfl, B.fresh a k rfl⟩
  | retireTlab a =>
    simp only [serve, onHeap, ends_bind, ends_onPart, ends_pure]
    cases hi : s.heap.space.indexOf? a with
    | some i =>
      refine (Mutator.ends_uncount L hi (ha i hi)).mono ?_
      rintro _ h' ⟨L', G, hv⟩
      exact S.served_of_grows L' G (hv ▸ (Fills.refl _).setRegion rfl rfl rfl) fun _ h => by cases h
    | none =>
      show Ends (RegionHeap.onSpace (RegionSpace.retireTlab a)) _ _
      simp only [RegionHeap.onSpace, ends_onPart, RegionSpace.retireTlab, ends_bind, ends_get, hi,
        RegionSpace.report, ends_modify]
      exact S.served_of_grows L (Grows.refl _) (Fills.refl _) fun _ h => by cases h
  | sleep t =>
    simp only [serve, onHeap, ends_bind, ends_onPart, ends_pure]
    refine RegionHeap.ends_sleep.mono fun _ h' hv => ?_
    exact S.served_of_grows (hv ▸ L) (hv ▸ Grows.refl _) (hv ▸ Fills.refl _) fun _ h => by cases h

end

/-! ## 5. Whole programs -/

end Session

/-- A program may ask for the same while books are kept. -/
theorem Desk.permitted_keep {σ γ : Type} {D : Desk σ} {act : γ → Action σ (Option Piece)}
    {allows : σ → γ → Prop} {cs : List γ} {s : σ} (hp : Permitted act allows cs s) {b : Books σ}
    (hb : b.state = s) :
    Permitted (fun c => D.keep (act c)) (fun b c => allows b.state c) cs b := by
  induction cs generalizing s b with
  | nil => trivial
  | cons c rest ih =>
    subst hb
    obtain ⟨ha, hrest⟩ := hp
    refine ⟨ha, ?_⟩
    split
    · rename_i x b' hk
      have hact : After (D.keep (act c)) b fun x b' =>
          ∃ s', act c b.state = .ok x s' ∧ b' = D.next b x s' :=
        Desk.after_keep.2 fun x s' hs => ⟨s', hs, rfl⟩
      obtain ⟨s', hs, rfl⟩ := hact x b' hk
      rw [hs] at hrest
      exact ih hrest rfl
    · trivial

namespace Session

open HeapView

section
variable {b : Books Session} {d : Demand} {ds : List Demand} {place : Place} {o : Options}
  {h : RegionHeap}

/-- The session goes on, and its books are kept. -/
def Booked (b : Books Session) : Prop := (∃ W, b.state.Ready W) ∧ desk.Kept b

/-- **Serving a demand keeps the books.** -/
theorem Booked.ends_keep (B : Booked b) (ha : b.state.AllowsDemand d) :
    Ends (desk.keep (serve d)) b fun x b' => Booked b' ∧ desk.Turn b x b' ∧
      (d.isRaw = true → ∀ y, x = some y → ∀ a, y.Holds a →
        b'.state.heap.core.memory.read a = 0) ∧
      (d ≠ .command (.step .recycle) → b.ledger ⊆ b'.ledger) := by
  obtain ⟨⟨W, S⟩, K⟩ := B
  refine Desk.ends_keep.2 ((S.ends_serve ha).mono fun x s' T => ?_)
  obtain ⟨K', hturn⟩ := K.next T.step
  obtain ⟨W', S'⟩ := T.ready
  refine ⟨⟨⟨W', S'⟩, K'⟩, hturn, T.zero, fun hd g hg => .inl ⟨hg, ?_⟩⟩
  have hpos := K.fits.size_pos hg
  exact (K.inside g hg).inUse S.inv.layout S'.inv.layout (T.grants hd).fills
    (Nat.lt_add_of_pos_right hpos) (K.fits.taken hg ⟨Nat.le_refl _, Nat.lt_add_of_pos_right hpos⟩)

/-- The books of a heap that was built. -/
theorem booked_start (hb : AnyHeap.build place o = .ok (.ok (.region h))) :
    Booked { state := start h } := by
  refine ⟨⟨_, (sound_start hb).toReady⟩, Desk.kept_open fun m => ?_⟩
  have U := RegionHeap.pristine_of_build hb
  refine Option.eq_none_iff_forall_ne_some.2 fun t ht => ?_
  obtain ⟨u, hu, -⟩ := (buffer_eq_some (V := h.view)).1 ht
  rw [U.mutator?] at hu
  cases hu

/-- The demands of a program are served to the end, and the books are kept. -/
theorem ends_served (hb : AnyHeap.build place o = .ok (.ok (.region h)))
    (hp : Permitted serve AllowsDemand ds (start h)) :
    Ends (Action.runAll (fun d => desk.keep (serve d)) ds) { state := start h } fun _ b => Booked b :=
  ends_runAll_inv (fun _ _ B ha => (B.ends_keep ha).mono fun _ _ h => h.1) (booked_start hb)
    (Desk.permitted_keep hp rfl)

end

end Session

end ManagedHeap
