/-
# What is handed out

Memory is handed out in three layers.  From above what was handed out before come the buffers of
mutators, allocations outside of buffers, and the copies of objects that are moved; from a buffer come
the objects of its mutator.  A ledger is the set of what was handed out and not given back.

`Arena` is all that matters of a heap here: which bytes are untouched, which buffers the mutators have,
and where one region ends and another begins.  A ledger fits an arena if nothing in it is untouched, if
the rest of a buffer is in nothing but that buffer, and if what it holds is apart (`Fits`).  `Fits.step`
is the one argument of the module: whatever is handed out from one arena to the next was untouched or
left in a buffer, so the ledger with it fits the next arena.  It does not say which heap this is.

* Section 1: grants and ledgers.
* Section 2: arenas, and what is handed out from one to the next.
* Section 3: the step.
* Section 4: a ledger is kept along the steps of any state of which an arena can be seen.
-/
import ManagedHeap.Heap
import ManagedHeap.Proofs.Partial
import Mathlib.Data.Set.Basic

namespace ManagedHeap

/-! ## 1. Grants -/

/-- What memory is handed out for. -/
inductive Use where
  /-- A buffer, of a mutator or of nobody. -/
  | buffer (m? : Option Nat)
  /-- An allocation outside of buffers. -/
  | shared
  /-- The copy of the object at an address. -/
  | copy (object : Nat)
  /-- An allocation from the buffer of a mutator. -/
  | cut (m : Nat)
  deriving DecidableEq, Repr

/-- A range of memory, and what it is for. -/
structure Piece where
  use : Use
  start : Nat
  size : Nat
  deriving DecidableEq, Repr

/-- A byte of the range. -/
def Piece.Holds (y : Piece) (b : Nat) : Prop := y.start ≤ b ∧ b < y.start + y.size

/-- A piece that was handed out, and when. -/
structure Grant extends Piece where
  turn : Nat
  deriving DecidableEq, Repr

namespace Grant

/-- Two ranges share no byte. -/
def Apart (g g' : Grant) : Prop := g.start + g.size ≤ g'.start ∨ g'.start + g'.size ≤ g.start

/-- A range was cut from a buffer. -/
def CutFrom (g g' : Grant) : Prop :=
  (∃ m, g.use = .cut m ∧ g'.use = .buffer (some m)) ∧
    g'.start ≤ g.start ∧ g.start + g.size ≤ g'.start + g'.size

/-- Two ranges share no byte, or one was cut from the other. -/
def Compatible (g g' : Grant) : Prop := g.Apart g' ∨ g.CutFrom g' ∨ g'.CutFrom g

/-- The range was not cut from a buffer, and is none that a mutator has. -/
def Outside (g : Grant) : Prop := (∀ m, g.use ≠ .cut m) ∧ ∀ m, g.use ≠ .buffer (some m)

/-- The grant of a buffer. -/
def ofBuffer (turn m : Nat) (t : Tlab) : Grant :=
  ⟨⟨.buffer (some m), t.start, t.limit - t.start⟩, turn⟩

variable {g g' : Grant}

theorem Apart.symm (h : g.Apart g') : g'.Apart g := Or.symm h

theorem Compatible.symm (h : g.Compatible g') : g'.Compatible g := by
  rcases h with h | h | h
  · exact .inl h.symm
  · exact .inr (.inr h)
  · exact .inr (.inl h)

/-- The bytes of a buffer. -/
theorem holds_ofBuffer {turn m b : Nat} {t : Tlab} :
    (ofBuffer turn m t).Holds b ↔ t.start ≤ b ∧ b < t.limit := by
  show t.start ≤ b ∧ b < t.start + (t.limit - t.start) ↔ _
  omega

/-- A grant is a buffer, was cut from one, or neither. -/
theorem cases_use (g : Grant) :
    (∃ m, g.use = .buffer (some m)) ∨ (∃ m, g.use = .cut m) ∨ g.Outside := by
  by_cases h1 : ∃ m, g.use = .buffer (some m)
  · exact .inl h1
  · by_cases h2 : ∃ m, g.use = .cut m
    · exact .inr (.inl h2)
    · exact .inr (.inr ⟨fun m hm => h2 ⟨m, hm⟩, fun m hm => h1 ⟨m, hm⟩⟩)

end Grant

/-- All that is in a ledger is apart, but for what was cut from a buffer, and the buffer. -/
def Exclusive (L : Set Grant) : Prop := ∀ g ∈ L, ∀ g' ∈ L, g ≠ g' → g.Compatible g'

/-- What was cut was cut from a buffer of the ledger. -/
def CutsInside (L : Set Grant) : Prop := ∀ g ∈ L, ∀ m, g.use = .cut m → ∃ g' ∈ L, g.CutFrom g'

/-! ## 2. Arenas -/

/-- The buffers of mutators; one of no bytes is none. -/
def buffersOf (mutators : Array (Option Mutator)) (m : Nat) : Option Tlab :=
  ((mutators[m]?.join).map Mutator.tlab).filter fun t => t.start < t.limit

theorem buffersOf_eq_some {mutators : Array (Option Mutator)} {m : Nat} {b : Tlab} :
    buffersOf mutators m = some b ↔
      ∃ t, mutators[m]?.join = some t ∧ t.tlab = b ∧ b.start < b.limit := by
  simp only [buffersOf, Option.filter_eq_some_iff, Option.map_eq_some_iff, decide_eq_true_eq]
  constructor
  · rintro ⟨⟨t, ht, he⟩, h0⟩
    exact ⟨t, ht, he, h0⟩
  · rintro ⟨t, ht, he, h0⟩
    exact ⟨⟨t, ht, he⟩, h0⟩

/-- What matters of a heap for what it hands out. -/
structure Arena where
  /-- A byte that was not handed out since its memory was last empty. -/
  untouched : Nat → Prop
  /-- The buffers of the mutators. -/
  buffer : Nat → Option Tlab
  /-- The number of the region that an address is in. -/
  region : Nat → Nat

namespace Arena

/-- A range that is not empty begins with a word and is in one region. -/
structure Proper (A : Arena) (a n : Nat) : Prop where
  pos : 0 < n
  aligned : 8 ∣ a
  whole : ∀ {b}, a ≤ b → b < a + n → A.region b = A.region a

/-- The buffers lie apart in memory that was handed out. -/
structure Orderly (A : Arena) : Prop where
  bounds : ∀ {m t}, A.buffer m = some t → t.start ≤ t.cursor ∧ t.cursor ≤ t.limit
  proper : ∀ {m t}, A.buffer m = some t → A.Proper t.start (t.limit - t.start)
  apart : ∀ {m m' t t'}, m ≠ m' → A.buffer m = some t → A.buffer m' = some t' →
    t.limit ≤ t'.start ∨ t'.limit ≤ t.start
  taken : ∀ {m t b}, A.buffer m = some t → t.start ≤ b → b < t.limit → ¬ A.untouched b

/-- A buffer is what the mutator had, or less of it, or is from untouched memory. -/
def Continues (A : Arena) (m : Nat) (t : Tlab) : Prop :=
  (∃ u, A.buffer m = some u ∧ u.start = t.start ∧ u.limit = t.limit ∧ u.cursor ≤ t.cursor) ∨
    ∀ b, t.start ≤ b → b < t.limit → A.untouched b

/-- What is handed out from `A` to `A'` was free in `A`. -/
structure Fills (A A' : Arena) : Prop where
  untouched : ∀ {b}, A'.untouched b → A.untouched b
  buffers : ∀ {m t}, A'.buffer m = some t → A.Continues m t
  region : A'.region = A.region

/-- The same, but the regions that are not `kept` were given back. -/
structure Passes (kept : Nat → Prop) (A A' : Arena) : Prop where
  untouched : ∀ {b}, A'.untouched b → A.untouched b ∨ ¬ kept (A.region b)
  buffers : ∀ {m t}, A'.buffer m = some t → A.Continues m t
  region : A'.region = A.region

/-- A range that was untouched is handed out, and not as a buffer of a mutator. -/
structure Fresh (A A' : Arena) (a n : Nat) : Prop where
  proper : A.Proper a n
  unused : ∀ b, a ≤ b → b < a + n → A.untouched b
  taken : ∀ b, a ≤ b → b < a + n → ¬ A'.untouched b
  clear : ∀ {m t}, A'.buffer m = some t → t.start < t.limit → t.limit ≤ a ∨ a + n ≤ t.start

/-- A range was cut from the buffer that the mutator has then, and was free before. -/
structure Cut (A A' : Arena) (m a n : Nat) : Prop where
  proper : A.Proper a n
  cut : ∃ t, A'.buffer m = some t ∧ t.start ≤ a ∧ a + n ≤ t.cursor ∧ t.cursor ≤ t.limit ∧
    ((∀ b, a ≤ b → b < a + n → A.untouched b) ∨
      ∃ u, A.buffer m = some u ∧ u.start = t.start ∧ u.limit = t.limit ∧ u.cursor ≤ a)

/-- A mutator is given a range. -/
def Serves (A A' : Arena) (m a n : Nat) : Prop := A.Fresh A' a n ∨ A.Cut A' m a n

/-- A buffer that the mutator did not have. -/
def Gets (A A' : Arena) (m : Nat) (t : Tlab) : Prop :=
  A'.buffer m = some t ∧ ∀ u, A.buffer m = some u → u.start ≠ t.start

/-- The grants `G` are what is handed out from `A` to `A'`. -/
structure Hands (turn : Nat) (A A' : Arena) (G : Set Grant) : Prop where
  buffers : ∀ {g m}, g ∈ G → g.use = .buffer (some m) →
    ∃ t, A.Gets A' m t ∧ g = Grant.ofBuffer turn m t
  complete : ∀ {m t}, A.Gets A' m t → Grant.ofBuffer turn m t ∈ G
  cut : ∀ {g m}, g ∈ G → g.use = .cut m → A.Cut A' m g.start g.size
  one : ∀ {g g' m m'}, g ∈ G → g' ∈ G → g.use = .cut m → g'.use = .cut m' → g = g'
  fresh : ∀ {g}, g ∈ G → g.Outside → A.Fresh A' g.start g.size
  apart : ∀ {g g'}, g ∈ G → g' ∈ G → g.Outside → g'.Outside → g ≠ g' → g.Apart g'

section
variable {A A' A'' : Arena} {kept : Nat → Prop} {m a n k c : Nat} {t : Tlab}

theorem Proper.congr (h : A.Proper a n) (hr : A'.region = A.region) : A'.Proper a n :=
  { h with whole := fun h1 h2 => by rw [hr]; exact h.whole h1 h2 }

theorem Continues.of_fills (h : A'.Continues m t) (F : A.Fills A') : A.Continues m t := by
  rcases h with ⟨u, hu, hs, hl, hc⟩ | h
  · rcases F.buffers hu with ⟨x, hx, hs', hl', hc'⟩ | h
    · exact .inl ⟨x, hx, hs'.trans hs, hl'.trans hl, Nat.le_trans hc' hc⟩
    · exact .inr (hs ▸ hl ▸ h)
  · exact .inr fun b h1 h2 => F.untouched (h b h1 h2)

theorem Fills.refl (A : Arena) : A.Fills A :=
  ⟨id, fun h => .inl ⟨_, h, rfl, rfl, Nat.le_refl _⟩, rfl⟩

theorem Fills.trans (F : A.Fills A') (F' : A'.Fills A'') : A.Fills A'' where
  untouched h := F.untouched (F'.untouched h)
  buffers h := (F'.buffers h).of_fills F
  region := F'.region.trans F.region

theorem Fills.passes (F : A.Fills A') : A.Passes kept A' :=
  ⟨fun h => .inl (F.untouched h), F.buffers, F.region⟩

theorem Fresh.of_fills (h : A'.Fresh A'' a n) (F : A.Fills A') : A.Fresh A'' a n :=
  { h with
    proper := h.proper.congr F.region.symm
    unused := fun b h1 h2 => F.untouched (h.unused b h1 h2) }

/-- What was handed out is not handed out again. -/
theorem Fresh.fills (h : A.Fresh A' a n) (F : A'.Fills A'') : A.Fresh A'' a n where
  proper := h.proper
  unused := h.unused
  taken b h1 h2 hu := h.taken b h1 h2 (F.untouched hu)
  clear {m t} ht hlt := by
    rcases F.buffers ht with ⟨u, hu, hs, hl, -⟩ | hfree
    · rw [← hs, ← hl] at hlt ⊢
      exact h.clear hu hlt
    · by_contra hc
      have hn := h.proper.pos
      push Not at hc
      exact h.taken (max a t.start) (Nat.le_max_left _ _) (by omega)
        (hfree _ (Nat.le_max_right _ _) (by omega))

/-- What is handed out first is apart from what is handed out then. -/
theorem Fresh.apart (h : A.Fresh A' a n) (h' : A'.Fresh A'' c k) : a + n ≤ c ∨ c + k ≤ a := by
  by_contra hc
  have hn := h.proper.pos
  have hk := h'.proper.pos
  push Not at hc
  exact h.taken (max a c) (Nat.le_max_left _ _) (by omega)
    (h'.unused _ (Nat.le_max_right _ _) (by omega))

theorem Cut.of_fills (h : A'.Cut A'' m a n) (F : A.Fills A') : A.Cut A'' m a n := by
  obtain ⟨hp, t, ht, hs, hc, hl, h⟩ := h
  have hn := hp.pos
  refine ⟨hp.congr F.region.symm, t, ht, hs, hc, hl, ?_⟩
  rcases h with h | ⟨u, hu, hs', hl', hc'⟩
  · exact .inl fun b h1 h2 => F.untouched (h b h1 h2)
  · rcases F.buffers hu with ⟨x, hx, hs'', hl'', hc''⟩ | h
    · exact .inr ⟨x, hx, hs''.trans hs', hl''.trans hl', Nat.le_trans hc'' hc'⟩
    · exact .inl fun b h1 h2 => h b (by omega) (by omega)

theorem Serves.of_fills (h : A'.Serves A'' m a n) (F : A.Fills A') : A.Serves A'' m a n :=
  h.imp (·.of_fills F) (·.of_fills F)

/-- What is copied first is apart from what a mutator is given then. -/
theorem Fresh.apart_serves (h : A.Fresh A' c k) (h' : A'.Serves A'' m a n) (F : A'.Fills A'') :
    c + k ≤ a ∨ a + n ≤ c := by
  rcases h' with h' | ⟨hp, t, ht, hs, hc, hl, -⟩
  · exact h.apart h'
  · have hn := hp.pos
    rcases (h.fills F).clear ht (by omega) with h1 | h1 <;> omega

theorem Serves.proper (h : A.Serves A' m a n) : A.Proper a n := h.elim (·.proper) (·.proper)

/-- A byte that may be handed out: untouched, or left in a buffer. -/
def Free (A : Arena) (b : Nat) : Prop :=
  A.untouched b ∨ ∃ m u, A.buffer m = some u ∧ u.cursor ≤ b ∧ b < u.limit

/-- A range that may be handed out as one: it is untouched, or left in one buffer. -/
def Offers (A : Arena) (a n : Nat) : Prop :=
  (∀ b, a ≤ b → b < a + n → A.untouched b) ∨
    ∃ m u, A.buffer m = some u ∧ u.cursor ≤ a ∧ a + n ≤ u.limit

theorem Offers.free (h : A.Offers a n) {b : Nat} (h1 : a ≤ b) (h2 : b < a + n) : A.Free b := by
  rcases h with h | ⟨m, u, hu, hc, hl⟩
  · exact .inl (h b h1 h2)
  · exact .inr ⟨m, u, hu, by omega, by omega⟩

theorem Cut.offers (h : A.Cut A' m a n) : A.Offers a n := by
  obtain ⟨-, t, -, -, hc, hl, h | ⟨u, hu, -, hl', hc'⟩⟩ := h
  · exact .inl h
  · exact .inr ⟨m, u, hu, hc', by omega⟩

/-- What a mutator is given was to be had. -/
theorem Serves.offers (h : A.Serves A' m a n) : A.Offers a n :=
  h.elim (fun h => .inl h.unused) (·.offers)

theorem Serves.free {b : Nat} (h : A.Serves A' m a n) (h1 : a ≤ b) (h2 : b < a + n) : A.Free b :=
  h.offers.free h1 h2

/-- Nothing becomes free but what is given back. -/
theorem Passes.free {b : Nat} (P : A.Passes kept A') (S : A'.Orderly) (h : A'.Free b) :
    A.Free b ∨ ¬ kept (A.region b) := by
  rcases h with h | ⟨m, u, hu, h1, h2⟩
  · exact (P.untouched h).imp_left .inl
  · rcases P.buffers hu with ⟨x, hx, -, hl, hc⟩ | hfree
    · exact .inl (.inr ⟨m, x, hx, Nat.le_trans hc h1, hl ▸ h2⟩)
    · exact .inl (.inl (hfree b (Nat.le_trans (S.bounds hu).1 h1) h2))

theorem Fills.free {b : Nat} (F : A.Fills A') (S : A'.Orderly) (h : A'.Free b) : A.Free b :=
  have P : A.Passes (fun _ => True) A' := F.passes
  (P.free S h).resolve_right fun hn => hn trivial

/-- **What a mutator was given is not free any more.** -/
theorem Serves.not_free {b : Nat} (h : A.Serves A' m a n) (S : A'.Orderly) (h1 : a ≤ b)
    (h2 : b < a + n) : ¬ A'.Free b := by
  rintro (hu | ⟨k, u, hu, h3, h4⟩)
  · rcases h with h | ⟨-, t, ht, hs, hc, hl, -⟩
    · exact h.taken b h1 h2 hu
    · exact S.taken ht (by omega) (by omega) hu
  · have hb := S.bounds hu
    rcases h with h | ⟨-, t, ht, hs, hc, hl, -⟩
    · rcases h.clear hu (by omega) with h | h <;> omega
    · by_cases he : k = m
      · subst he
        cases ht.symm.trans hu
        omega
      · rcases S.apart he hu ht with h | h <;> omega

/-- A buffer that the mutator did not have was untouched. -/
theorem Gets.untouched (h : A.Gets A' m t) (hb : ∀ {m t}, A'.buffer m = some t → A.Continues m t)
    {b : Nat} (h1 : t.start ≤ b) (h2 : b < t.limit) : A.untouched b := by
  rcases hb h.1 with ⟨u, hu, hs, -⟩ | hfree
  · exact absurd hs (h.2 u hu)
  · exact hfree b h1 h2

end

end Arena

/-! ## 3. The step -/

/-- A ledger agrees with an arena. -/
structure Fits (A : Arena) (L : Set Grant) : Prop where
  size_pos : ∀ {g}, g ∈ L → 0 < g.size
  whole : ∀ {g b}, g ∈ L → g.Holds b → A.region b = A.region g.start
  taken : ∀ {g b}, g ∈ L → g.Holds b → ¬ A.untouched b
  exclusive : Exclusive L
  cuts : CutsInside L
  buffers : ∀ {m t}, A.buffer m = some t → ∃ g ∈ L, g.use = .buffer (some m) ∧
    g.start = t.start ∧ g.start + g.size = t.limit
  /-- The rest of a buffer is in nothing but the buffer. -/
  rest : ∀ {g m t}, g ∈ L → A.buffer m = some t →
    g.start + g.size ≤ t.cursor ∨ t.limit ≤ g.start ∨
      (g.use = .buffer (some m) ∧ g.start = t.start ∧ g.start + g.size = t.limit)

/-- What is left of a ledger when memory is given back. -/
def Arena.keptOf (A : Arena) (kept : Nat → Prop) (L : Set Grant) : Set Grant :=
  { g | g ∈ L ∧ kept (A.region g.start) }

namespace Arena.Hands

section
variable {A A' : Arena} {G : Set Grant} {kept : Nat → Prop} {turn m : Nat} {g g' : Grant}

/-- All that is handed out is proper. -/
theorem proper (H : A.Hands turn A' G) (S : A'.Orderly) (P : A.Passes kept A') (hg : g ∈ G) :
    A.Proper g.start g.size := by
  rcases g.cases_use with ⟨m, hm⟩ | ⟨m, hm⟩ | ho
  · obtain ⟨t, ⟨ht, -⟩, rfl⟩ := H.buffers hg hm
    exact (S.proper ht).congr P.region.symm
  · exact (H.cut hg hm).proper
  · exact (H.fresh hg ho).proper

/-- **All that is handed out was free.** -/
theorem free (H : A.Hands turn A' G) (P : A.Passes kept A') (hg : g ∈ G) {b : Nat}
    (hb : g.Holds b) : A.Free b := by
  rcases g.cases_use with ⟨m, hm⟩ | ⟨m, hm⟩ | ho
  · obtain ⟨t, ht, rfl⟩ := H.buffers hg hm
    obtain ⟨h1, h2⟩ := Grant.holds_ofBuffer.1 hb
    exact .inl (ht.untouched P.buffers h1 h2)
  · exact (H.cut hg hm).offers.free hb.1 hb.2
  · exact .inl ((H.fresh hg ho).unused b hb.1 hb.2)

/-- A range that is no buffer shares nothing with the buffers that there are then, or was cut from
one. -/
theorem clear (H : A.Hands turn A' G) (S : A'.Orderly) (hg : g ∈ G) {t : Tlab}
    (ht : A'.buffer m = some t) :
    (∃ m', g.use = .buffer (some m')) ∨ (g.use = .cut m ∧ t.start ≤ g.start ∧
      g.start + g.size ≤ t.cursor) ∨ g.start + g.size ≤ t.start ∨ t.limit ≤ g.start := by
  have hlt := (S.proper ht).pos
  rcases g.cases_use with h | ⟨m', hm⟩ | ho
  · exact .inl h
  · obtain ⟨t', ht', hs, hc, hl, -⟩ := (H.cut hg hm).cut
    by_cases he : m' = m
    · subst he
      rw [ht] at ht'
      cases ht'
      exact .inr (.inl ⟨hm, hs, hc⟩)
    · rcases S.apart he ht' ht with h | h
      · exact .inr (.inr (.inl (by omega)))
      · exact .inr (.inr (.inr (by omega)))
  · rcases (H.fresh hg ho).clear ht (by omega) with h | h
    · exact .inr (.inr (.inr h))
    · exact .inr (.inr (.inl h))

/-- A buffer that is handed out is compatible with all that is handed out with it. -/
theorem compatible_buffer (H : A.Hands turn A' G) (S : A'.Orderly) (hg : g ∈ G) (hg' : g' ∈ G)
    (hm : g.use = .buffer (some m)) (hne : g ≠ g') : g.Compatible g' := by
  obtain ⟨t, ⟨ht, -⟩, rfl⟩ := H.buffers hg hm
  have hlt := (S.proper ht).pos
  have hb := S.bounds ht
  have hend : t.start + (t.limit - t.start) = t.limit := by omega
  rcases H.clear S hg' ht with ⟨m', hm'⟩ | ⟨hc, hs, hl⟩ | h | h
  · obtain ⟨t', ⟨ht', -⟩, rfl⟩ := H.buffers hg' hm'
    have hb' := S.bounds ht'
    have hmm : m ≠ m' := fun he => by
      subst he
      rw [ht] at ht'
      cases ht'
      exact hne rfl
    refine .inl ((S.apart hmm ht ht').imp (fun h => ?_) fun h => ?_)
    · show t.start + (t.limit - t.start) ≤ t'.start
      omega
    · show t'.start + (t'.limit - t'.start) ≤ t.start
      omega
  · refine .inr (.inr ⟨⟨m, hc, rfl⟩, hs, ?_⟩)
    show _ ≤ t.start + (t.limit - t.start)
    omega
  · exact .inl (.inr h)
  · refine .inl (.inl ?_)
    show t.start + (t.limit - t.start) ≤ _
    omega

/-- A range that was cut is compatible with what is handed out with it outside of buffers. -/
theorem compatible_cut (H : A.Hands turn A' G) (hg : g ∈ G) (hg' : g' ∈ G) (hm : g.use = .cut m)
    (ho : g'.Outside) : g.Compatible g' := by
  obtain ⟨hp, t, ht, hs, hc, hl, -⟩ := H.cut hg hm
  have hpos := hp.pos
  rcases (H.fresh hg' ho).clear ht (by omega) with h | h
  · exact .inl (.inl (by omega))
  · exact .inl (.inr (by omega))

/-- **All that is handed out at once is compatible.** -/
theorem compatible (H : A.Hands turn A' G) (S : A'.Orderly) (hg : g ∈ G) (hg' : g' ∈ G)
    (hne : g ≠ g') : g.Compatible g' := by
  rcases g.cases_use with ⟨m, hm⟩ | ⟨m, hm⟩ | ho
  · exact H.compatible_buffer S hg hg' hm hne
  all_goals rcases g'.cases_use with ⟨m', hm'⟩ | ⟨m', hm'⟩ | ho'
  · exact (H.compatible_buffer S hg' hg hm' hne.symm).symm
  · exact absurd (H.one hg hg' hm hm') hne
  · exact H.compatible_cut hg hg' hm ho'
  · exact (H.compatible_buffer S hg' hg hm' hne.symm).symm
  · exact (H.compatible_cut hg' hg hm' ho).symm
  · exact .inl (H.apart hg hg' ho ho' hne)

end

end Arena.Hands

namespace Fits

open Arena

section
variable {A A' : Arena} {L G : Set Grant} {kept : Nat → Prop} {turn m : Nat} {g g' : Grant} {t : Tlab}

/-- A range of untouched memory is apart from all that is in the ledger. -/
theorem apart_of_untouched (F : Fits A L) (hg : g ∈ L) (hpos : 0 < g'.size)
    (hfree : ∀ b, g'.Holds b → A.untouched b) : g'.Apart g := by
  by_contra hc
  simp only [Grant.Apart, not_or, Nat.not_le] at hc
  have hsize := F.size_pos hg
  have h1 : g.Holds (max g.start g'.start) := ⟨Nat.le_max_left _ _, by omega⟩
  have h2 : g'.Holds (max g.start g'.start) := ⟨Nat.le_max_right _ _, by omega⟩
  exact F.taken hg h1 (hfree _ h2)

/-- **A grant of the step is compatible with what was handed out before.** -/
theorem compatible_old (F : Fits A L) (P : A.Passes kept A') (S : A'.Orderly)
    (H : A.Hands turn A' G) (hg : g ∈ G) (hg' : g' ∈ L) : g.Compatible g' := by
  have hpos := (H.proper S P hg).pos
  rcases g.cases_use with ⟨m, hm⟩ | ⟨m, hm⟩ | ho
  · obtain ⟨t, ht, rfl⟩ := H.buffers hg hm
    refine .inl (F.apart_of_untouched hg' hpos fun b hb => ?_)
    obtain ⟨h1, h2⟩ := Grant.holds_ofBuffer.1 hb
    exact ht.untouched P.buffers h1 h2
  · obtain ⟨t, ht, hs, hc, hl, hfree | ⟨u, hu, hs', hl', hc'⟩⟩ := (H.cut hg hm).cut
    · exact .inl (F.apart_of_untouched hg' hpos fun b hb => hfree b hb.1 hb.2)
    · -- It was cut from the buffer that the mutator had before.
      rcases F.rest hg' hu with h | h | ⟨h1, h2, h3⟩
      · exact .inl (.inr (by omega))
      · exact .inl (.inl (by omega))
      · exact .inr (.inl ⟨⟨m, hm, h1⟩, by omega, by omega⟩)
  · exact .inl (F.apart_of_untouched hg' hpos fun b hb => (H.fresh hg ho).unused b hb.1 hb.2)

/-- The grant of a buffer that a mutator has. -/
theorem buffer_step (F : Fits A L) (P : A.Passes kept A') (S : A'.Orderly)
    (H : A.Hands turn A' G) (hk : ∀ {m t}, A'.buffer m = some t → kept (A.region t.start))
    (ht : A'.buffer m = some t) : ∃ g ∈ A.keptOf kept L ∪ G, g.use = .buffer (some m) ∧
      g.start = t.start ∧ g.start + g.size = t.limit := by
  have hb := S.bounds ht
  have hlt := (S.proper ht).pos
  by_cases hnew : ∀ u, A.buffer m = some u → u.start ≠ t.start
  · refine ⟨_, .inr (H.complete ⟨ht, hnew⟩), rfl, rfl, ?_⟩
    show t.start + (t.limit - t.start) = t.limit
    omega
  · push Not at hnew
    obtain ⟨u, hu, hs⟩ := hnew
    obtain ⟨g, hg, h1, h2, h3⟩ := F.buffers hu
    rcases P.buffers ht with ⟨x, hx, -, hl', -⟩ | hfree
    · rw [hu] at hx
      cases hx
      refine ⟨g, .inl ⟨hg, ?_⟩, h1, h2.trans hs, h3.trans hl'⟩
      rw [h2, hs]
      exact hk ht
    · have hpos := F.size_pos hg
      exact absurd (hfree t.start (Nat.le_refl _) (by omega)) (F.taken hg ⟨by omega, by omega⟩)

/-- What was handed out, before or in the step, is not in the rest of a buffer. -/
theorem rest_step (F : Fits A L) (P : A.Passes kept A') (S : A'.Orderly) (H : A.Hands turn A' G)
    (hg : g ∈ A.keptOf kept L ∪ G) (ht : A'.buffer m = some t) :
    g.start + g.size ≤ t.cursor ∨ t.limit ≤ g.start ∨
      (g.use = .buffer (some m) ∧ g.start = t.start ∧ g.start + g.size = t.limit) := by
  have hb := S.bounds ht
  have hlt := (S.proper ht).pos
  rcases hg with ⟨hg, -⟩ | hg
  · rcases P.buffers ht with ⟨u, hu, hs, hl, hc⟩ | hfree
    · rcases F.rest hg hu with h | h | ⟨h1, h2, h3⟩
      · exact .inl (Nat.le_trans h hc)
      · exact .inr (.inl (hl ▸ h))
      · exact .inr (.inr ⟨h1, h2.trans hs, h3.trans hl⟩)
    · have hin : ∀ b, (Grant.ofBuffer 0 m t).Holds b → A.untouched b := fun b h => by
        obtain ⟨h1, h2⟩ := Grant.holds_ofBuffer.1 h
        exact hfree b h1 h2
      have h : t.start + (t.limit - t.start) ≤ g.start ∨ g.start + g.size ≤ t.start :=
        F.apart_of_untouched hg hlt hin
      rcases h with h | h
      · exact .inr (.inl (by omega))
      · exact .inl (by omega)
  · rcases H.clear S hg ht with ⟨m', hm'⟩ | ⟨-, -, h⟩ | h | h
    · obtain ⟨t', ⟨ht', -⟩, rfl⟩ := H.buffers hg hm'
      have hb' := S.bounds ht'
      have hend : t'.start + (t'.limit - t'.start) = t'.limit := by omega
      by_cases he : m' = m
      · subst he
        rw [ht] at ht'
        cases ht'
        exact .inr (.inr ⟨rfl, rfl, hend⟩)
      · rcases S.apart he ht' ht with h | h
        · refine .inl ?_
          show t'.start + (t'.limit - t'.start) ≤ _
          omega
        · exact .inr (.inl h)
    · exact .inl h
    · exact .inl (by omega)
    · exact .inr (.inl h)

/-- **What is handed out next goes into the ledger.** -/
theorem step (F : Fits A L) (P : A.Passes kept A') (S : A'.Orderly) (H : A.Hands turn A' G)
    (hk : ∀ {m t}, A'.buffer m = some t → kept (A.region t.start)) :
    Fits A' (A.keptOf kept L ∪ G) where
  size_pos hg := hg.elim (fun h => F.size_pos h.1) fun h => (H.proper S P h).pos
  whole {g b} hg hb := by
    rw [P.region]
    rcases hg with ⟨hg, -⟩ | hg
    · exact F.whole hg hb
    · exact (H.proper S P hg).whole hb.1 hb.2
  taken {g b} hg hb hu := by
    rcases hg with ⟨hg, hkept⟩ | hg
    · refine (P.untouched hu).elim (F.taken hg hb) fun hn => hn ?_
      rwa [F.whole hg hb]
    · rcases g.cases_use with ⟨m, hm⟩ | ⟨m, hm⟩ | ho
      · obtain ⟨t, ⟨ht, -⟩, rfl⟩ := H.buffers hg hm
        obtain ⟨h1, h2⟩ := Grant.holds_ofBuffer.1 hb
        exact S.taken ht h1 h2 hu
      · obtain ⟨t, ht, hs, hc, hl, -⟩ := (H.cut hg hm).cut
        have h1 := hb.1
        have h2 := hb.2
        exact S.taken ht (by omega) (by omega) hu
      · exact (H.fresh hg ho).taken b hb.1 hb.2 hu
  exclusive := by
    rintro g (⟨hg, -⟩ | hg) g' (⟨hg', -⟩ | hg') hne
    · exact F.exclusive g hg g' hg' hne
    · exact (F.compatible_old P S H hg' hg).symm
    · exact F.compatible_old P S H hg hg'
    · exact H.compatible S hg hg' hne
  cuts := by
    rintro g (⟨hg, hkept⟩ | hg) m hm
    · obtain ⟨g', hg', hc⟩ := F.cuts g hg m hm
      have hpos := F.size_pos hg
      have hin : g'.Holds g.start := ⟨hc.2.1, by have := hc.2.2; omega⟩
      refine ⟨g', .inl ⟨hg', ?_⟩, hc⟩
      rwa [← F.whole hg' hin]
    · obtain ⟨t, ht, hs, hc, hl, -⟩ := (H.cut hg hm).cut
      obtain ⟨g', hg', h1, h2, h3⟩ := F.buffer_step P S H hk ht
      exact ⟨g', hg', ⟨m, hm, h1⟩, by omega, by omega⟩
  buffers ht := F.buffer_step P S H hk ht
  rest hg ht := F.rest_step P S H hg ht

end

end Fits

/-! ## 4. Keeping a ledger -/

namespace Arena

/-- What memory is for that a mutator is given. -/
def useOf (A : Arena) (m a : Nat) : Use :=
  match A.buffer m with
  | some t => if t.start ≤ a ∧ a < t.limit then .cut m else .shared
  | none => .shared

end Arena

/-- The piece that is given is untouched and no buffer of a mutator, or was cut from one. -/
def Piece.Given (y : Piece) (A A' : Arena) : Prop :=
  (∃ m, y.use = .cut m ∧ A.Cut A' m y.start y.size) ∨
    ((y.use = .shared ∨ y.use = .buffer none) ∧ A.Fresh A' y.start y.size)

/-- What a mutator is given is cut from its buffer if it is in the buffer. -/
theorem Arena.Serves.given {A A' : Arena} {m a n : Nat} (h : A.Serves A' m a n) :
    Piece.Given ⟨A'.useOf m a, a, n⟩ A A' := by
  have hn := h.proper.pos
  rcases h with h | h
  · refine .inr ⟨.inl ?_, h⟩
    show A'.useOf m a = .shared
    unfold useOf
    cases ht : A'.buffer m with
    | none => rfl
    | some t =>
      have hout : ¬ (t.start ≤ a ∧ a < t.limit) := fun hin => by
        rcases h.clear ht (by omega) with h1 | h1 <;> omega
      simp only [hout, if_false]
  · refine .inl ⟨m, ?_, h⟩
    obtain ⟨-, t, ht, hs, hc, hl, -⟩ := h
    have hin : t.start ≤ a ∧ a < t.limit := ⟨hs, by omega⟩
    show A'.useOf m a = .cut m
    simp only [useOf, ht, hin, and_self, if_true]

/-- States of which it can be seen what they hand out. -/
structure Desk (σ : Type) where
  arena : σ → Arena
  memory : σ → Memory
  /-- The region with a number was not given back. -/
  inUse : σ → Nat → Prop
  /-- The range between two addresses is in committed memory, and in one region. -/
  inside : σ → Nat → Nat → Prop
  /-- An object has a copy at an address, of some size. -/
  copied : σ → Nat → Nat → Nat → Prop

/-- A state, and what was handed out on the way to it. -/
structure Books (σ : Type) where
  state : σ
  turn : Nat := 0
  ledger : Set Grant := ∅

namespace Desk

variable {σ : Type} (D : Desk σ)

/-- An object has a copy that it did not have. -/
def Moves (s s' : σ) (p c n : Nat) : Prop := D.copied s' p c n ∧ ∀ k, ¬ D.copied s p c k

/-- What is handed out from one state to the next: the buffers that mutators did not have, the copies
that objects did not have, and the piece that is given. -/
def grants (turn : Nat) (s s' : σ) (x : Option Piece) : Set Grant :=
  { g | (∃ m t, (D.arena s).Gets (D.arena s') m t ∧ g = .ofBuffer turn m t) ∨
    (∃ p c n, D.Moves s s' p c n ∧ g = ⟨⟨.copy p, c, n⟩, turn⟩) ∨
    ∃ y, x = some y ∧ g = ⟨y, turn⟩ }

/-- The books after a step.  What is in a region that was given back is struck out. -/
def next (b : Books σ) (x : Option Piece) (s' : σ) : Books σ where
  state := s'
  turn := b.turn + 1
  ledger := (D.arena b.state).keptOf (D.inUse s') b.ledger ∪ D.grants b.turn b.state s' x

/-- Take a step, and keep the books. -/
def keep (act : Action σ (Option Piece)) : Action (Books σ) (Option Piece) := do
  let b ← get
  let x ← act.onPart Books.state fun state b => { b with state }
  modify fun b' => D.next b x b'.state
  return x

/-- What holds of a step, and with it of the books. -/
structure Step (s s' : σ) (x : Option Piece) : Prop where
  passes : (D.arena s).Passes (D.inUse s') (D.arena s')
  orderly : (D.arena s').Orderly
  inUse : ∀ {m t}, (D.arena s').buffer m = some t → D.inUse s' ((D.arena s).region t.start)
  fresh : ∀ {p c n}, D.Moves s s' p c n → (D.arena s).Fresh (D.arena s') c n
  copies : ∀ {p q c d n k}, D.Moves s s' p c n → D.Moves s s' q d k →
    (p = q ∧ c = d ∧ n = k) ∨ c + n ≤ d ∨ d + k ≤ c
  given : ∀ {y}, x = some y → y.Given (D.arena s) (D.arena s')
  apart : ∀ {y p c n}, x = some y → D.Moves s s' p c n → c + n ≤ y.start ∨ y.start + y.size ≤ c
  zero : ∀ {a}, (D.arena s).Free a → (D.memory s).read a = 0
  inside : ∀ {a n}, (D.arena s).Proper a n →
    (∀ b, a ≤ b → b < a + n → (D.arena s).Free b ∧ ¬ (D.arena s').untouched b) →
    D.inside s' a (a + n)
  stays : ∀ {a b}, a < b → D.inside s a b → D.inUse s' ((D.arena s).region a) → D.inside s' a b

/-- What holds of the books. -/
structure Kept (b : Books σ) : Prop where
  fits : Fits (D.arena b.state) b.ledger
  turn_lt : ∀ g ∈ b.ledger, g.turn < b.turn
  aligned : ∀ g ∈ b.ledger, wordBytes ∣ g.start
  inside : ∀ g ∈ b.ledger, D.inside b.state g.start (g.start + g.size)

/-- **No memory is handed out twice** in a turn or since.  The ledger has what the turn handed out, and
what it had, but for regions that were given back; all that is in it is apart, and what was cut from a
buffer is inside of it; each range begins with a word and is inside of committed memory; and what the
turn handed out was empty. -/
structure Turn (b : Books σ) (x : Option Piece) (b' : Books σ) : Prop where
  entered : ∀ g ∈ D.grants b.turn b.state b'.state x, g ∈ b'.ledger
  stays : ∀ g ∈ b.ledger, D.inUse b'.state ((D.arena b.state).region g.start) → g ∈ b'.ledger
  exclusive : Exclusive b'.ledger
  cuts : CutsInside b'.ledger
  aligned : ∀ g ∈ b'.ledger, wordBytes ∣ g.start
  inside : ∀ g ∈ b'.ledger, D.inside b'.state g.start (g.start + g.size)
  empty : ∀ g ∈ b'.ledger, g.turn = b.turn → ∀ a, g.Holds a → (D.memory b.state).read a = 0

section
variable {D} {b : Books σ} {s s' : σ} {x : Option Piece} {turn : Nat} {g : Grant}

theorem ends_keep {act : Action σ (Option Piece)} {post : Option Piece → Books σ → Prop} :
    Ends (D.keep act) b post ↔ Ends act b.state fun x s' => post x (D.next b x s') := by
  simp only [keep, ends_bind, ends_get, ends_onPart, ends_modify, ends_pure]

theorem after_keep {act : Action σ (Option Piece)} {post : Option Piece → Books σ → Prop} :
    After (D.keep act) b post ↔ After act b.state fun x s' => post x (D.next b x s') := by
  simp only [keep, after_bind, after_get, after_onPart, after_modify, after_pure]

/-- The grants of a step are what it hands out. -/
theorem Step.hands (S : D.Step s s' x) :
    (D.arena s).Hands turn (D.arena s') (D.grants turn s s' x) where
  buffers {g m} hg hm := by
    rcases hg with ⟨m', t, ht, rfl⟩ | ⟨p, c, n, -, rfl⟩ | ⟨y, hy, rfl⟩
    · cases hm
      exact ⟨t, ht, rfl⟩
    · cases hm
    · rcases S.given hy with ⟨m', hu, -⟩ | ⟨hu | hu, -⟩ <;> cases hu.symm.trans hm
  complete ht := .inl ⟨_, _, ht, rfl⟩
  cut {g m} hg hm := by
    rcases hg with ⟨m', t, -, rfl⟩ | ⟨p, c, n, -, rfl⟩ | ⟨y, hy, rfl⟩
    · cases hm
    · cases hm
    · rcases S.given hy with ⟨m', hu, hc⟩ | ⟨hu | hu, -⟩ <;> cases hu.symm.trans hm
      exact hc
  one {g g' m m'} hg hg' hm hm' := by
    rcases hg with ⟨_, t, -, rfl⟩ | ⟨p, c, n, -, rfl⟩ | ⟨y, hy, rfl⟩
    · cases hm
    · cases hm
    · rcases hg' with ⟨_, t, -, rfl⟩ | ⟨p, c, n, -, rfl⟩ | ⟨y', hy', rfl⟩
      · cases hm'
      · cases hm'
      · cases hy.symm.trans hy'
        rfl
  fresh {g} hg ho := by
    rcases hg with ⟨m, t, -, rfl⟩ | ⟨p, c, n, hc, rfl⟩ | ⟨y, hy, rfl⟩
    · exact absurd rfl (ho.2 m)
    · exact S.fresh hc
    · rcases S.given hy with ⟨m, hu, -⟩ | ⟨-, h⟩
      · exact absurd hu (ho.1 m)
      · exact h
  apart {g g'} hg hg' ho ho' hne := by
    rcases hg with ⟨m, t, -, rfl⟩ | ⟨p, c, n, hc, rfl⟩ | ⟨y, hy, rfl⟩
    · exact absurd rfl (ho.2 m)
    · rcases hg' with ⟨m, t, -, rfl⟩ | ⟨q, d, k, hd, rfl⟩ | ⟨y', hy', rfl⟩
      · exact absurd rfl (ho'.2 m)
      · rcases S.copies hc hd with ⟨rfl, rfl, rfl⟩ | h
        · exact absurd rfl hne
        · exact h
      · exact S.apart hy' hc
    · rcases hg' with ⟨m, t, -, rfl⟩ | ⟨q, d, k, hd, rfl⟩ | ⟨y', hy', rfl⟩
      · exact absurd rfl (ho'.2 m)
      · exact (S.apart hy hd).symm
      · cases hy.symm.trans hy'
        exact absurd rfl hne

theorem turn_of_mem_grants (hg : g ∈ D.grants turn s s' x) : g.turn = turn := by
  rcases hg with ⟨m, t, -, rfl⟩ | ⟨p, c, n, -, rfl⟩ | ⟨y, -, rfl⟩ <;> rfl

/-- **The books are kept** by every step. -/
theorem Kept.next (K : D.Kept b) (S : D.Step b.state s' x) :
    D.Kept (D.next b x s') ∧ D.Turn b x (D.next b x s') := by
  have H : (D.arena b.state).Hands b.turn (D.arena s') (D.grants b.turn b.state s' x) := S.hands
  have F : Fits (D.arena s') _ := K.fits.step S.passes S.orderly H S.inUse
  -- What the ledger holds of this turn was not in it before.
  have hnew {g : Grant} (hg : g ∈ (D.next b x s').ledger) (ht : g.turn = b.turn) :
      g ∈ D.grants b.turn b.state s' x :=
    hg.resolve_left fun h => Nat.ne_of_lt (K.turn_lt g h.1) ht
  have haligned : ∀ g ∈ (D.next b x s').ledger, wordBytes ∣ g.start := by
    rintro g (hg | hg)
    · exact K.aligned g hg.1
    · exact (H.proper S.orderly S.passes hg).aligned
  have hinside : ∀ g ∈ (D.next b x s').ledger, D.inside s' g.start (g.start + g.size) := by
    intro g hg
    rcases id hg with hold | hfresh
    · exact S.stays (Nat.lt_add_of_pos_right (K.fits.size_pos hold.1)) (K.inside g hold.1) hold.2
    · exact S.inside (H.proper S.orderly S.passes hfresh) fun a h1 h2 =>
        ⟨H.free S.passes hfresh ⟨h1, h2⟩, F.taken hg ⟨h1, h2⟩⟩
  refine ⟨⟨F, ?_, haligned, hinside⟩, fun g hg => .inr hg, fun g hg hu => .inl ⟨hg, hu⟩, F.exclusive,
    F.cuts, haligned, hinside,
    fun g hg ht a ha => S.zero (H.free S.passes (hnew hg ht) ha)⟩
  rintro g (hg | hg)
  · exact Nat.lt_succ_of_lt (K.turn_lt g hg.1)
  · exact turn_of_mem_grants hg ▸ Nat.lt_succ_self _

/-- Books are opened when no mutator has a buffer. -/
theorem kept_open (h : ∀ m, (D.arena s).buffer m = none) : D.Kept { state := s } where
  fits :=
    { size_pos := fun h => h.elim
      whole := fun h => h.elim
      taken := fun h => h.elim
      exclusive := fun _ h => h.elim
      cuts := fun _ h => h.elim
      buffers := fun hb => by rw [h] at hb; cases hb
      rest := fun h => h.elim }
  turn_lt _ h := h.elim
  aligned _ h := h.elim
  inside _ h := h.elim

end

end Desk

end ManagedHeap
