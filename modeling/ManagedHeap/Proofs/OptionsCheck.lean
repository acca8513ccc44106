/-
# The check of the options

Each option passes a condition of its own when it is set.  What ties the options to each other is a
handful of comparisons (`Options.Consistent`), and `Options.validate` decides them: it accepts
consistent options, and answers any others with a conflict that the options do have
(`OptionsConflict.Of`).

The comparison with two regions is made in a word.  The condition of a region size lets one value
through of which the double is no word, the largest power of two.  Options with it have a conflict,
since no heap holds two such regions, but the check stops before it says so (`Options.validate_stops`).
It stops at no other options that settings lead to.
-/
import ManagedHeap.Proofs.Opening
import ManagedHeap.Proofs.Settings

namespace ManagedHeap

/-! ## 1. What the options must satisfy together -/

namespace Options

/-- What ties options to each other, as natural numbers. -/
structure Consistent (o : Options) : Prop where
  agree : o.Agree
  two_le : o.collector = .shenandoah → 2 * o.regionSize ≤ o.maxHeapSize
  minTlab_le : o.collector = .shenandoah → o.minTlabSize ≤ o.regionSize

end Options

/-- Options have a conflict, between the values that it names. -/
def OptionsConflict.Of (o : Options) : OptionsConflict → Prop
  | .tlabBounds least most => least = o.minTlabSize ∧ most = o.maxTlabSize ∧ most < least
  | .heapBounds initial most =>
    initial = o.initialHeapSize ∧ most = o.maxHeapSize ∧ most < initial
  | .tlabAlignment => ¬ (8 ∣ o.minTlabSize ∧ 8 ∣ o.maxTlabSize)
  | .tooFewRegions heap region =>
    o.collector = .shenandoah ∧ heap = o.maxHeapSize ∧ region = o.regionSize ∧ heap < 2 * region
  | .tlabAboveRegion least region =>
    o.collector = .shenandoah ∧ least = o.minTlabSize ∧ region = o.regionSize ∧ region < least
  | .otherCollector _ => False

namespace Options

variable {o : Options} {c : OptionsConflict}

/-- Options with a conflict are not consistent. -/
theorem Consistent.not_conflict (C : o.Consistent) : ¬ c.Of o := by
  intro h
  cases c with
  | tlabBounds least most =>
    obtain ⟨rfl, rfl, h⟩ := h
    exact Nat.not_lt.2 C.agree.tlab_le h
  | heapBounds initial most =>
    obtain ⟨rfl, rfl, h⟩ := h
    exact Nat.not_lt.2 C.agree.heap_le h
  | tlabAlignment => exact h ⟨C.agree.minTlab_aligned, C.agree.maxTlab_aligned⟩
  | tooFewRegions heap region =>
    obtain ⟨hc, rfl, rfl, h⟩ := h
    exact Nat.not_lt.2 (C.two_le hc) h
  | tlabAboveRegion least region =>
    obtain ⟨hc, rfl, rfl, h⟩ := h
    exact Nat.not_lt.2 (C.minTlab_le hc) h
  | otherCollector => exact h

/-! ## 2. The check, one comparison after the other -/

/-- What the check finds: nothing in consistent options, and in others a conflict that they have. -/
def Found (o : Options) : Option OptionsConflict → Prop
  | none => o.Consistent
  | some c => c.Of o

/-- The region size fits twice into a word, and so the comparisons of regions are those of numbers. -/
theorem regionConflict?_found (A : o.Agree) (hc : o.collector = .shenandoah)
    (hfit : 2 * o.regionSize < wordLimit) :
    ∃ c, o.regionConflict? = .ok c ∧ o.Found c := by
  have hproduct : product 2 o.regionSize = .ok (2 * o.regionSize) := product_eq_ok.2 ⟨hfit, rfl⟩
  simp only [regionConflict?, hproduct]
  by_cases hfew : o.maxHeapSize < 2 * o.regionSize
  · exact ⟨_, if_pos hfew, hc, rfl, rfl, hfew⟩
  · by_cases hlarge : o.regionSize < o.minTlabSize
    · exact ⟨_, (if_neg hfew).trans (if_pos hlarge), hc, rfl, rfl, hlarge⟩
    · exact ⟨_, (if_neg hfew).trans (if_neg hlarge), A, fun _ => Nat.not_lt.1 hfew,
        fun _ => Nat.not_lt.1 hlarge⟩

/-- Whether the check gets as far as to double a region size of which the double is no word. -/
structure Overflows (o : Options) : Prop where
  agree : o.Agree
  collector : o.collector = .shenandoah
  overflow : wordLimit ≤ 2 * o.regionSize

/-- **What the check finds**, in the order of its comparisons. -/
theorem conflict?_found : (o.Overflows ∧ o.conflict? = .error .check) ∨
    (¬ o.Overflows ∧ ∃ c, o.conflict? = .ok c ∧ o.Found c) := by
  unfold conflict?
  by_cases htlab : o.maxTlabSize < o.minTlabSize
  · exact .inr ⟨fun O => Nat.not_lt.2 O.agree.tlab_le htlab, _, if_pos htlab, rfl, rfl, htlab⟩
  by_cases hheap : o.maxHeapSize < o.initialHeapSize
  · exact .inr ⟨fun O => Nat.not_lt.2 O.agree.heap_le hheap, _,
      (if_neg htlab).trans (if_pos hheap), rfl, rfl, hheap⟩
  rw [if_neg htlab, if_neg hheap]
  by_cases hal : 8 ∣ o.minTlabSize ∧ 8 ∣ o.maxTlabSize
  · have A : o.Agree := ⟨Nat.not_lt.1 htlab, Nat.not_lt.1 hheap, hal.1, hal.2⟩
    have haligned : ¬ (!isAligned o.minTlabSize objectAlignment ||
        !isAligned o.maxTlabSize objectAlignment) = true := by
      have h1 := isAligned_wordBytes.2 hal.1
      have h2 := isAligned_wordBytes.2 hal.2
      simp [objectAlignment, h1, h2]
    rw [if_neg haligned]
    cases hc : o.collector with
    | epsilon =>
      have hnot : o.collector ≠ .shenandoah := by simp [hc]
      exact .inr ⟨fun O => hnot O.collector, _, rfl, A, fun h => absurd h hnot,
        fun h => absurd h hnot⟩
    | shenandoah =>
      by_cases hfit : 2 * o.regionSize < wordLimit
      · exact .inr ⟨fun O => Nat.not_le.2 hfit O.overflow, regionConflict?_found A hc hfit⟩
      · refine .inl ⟨⟨A, hc, Nat.not_lt.1 hfit⟩, ?_⟩
        simp only [regionConflict?, product, if_neg hfit]
        rfl
  · refine .inr ⟨fun O => hal ⟨O.agree.minTlab_aligned, O.agree.maxTlab_aligned⟩, _,
      if_pos ?_, hal⟩
    by_contra hn
    simp only [Bool.or_eq_true, Bool.not_eq_true', not_or, Bool.not_eq_false] at hn
    exact hal ⟨isAligned_wordBytes.1 hn.1, isAligned_wordBytes.1 hn.2⟩

/-! ## 3. Options that settings lead to -/

/-- The largest region size that can be set. -/
def largestRegion : Nat := 9223372036854775808

/-- A power of two is a word, and so is its double, unless it is the largest. -/
theorem Proper.overflow_iff (P : o.Proper) :
    wordLimit ≤ 2 * o.regionSize ↔ o.regionSize = largestRegion := by
  have hword : wordLimit = 2 ^ 64 := rfl
  have hlargest : largestRegion = 2 ^ 63 := rfl
  have hlt := P.regionSize.1
  have h := P.regionSize.2
  rw [isRegionSize, Bool.and_eq_true] at h
  obtain ⟨k, hk⟩ := isPowerOfTwo_of_eq_true h.1
  rw [hk, hword] at hlt ⊢
  rw [hlargest, ← Nat.pow_succ']
  have hk64 : k < 64 := (Nat.pow_lt_pow_iff_right (by decide)).1 hlt
  constructor
  · intro hle
    have : 64 ≤ k + 1 := (Nat.pow_le_pow_iff_right (by decide)).1 hle
    rw [show k = 63 by omega]
  · intro he
    have : k = 63 := Nat.pow_right_injective (Nat.le_refl 2) he
    rw [this]

/-- **The check of the options decides** whether they are consistent, and of those that are not it
names a conflict.  It comes to its end for all options that settings lead to but those of a heap of
the largest regions, at which it stops if no earlier comparison fails. -/
theorem validate_decides (h : o.Reached) :
    (¬ o.Overflows →
      (o.validate = .ok (.ok ()) ↔ o.Consistent) ∧
      (¬ o.Consistent → ∃ c, o.validate = .ok (.error (.options c)) ∧ c.Of o)) ∧
    (o.Overflows → o.regionSize = largestRegion ∧ o.validate = .error .check) := by
  rcases conflict?_found (o := o) with ⟨O, hc⟩ | ⟨hO, c, hc, hfound⟩
  · refine ⟨fun hO => absurd O hO, fun _ => ⟨h.proper.overflow_iff.1 O.overflow, ?_⟩⟩
    rw [validate, hc]
    rfl
  · refine ⟨fun _ => ?_, fun O => absurd O hO⟩
    cases c with
    | none =>
      have hv : o.validate = .ok (.ok ()) := by rw [validate, hc]; rfl
      exact ⟨⟨fun _ => hfound, fun _ => hv⟩, fun hn => absurd hfound hn⟩
    | some c =>
      have hv : o.validate = .ok (.error (.options c)) := by rw [validate, hc]; rfl
      have hn : ¬ o.Consistent := fun C => C.not_conflict hfound
      have hne : o.validate ≠ .ok (.ok ()) := by simp [hv]
      exact ⟨⟨fun hok => absurd hok hne, fun C => absurd C hn⟩, fun _ => ⟨c, hv, hfound⟩⟩

/-- A heap of regions that is no larger than one of them. -/
def oneRegion : Options where
  collector := .shenandoah
  maxHeapSize := 262144
  initialHeapSize := 262144

/-- It is refused, since it does not hold two regions. -/
theorem validate_decides_oneRegion : oneRegion.Reached ∧ ¬ oneRegion.Overflows ∧
    ¬ oneRegion.Consistent ∧
    ∃ c, oneRegion.validate = .ok (.error (.options c)) ∧ c.Of oneRegion := by
  have hset : Options.setAll {} [("Collector", "Shenandoah"), ("MaxHeapSize", "256K"),
      ("InitialHeapSize", "256K")] = .ok oneRegion := by decide +kernel
  have hr : oneRegion.Reached := (Reached.builtin 1 (by decide)).setAll hset
  have hO : ¬ oneRegion.Overflows := fun O => absurd O.overflow (by decide)
  have hC : ¬ oneRegion.Consistent := fun C => absurd (C.two_le rfl) (by decide)
  exact ⟨hr, hO, hC, ((validate_decides hr).1 hO).2 hC⟩

/-- The defaults with the largest regions. -/
def topmostRegions : Options where
  collector := .shenandoah
  regionSize := largestRegion

/-- **The check stops at the largest regions**, where it should have said that the heap does not hold
two of them. -/
theorem validate_stops : topmostRegions.Reached ∧
    OptionsConflict.Of topmostRegions (.tooFewRegions topmostRegions.maxHeapSize largestRegion) ∧
    topmostRegions.validate = .error .check := by
  have hset : Options.setAll {} [("Collector", "Shenandoah"),
      ("RegionSize", "9223372036854775808")] = .ok topmostRegions := by decide +kernel
  exact ⟨(Reached.builtin 1 (by decide)).setAll hset, ⟨rfl, rfl, rfl, by decide⟩, by decide +kernel⟩

end Options

end ManagedHeap
