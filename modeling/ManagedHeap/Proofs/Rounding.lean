/-
# Sizes that are computed

Sizes and addresses are rounded by masks and by sums that wrap around, and the size of an object is
added up with a check at each step.  This module ties both to arithmetic of natural numbers, for all
numbers and at the limits (`sizes_exact`).

* `roundUp n g` is the least multiple of `g` from `n` on.  Alignment upwards gives it as far as it is
  a word.  The only multiple that is not is `wordLimit` itself, for which it gives zero.
* The sum for an object overflows only where the size is above `Object.maxSize` anyway, so the checks
  refuse no object that is small enough.
-/
import ManagedHeap.Proofs.Objects
import Mathlib.Order.Bounds.Basic

namespace ManagedHeap

/-! ## 1. Rounding up -/

/-- The least multiple of `g` from `n` on. -/
def roundUp (n g : Nat) : Nat := (n + (g - 1)) / g * g

section
variable {n k g : Nat}

theorem dvd_roundUp : g ∣ roundUp n g := Nat.dvd_mul_left _ _

theorem roundUp_le_add : roundUp n g ≤ n + (g - 1) := Nat.div_mul_le_self _ _

theorem le_roundUp (hg : 0 < g) : n ≤ roundUp n g := by
  have h1 := Nat.div_add_mod (n + (g - 1)) g
  have h2 := Nat.mod_lt (n + (g - 1)) hg
  rw [roundUp, Nat.mul_comm]
  omega

theorem roundUp_mono (h : n ≤ k) : roundUp n g ≤ roundUp k g :=
  Nat.mul_le_mul_right _ (Nat.div_le_div_right (Nat.add_le_add_right h _))

/-- No multiple from `n` on is less. -/
theorem roundUp_le (hg : 0 < g) (hk : g ∣ k) (h : n ≤ k) : roundUp n g ≤ k := by
  obtain ⟨c, rfl⟩ := hk
  rw [roundUp, Nat.mul_comm]
  refine Nat.mul_le_mul_left _ ?_
  rw [Nat.div_le_iff_le_mul_add_pred hg]
  omega

theorem isLeast_roundUp (hg : 0 < g) : IsLeast {k | g ∣ k ∧ n ≤ k} (roundUp n g) :=
  ⟨⟨dvd_roundUp, le_roundUp hg⟩, fun _ hk => roundUp_le hg hk.1 hk.2⟩

/-! ## 2. Alignment -/

/-- The multiple after a word is a word or `wordLimit`. -/
theorem roundUp_le_wordLimit (h : g.isPowerOfTwo) (hlt : g < wordLimit) (hn : n < wordLimit) :
    roundUp n g ≤ wordLimit :=
  roundUp_le (Nat.pos_of_isPowerOfTwo h) (dvd_wordLimit h hlt) (Nat.le_of_lt hn)

/-- Alignment upwards rounds up in words: what would be `wordLimit` is zero. -/
theorem alignUp_eq_roundUp (h : g.isPowerOfTwo) (hlt : g < wordLimit) (hn : n < wordLimit) :
    alignUp n g = if roundUp n g < wordLimit then roundUp n g else 0 := by
  rw [alignUp_eq_mod h hlt, ← roundUp]
  split
  · rename_i hfit
    exact Nat.mod_eq_of_lt hfit
  · rename_i hfit
    rw [Nat.le_antisymm (roundUp_le_wordLimit h hlt hn) (Nat.not_lt.1 hfit), Nat.mod_self]

/-- Alignment upwards goes up exactly if it does not wrap. -/
theorem le_alignUp_iff (h : g.isPowerOfTwo) (hlt : g < wordLimit) :
    n ≤ alignUp n g ↔ roundUp n g < wordLimit := by
  have hle : n ≤ roundUp n g := le_roundUp (Nat.pos_of_isPowerOfTwo h)
  rw [alignUp_eq_mod h hlt, ← roundUp]
  constructor
  · intro hup
    have hn : n < wordLimit := Nat.lt_of_le_of_lt hup (Nat.mod_lt _ (by decide))
    by_contra hfit
    -- What wraps is `wordLimit`, so it is zero that would be no less than `n`.
    rw [Nat.le_antisymm (roundUp_le_wordLimit h hlt hn) (Nat.not_lt.1 hfit), Nat.mod_self] at hup
    obtain rfl := Nat.le_zero.1 hup
    exact hfit (Nat.lt_of_le_of_lt roundUp_le_add (by omega))
  · intro hfit
    rwa [Nat.mod_eq_of_lt hfit]

end

/-! ## 3. The result -/

/-- **Sizes are computed exactly.**  The size of an object is that of its header, its fields and its
payload in whole words, and there is none exactly if that is above `Object.maxSize`.  Alignment to a
power of two goes down to the multiple below, goes up to the least multiple from the number on as a
word, which is no less than the number unless the multiple is no word, and leaves multiples only as
they are. -/
theorem sizes_exact :
    (∀ refs payload : Nat, Object.sizeFor refs payload =
      if 16 + 8 * refs + roundUp payload 8 ≤ Object.maxSize
      then some (16 + 8 * refs + roundUp payload 8) else none) ∧
    ∀ {align : Nat}, align.isPowerOfTwo → align < wordLimit → ∀ n : Nat,
      alignDown n align = n / align * align ∧
      IsLeast {k | align ∣ k ∧ n ≤ k} (roundUp n align) ∧
      alignUp n align = roundUp n align % wordLimit ∧
      (n ≤ alignUp n align ↔ roundUp n align < wordLimit) ∧
      (isAligned n align = true ↔ align ∣ n) := by
  constructor
  · intro refs payload
    split
    · rename_i hle
      exact Object.sizeFor_eq_some_iff.2 ⟨rfl, hle⟩
    · rename_i hgt
      refine Option.eq_none_iff_forall_ne_some.2 fun n hn => hgt ?_
      obtain ⟨rfl, hle⟩ := Object.sizeFor_eq_some_iff.1 hn
      exact hle
  · intro align h hlt n
    exact ⟨alignDown_of_isPowerOfTwo h hlt n, isLeast_roundUp (Nat.pos_of_isPowerOfTwo h),
      alignUp_eq_mod h hlt n, le_alignUp_iff h hlt, isAligned_iff_dvd h hlt n⟩

/-- The largest word has no page above it, and is aligned to zero; the first payload that is too large
for an object without fields. -/
theorem sizes_exact_limits :
    pageBytes.isPowerOfTwo ∧ pageBytes < wordLimit ∧
    alignDown 18446744073709551615 pageBytes = 18446744073709547520 ∧
    alignUp 18446744073709551615 pageBytes = 0 ∧
    isAligned 18446744073709551615 pageBytes = false ∧
    Object.sizeFor 0 4294967272 = some Object.maxSize ∧ Object.sizeFor 0 4294967273 = none := by
  obtain ⟨hdown, -, hup, -, haligned⟩ :=
    sizes_exact.2 isPowerOfTwo_pageBytes (by decide) 18446744073709551615
  refine ⟨isPowerOfTwo_pageBytes, by decide, ?_, ?_, ?_, ?_, ?_⟩
  · rw [hdown]
    decide
  · rw [hup]
    decide
  · rw [← Bool.not_eq_true, haligned]
    decide
  · rw [sizes_exact.1]
    decide
  · rw [sizes_exact.1]
    decide

end ManagedHeap
