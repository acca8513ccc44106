/-
# The first region that is not in use

Regions are kept by their numbers, and a number without a region is that of one that is not in
use.  `firstUnused` finds the least such number in one walk through the regions; main statements:
all numbers below it are those of regions in use (`used_of_lt_firstUnused`), and it is not
(`isEmpty_of_firstUnused`).
-/
import Std.Data.TreeMap.Basic
import Std.Data.TreeMap.Lemmas
import ManagedHeap.Region

namespace ManagedHeap.RegionSpace

/-! ## 1. The search -/

/-- One step of a walk through the regions in the order of their numbers: `next` is the least
number that may not be that of a region in use, and the next region is `r` with the number `i`. -/
def skipUsed (next i : Nat) (r : Region) : Nat :=
  if i = next && !r.isEmpty then next + 1 else next

/-- The least number that is not that of a region in use. -/
def firstUnused (regions : Std.TreeMap Nat Region) : Nat := regions.foldl skipUsed 0

/-! ## 2. One walk through a list of regions -/

/-- Past the number of a region in use comes at least the next one. -/
theorem le_skipUsed (next i : Nat) (r : Region) : next ≤ skipUsed next i r := by
  unfold skipUsed
  split <;> omega

/-- A number that is below those of all regions is not that of a region in use. -/
theorem foldl_skipUsed_of_lt {l : List (Nat × Region)} {next : Nat}
    (h : ∀ x ∈ l, next < x.1) : l.foldl (fun n x => skipUsed n x.1 x.2) next = next := by
  induction l with
  | nil => rfl
  | cons x rest ih =>
    have hx : x.1 ≠ next := Nat.ne_of_gt (h x (by simp))
    simp only [List.foldl_cons, skipUsed, hx, decide_false, Bool.false_and, Bool.false_eq_true,
      if_false]
    exact ih fun y hy => h y (by simp [hy])

theorem le_foldl_skipUsed (l : List (Nat × Region)) (next : Nat) :
    next ≤ l.foldl (fun n x => skipUsed n x.1 x.2) next := by
  induction l generalizing next with
  | nil => exact Nat.le_refl _
  | cons x rest ih => exact Nat.le_trans (le_skipUsed ..) (ih _)

/-- All numbers that are skipped are those of regions in use. -/
theorem used_of_lt_foldl {l : List (Nat × Region)} {next j : Nat} (hj : next ≤ j)
    (h : j < l.foldl (fun n x => skipUsed n x.1 x.2) next) :
    ∃ r, (j, r) ∈ l ∧ r.isEmpty = false := by
  induction l generalizing next with
  | nil => exact absurd h (Nat.not_lt.2 hj)
  | cons x rest ih =>
    by_cases hx : j = x.1 ∧ x.2.isEmpty = false
    · exact ⟨x.2, by simp [hx.1], hx.2⟩
    · have hn : skipUsed next x.1 x.2 ≤ j := by
        unfold skipUsed
        split
        · rename_i hs
          simp only [Bool.and_eq_true, decide_eq_true_eq, Bool.not_eq_true'] at hs
          have : j ≠ next := fun e => hx ⟨e.trans hs.1.symm, hs.2⟩
          omega
        · exact hj
      obtain ⟨r, hr, he⟩ := ih hn h
      exact ⟨r, by simp [hr], he⟩

/-- The number at which the search stops is not that of a region in use. -/
theorem isEmpty_of_foldl {l : List (Nat × Region)} (hl : l.Pairwise (·.1 < ·.1)) {next : Nat}
    {r : Region} (h : (l.foldl (fun n x => skipUsed n x.1 x.2) next, r) ∈ l) :
    r.isEmpty = true := by
  induction l generalizing next with
  | nil => simp at h
  | cons x rest ih =>
    obtain ⟨hx, hrest⟩ := List.pairwise_cons.1 hl
    rcases List.mem_cons.1 h with he | hm
    · have hle := le_foldl_skipUsed rest (skipUsed next x.1 x.2)
      have h₁ : rest.foldl (fun n x => skipUsed n x.1 x.2) (skipUsed next x.1 x.2) = x.1 :=
        congrArg Prod.fst he
      have h₂ : r = x.2 := congrArg Prod.snd he
      subst h₂
      rw [h₁] at hle
      by_cases hu : x.1 = next
      · unfold skipUsed at hle
        split at hle
        · omega
        · simp_all
      · have hs : skipUsed next x.1 x.2 = next := by simp [skipUsed, hu]
        rw [hs] at h₁ hle
        have := @foldl_skipUsed_of_lt rest next fun y hy => by
          have := hx y hy; omega
        omega
    · exact ih hrest hm

/-! ## 3. The least number -/

theorem firstUnused_eq (regions : Std.TreeMap Nat Region) :
    firstUnused regions = regions.toList.foldl (fun n x => skipUsed n x.1 x.2) 0 :=
  Std.TreeMap.foldl_eq_foldl_toList

theorem used_of_lt_firstUnused {regions : Std.TreeMap Nat Region} {i : Nat}
    (h : i < firstUnused regions) : ∃ r, regions[i]? = some r ∧ r.isEmpty = false := by
  rw [firstUnused_eq] at h
  obtain ⟨r, hr, he⟩ := used_of_lt_foldl (Nat.zero_le i) h
  exact ⟨r, Std.TreeMap.mem_toList_iff_getElem?_eq_some.1 hr, he⟩

theorem isEmpty_of_firstUnused {regions : Std.TreeMap Nat Region} {r : Region}
    (h : regions[firstUnused regions]? = some r) : r.isEmpty = true := by
  have hl : regions.toList.Pairwise (·.1 < ·.1) :=
    Std.TreeMap.ordered_keys_toList.imp fun h => Nat.compare_eq_lt.1 h
  rw [firstUnused_eq] at h
  exact isEmpty_of_foldl hl (Std.TreeMap.mem_toList_iff_getElem?_eq_some.2 h)

end ManagedHeap.RegionSpace
