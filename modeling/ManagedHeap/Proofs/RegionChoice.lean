/-
# Which regions a cycle relocates

A percentage is taken of any size that a word can hold, rounded down, and no step of it overflows
(`percentInWords_eq`).  Three of the four rules choose each candidate by itself.  The adaptive rule
looks at the candidates in an order, the most garbage first, and takes each whose live bytes fit into
what those before it have left of a budget.

Main statement: `choose_exact`.  For the adaptive rule it also says what is not taken, and why: a
candidate worth its relocation is left out only if it did not fit when its turn came.  So nothing
that fits is left over, and nothing is said about the number of regions that another order would
have fitted in.

* Section 1: percentages.
* Section 2: the order, by garbage and then by place.
* Section 3: one pass through a list with a budget.
* Section 4: the choice.
-/
import ManagedHeap.Fault
import ManagedHeap.Proofs.Cycle
import Mathlib.Data.List.Nodup
import Mathlib.Algebra.BigOperators.Group.List.Basic
import Mathlib.Algebra.GroupWithZero.Nat

namespace ManagedHeap.CyclePolicy

/-! ## 1. Percentages -/

/-- A percentage of a size, in words: each product and the sum may overflow. -/
def percentInWords (size percentage : Nat) : Except Fault Nat := do
  let whole ← product (size / 100) percentage
  let rest ← product (size % 100) percentage
  sum whole (rest / 100)

/-- A percentage is the exact one, rounded down. -/
theorem percent_eq (size percentage : Nat) : percent size percentage = size * percentage / 100 := by
  have hsplit : size * percentage = size % 100 * percentage + 100 * (size / 100 * percentage) := by
    calc size * percentage
        = (size % 100 + 100 * (size / 100)) * percentage := by rw [Nat.mod_add_div]
      _ = size % 100 * percentage + 100 * (size / 100 * percentage) := by
        rw [Nat.add_mul, Nat.mul_assoc]
  rw [percent, hsplit, Nat.add_mul_div_left _ _ (by decide), Nat.add_comm]

theorem percent_le {size percentage : Nat} (hp : percentage ≤ 100) :
    percent size percentage ≤ size := by
  rw [percent_eq]
  exact Nat.div_le_of_le_mul (by rw [Nat.mul_comm]; exact Nat.mul_le_mul_right _ hp)

/-- **No percentage up to a hundred overflows.** -/
theorem percentInWords_eq {size percentage : Nat} (hs : size < wordLimit)
    (hp : percentage ≤ 100) :
    percentInWords size percentage = .ok (size * percentage / 100) := by
  have hsum : size / 100 * percentage + size % 100 * percentage / 100 ≤ size := percent_le hp
  have hwhole : size / 100 * percentage < wordLimit := by omega
  have hrest : size % 100 * percentage < wordLimit := by
    have h : size % 100 * percentage ≤ 99 * 100 :=
      Nat.mul_le_mul (Nat.le_of_lt_succ (Nat.mod_lt _ (by decide))) hp
    exact Nat.lt_of_le_of_lt h (by decide)
  rw [← percent_eq, percentInWords, product, if_pos hwhole, product, if_pos hrest]
  exact if_pos (Nat.lt_of_le_of_lt hsum hs)

/-! ## 2. The order -/

/-- Whether the turn of `c` comes before that of `d`: it has more garbage, or as much and an earlier
place among the candidates. -/
def Ahead (cs : List Candidate) (c d : Candidate) : Prop :=
  d.garbage < c.garbage ∨ (d.garbage = c.garbage ∧ [c, d].Sublist cs)

instance (cs : List Candidate) (c d : Candidate) : Decidable (Ahead cs c d) :=
  inferInstanceAs (Decidable (_ ∨ _))

section
variable {cs l : List Candidate} {c d : Candidate}

/-- No two candidates are each before the other. -/
theorem not_sublist_swap {α : Type} {l : List α} {a b : α} (hn : l.Nodup)
    (h : [a, b].Sublist l) : ¬ [b, a].Sublist l := by
  induction l with
  | nil => cases h
  | cons x rest ih =>
    obtain ⟨hx, hrest⟩ := List.nodup_cons.1 hn
    intro h'
    cases h with
    | cons _ h =>
      cases h' with
      | cons _ h' => exact ih hrest h h'
      | cons_cons _ _ => exact hx (h.subset (by simp))
    | cons_cons _ h =>
      cases h' with
      | cons _ h' => exact hx (h'.subset (by simp))
      | cons_cons _ _ => exact hx (h.subset (by simp))

theorem Ahead.asymm (hn : cs.Nodup) (h : Ahead cs c d) : ¬ Ahead cs d c := by
  rintro (h' | ⟨he, h'⟩)
  · rcases h with h | ⟨h, -⟩ <;> omega
  · rcases h with h | ⟨-, h⟩
    · omega
    · exact not_sublist_swap hn h h'

theorem Ahead.irrefl (hn : cs.Nodup) : ¬ Ahead cs c c := fun h => h.asymm hn h

/-- A candidate that is before all of a list in place is put in its turn. -/
theorem insertByGarbage_ahead (hl : l.Pairwise (Ahead cs)) (hc : ∀ d ∈ l, [c, d].Sublist cs) :
    (insertByGarbage c l).Pairwise (Ahead cs) := by
  induction l with
  | nil => exact List.pairwise_singleton ..
  | cons d rest ih =>
    obtain ⟨hd, hrest⟩ := List.pairwise_cons.1 hl
    rw [insertByGarbage]
    split
    · rename_i hle
      refine List.pairwise_cons.2 ⟨fun e he => ?_, hl⟩
      -- What comes after `d` has no more garbage than `d`, and so no more than `c`.
      have hge : e.garbage ≤ c.garbage := by
        rcases List.mem_cons.1 he with rfl | he'
        · exact hle
        · rcases hd e he' with h | ⟨h, -⟩ <;> omega
      rcases Nat.lt_or_eq_of_le hge with h | h
      · exact .inl h
      · exact .inr ⟨h, hc e he⟩
    · rename_i hlt
      refine List.pairwise_cons.2 ⟨fun e he => ?_, ih hrest fun e he => hc e (by simp [he])⟩
      rcases List.mem_cons.1 ((insertByGarbage_perm c rest).mem_iff.1 he) with rfl | he'
      · exact .inl (Nat.lt_of_not_le hlt)
      · exact hd e he'

/-- **The candidates are sorted** by garbage, and equal ones keep their places. -/
theorem byGarbage_ahead (hl : l.Sublist cs) : (byGarbage l).Pairwise (Ahead cs) := by
  induction l with
  | nil => exact .nil
  | cons c rest ih =>
    refine insertByGarbage_ahead (ih ((List.sublist_cons_self c rest).trans hl)) fun d hd => ?_
    have hd' : [d].Sublist rest := List.singleton_sublist.2 ((byGarbage_perm rest).mem_iff.1 hd)
    exact (hd'.cons_cons c).trans hl

end

/-! ## 3. One pass with a budget -/

/-- The live bytes of some candidates. -/
def liveOf (l : List Candidate) : Nat := (l.map (·.live)).sum

@[simp] theorem liveOf_nil : liveOf [] = 0 := rfl

@[simp] theorem liveOf_cons (c : Candidate) (l : List Candidate) :
    liveOf (c :: l) = c.live + liveOf l := rfl

section
variable {cs l : List Candidate} {c : Candidate} {budget : Nat}

theorem liveOf_withinBudget (budget : Nat) (l : List Candidate) :
    liveOf (withinBudget budget l) ≤ budget := by
  induction l generalizing budget with
  | nil => exact Nat.zero_le _
  | cons c rest ih =>
    rw [withinBudget]
    split
    · have := ih (budget - c.live)
      rw [liveOf_cons]
      omega
    · exact ih _

/-- A pass through two lists is one through the first, and one through the second with what that
has left. -/
theorem withinBudget_append (budget : Nat) (l l' : List Candidate) :
    withinBudget budget (l ++ l') =
      withinBudget budget l ++ withinBudget (budget - liveOf (withinBudget budget l)) l' := by
  induction l generalizing budget with
  | nil => rfl
  | cons c rest ih =>
    rw [List.cons_append, withinBudget, withinBudget]
    split
    · rw [ih, List.cons_append, liveOf_cons, Nat.sub_add_eq]
    · exact ih _

/-- **When its turn comes**, a candidate is taken if it fits into what those taken before it have
left. -/
theorem mem_withinBudget_iff (hn : cs.Nodup) (hl : l.Pairwise (Ahead cs)) (hc : c ∈ l) :
    c ∈ withinBudget budget l ↔
      c.live ≤ budget - liveOf ((withinBudget budget l).filter fun d => Ahead cs d c) := by
  obtain ⟨before, after, rfl⟩ := List.append_of_mem hc
  obtain ⟨-, hafter, hbefore⟩ := List.pairwise_append.1 hl
  have hb (d : Candidate) (hd : d ∈ before) : Ahead cs d c := hbefore d hd c (by simp)
  have ha (d : Candidate) (hd : d ∈ c :: after) : ¬ Ahead cs d c := by
    rcases List.mem_cons.1 hd with rfl | hd
    · exact Ahead.irrefl hn
    · exact ((List.pairwise_cons.1 hafter).1 d hd).asymm hn
  have hnot : c ∉ before := fun h => Ahead.irrefl hn (hb c h)
  have hnot' : c ∉ after := fun h => Ahead.irrefl hn ((List.pairwise_cons.1 hafter).1 c h)
  -- Those taken whose turn came before are those that the pass took up to `c`.
  have hfilter : (withinBudget budget (before ++ c :: after)).filter (fun d => Ahead cs d c) =
      withinBudget budget before := by
    rw [withinBudget_append, List.filter_append, List.filter_eq_self.2 fun d hd => by
      simpa using hb d ((withinBudget_sublist _ _).subset hd), List.filter_eq_nil_iff.2 fun d hd => by
      simpa using ha d ((withinBudget_sublist _ _).subset hd), List.append_nil]
  have hpre : c ∉ withinBudget budget before := fun h => hnot ((withinBudget_sublist _ _).subset h)
  rw [hfilter, withinBudget_append, List.mem_append, or_iff_right hpre, withinBudget]
  split
  · rename_i hfits
    exact iff_of_true (List.mem_cons_self ..) hfits
  · rename_i hfits
    exact iff_of_false (fun h => hnot' ((withinBudget_sublist _ _).subset h)) hfits

end

/-! ## 4. The choice -/

/-- The least garbage, besides any at all, that makes a region worth its relocation. -/
def leastGarbage (o : Options) (s : HeapStatus) : Nat :=
  match o.heuristics with
  | .adaptive | .static => s.regionSize * o.garbageThreshold / 100
  | .compact => s.regionSize * 10 / 100
  | .aggressive => 0

/-- A candidate is worth its relocation. -/
def Worth (o : Options) (s : HeapStatus) (c : Candidate) : Prop :=
  0 < c.garbage ∧ leastGarbage o s ≤ c.garbage

instance (o : Options) (s : HeapStatus) (c : Candidate) : Decidable (Worth o s c) :=
  inferInstanceAs (Decidable (_ ∧ _))

/-- A cycle is due. -/
def Due (o : Options) (s : HeapStatus) : Prop :=
  match o.heuristics with
  | .adaptive | .static => s.mutatorFree < s.maxCapacity * o.minFreeThreshold / 100
  | .compact => s.maxCapacity * 10 / 100 < s.allocated
  | .aggressive => True

/-- All candidates that are worth it are chosen, in their order. -/
structure ChoosesAll (o : Options) (s : HeapStatus) (cs : List Candidate) (chosen : List Nat) :
    Prop where
  order : chosen.Sublist (cs.map (·.index))
  mem_iff : ∀ c ∈ cs, c.index ∈ chosen ↔ Worth o s c

/-- Candidates that are worth it are chosen while they fit, in the order of their turns.  One is
left out exactly if it did not fit when its turn came. -/
structure ChoosesFitting (o : Options) (s : HeapStatus) (cs : List Candidate)
    (chosen : List Candidate) : Prop where
  mem : ∀ c ∈ chosen, c ∈ cs ∧ Worth o s c
  order : chosen.Pairwise (Ahead cs)
  fits : liveOf chosen ≤ s.evacuationFree
  missing : ∀ c ∈ cs, Worth o s c → (c ∉ chosen ↔
    s.evacuationFree - liveOf (chosen.filter fun d => Ahead cs d c) < c.live)

section
variable {o : Options} {s : HeapStatus} {cs : List Candidate} {c : Candidate} {threshold : Nat}

theorem shouldStart_iff : (shouldStart o s).1 = true ↔ Due o s := by
  cases h : o.heuristics <;>
    simp only [shouldStart, Due, h, percent_eq, compactPercentage, decide_eq_true_eq]
  case adaptive => split <;> simp_all
  case static => split <;> simp_all

theorem mem_worthwhile :
    c ∈ worthwhile threshold cs ↔ c ∈ cs ∧ 0 < c.garbage ∧ threshold ≤ c.garbage := by
  simp [worthwhile]

/-- Each rule looks at the candidates that are worth it. -/
theorem choose_eq :
    choose o s cs = ((if o.heuristics = .adaptive then
      withinBudget s.evacuationFree (byGarbage (worthwhile (leastGarbage o s) cs))
        else worthwhile (leastGarbage o s) cs).map (·.index)) := by
  unfold choose leastGarbage
  split <;> simp_all [percent_eq, compactPercentage]

/-- A rule without a budget takes all that are worth it. -/
theorem choosesAll (hd : (cs.map (·.index)).Nodup) (h : o.heuristics ≠ .adaptive) :
    ChoosesAll o s cs (choose o s cs) := by
  rw [choose_eq, if_neg h]
  refine ⟨(List.filter_sublist).map _, fun c hc => ?_⟩
  constructor
  · intro hi
    obtain ⟨d, hd', he⟩ := List.mem_map.1 hi
    obtain ⟨hmem, hworth⟩ := mem_worthwhile.1 hd'
    rwa [List.inj_on_of_nodup_map hd hmem hc he] at hworth
  · exact fun hworth => List.mem_map.2 ⟨c, mem_worthwhile.2 ⟨hc, hworth⟩, rfl⟩

/-- The rule with a budget takes those that fit in their turns. -/
theorem choosesFitting (hn : cs.Nodup) :
    ChoosesFitting o s cs
      (withinBudget s.evacuationFree (byGarbage (worthwhile (leastGarbage o s) cs))) := by
  have horder := byGarbage_ahead (l := worthwhile (leastGarbage o s) cs) List.filter_sublist
  have hmem {c : Candidate} : c ∈ byGarbage (worthwhile (leastGarbage o s) cs) ↔
      c ∈ cs ∧ Worth o s c := (byGarbage_perm _).mem_iff.trans mem_worthwhile
  refine ⟨fun c hc => hmem.1 ((withinBudget_sublist _ _).subset hc),
    horder.sublist (withinBudget_sublist _ _), liveOf_withinBudget _ _, fun c hc hworth => ?_⟩
  rw [mem_withinBudget_iff hn horder (hmem.2 ⟨hc, hworth⟩), Nat.not_le]

/-- **The choice is exact.**  Thresholds are percentages rounded down, none of which overflows; a
cycle is due, and a candidate is worth its relocation, by these.  Without a budget all candidates
that are worth it are chosen; the adaptive rule takes them in the order of their garbage, as long
as their live bytes fit, and leaves out only what did not fit in its turn. -/
theorem choose_exact (hg : o.garbageThreshold ≤ 100) (hf : o.minFreeThreshold ≤ 100)
    (hd : (cs.map (·.index)).Nodup) :
    (∀ size < wordLimit,
      percentInWords size o.garbageThreshold = .ok (size * o.garbageThreshold / 100) ∧
      percentInWords size o.minFreeThreshold = .ok (size * o.minFreeThreshold / 100) ∧
      percentInWords size compactPercentage = .ok (size * 10 / 100)) ∧
    ((shouldStart o s).1 = true ↔ Due o s) ∧
    (o.heuristics ≠ .adaptive → ChoosesAll o s cs (choose o s cs)) ∧
    (o.heuristics = .adaptive → (choose o s cs).Nodup ∧
      ∃ chosen, choose o s cs = chosen.map (·.index) ∧ ChoosesFitting o s cs chosen) := by
  refine ⟨fun size hs => ⟨percentInWords_eq hs hg, percentInWords_eq hs hf,
    percentInWords_eq hs (by decide)⟩, shouldStart_iff, choosesAll hd, fun h => ?_⟩
  have hn : cs.Nodup := hd.of_map _
  have X := choosesFitting (o := o) (s := s) hn
  have he : choose o s cs = _ := choose_eq
  rw [if_pos h] at he
  have hnodup : (withinBudget s.evacuationFree
      (byGarbage (worthwhile (leastGarbage o s) cs))).Nodup :=
    X.order.imp fun {a b} hab => by rintro rfl; exact Ahead.irrefl hn hab
  refine ⟨?_, _, he, X⟩
  rw [he]
  exact hnodup.map_on fun c hc d hd' e =>
    List.inj_on_of_nodup_map hd (X.mem c hc).1 (X.mem d hd').1 e

end

/-- Regions of 1000 bytes, two of which have as much garbage. -/
def tied : List Candidate :=
  [⟨0, 900, 100⟩, ⟨1, 100, 900⟩, ⟨2, 750, 250⟩, ⟨3, 500, 500⟩, ⟨4, 500, 500⟩]

/-- The adaptive rule with room for 600 bytes takes the region with the most garbage, and the first of
the two that are tied; then nothing else fits. -/
theorem choose_exact_tied :
    (tied.map (·.index)).Nodup ∧
      choose {} { regionSize := 1000, evacuationFree := 600 } tied = [1, 3] ∧
      ∃ chosen, [1, 3] = chosen.map (·.index) ∧
        ChoosesFitting {} { regionSize := 1000, evacuationFree := 600 } tied chosen := by
  have hd : (tied.map (·.index)).Nodup := by decide
  have he : choose {} { regionSize := 1000, evacuationFree := 600 } tied = [1, 3] := by decide
  obtain ⟨-, -, -, h⟩ := choose_exact (o := {})
    (s := { regionSize := 1000, evacuationFree := 600 }) (by decide) (by decide) hd
  obtain ⟨-, chosen, hc, X⟩ := h rfl
  exact ⟨hd, he, chosen, he.symm.trans hc, X⟩

end ManagedHeap.CyclePolicy
