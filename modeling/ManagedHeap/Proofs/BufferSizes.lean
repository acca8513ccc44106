/-
# The sizes of allocation buffers

A mutator's next buffer is sized between two bounds.  The upper one is the lower of the option and of
what the heap allows (`TlabSizing.most`); the lower one is what the mutator needs at once, and the
least size of the options where the upper bound lets it through.  Between them the size is twice the
last one.  So a mutator that keeps asking gets sizes that double from the least size up to the upper
bound (`TlabSizing.due`).

The doubling is done in a word.  A last size from `halfWord` on has no double there, and the sizing
stops instead of giving the upper bound, which is the size that would be due
(`TlabSizing.sizing_stops`).  At no other place does it stop.

* Section 1: one size.
* Section 2: the sizes of a mutator that keeps asking, by induction over its refills.
* Section 3: the most that a heap allows.
-/
import ManagedHeap.Proofs.Growth
import ManagedHeap.Proofs.Settings

namespace ManagedHeap

/-! ## 1. One size -/

namespace TlabSizing

/-- The least number of which the double is no word. -/
def halfWord : Nat := 9223372036854775808

/-- The least size of a buffer, as far as the upper bound lets it through. -/
def floor (o : Options) (minSize maxSize : Nat) : Nat :=
  max minSize (min o.minTlabSize (most o maxSize))

/-- A decay is due: the last buffer was handed out too long ago. -/
def Decays (t : TlabSizing) (o : Options) (now : Nat) : Prop :=
  o.elasticTlabDecay = true ∧ ∃ last, t.lastRefill = some last ∧
    o.tlabDecayTime * millisecond < now - last

/-- The size is the lower bound: buffers do not grow, or there is no last size to double. -/
def Starts (t : TlabSizing) (o : Options) (now : Nat) : Prop :=
  o.elasticTlab = false ∨ t.size = 0 ∨ t.Decays o now

section
variable {t : TlabSizing} {o : Options} {minSize maxSize now n : Nat}

theorem decayed_of_decays (h : t.Decays o now) : (t.decayed o now).size = 0 := by
  obtain ⟨hdecay, last, hlast, hlt⟩ := h
  have hdue : (o.elasticTlabDecay && t.lastRefill.any fun last =>
      decide (o.tlabDecayTime * millisecond < now - last)) = true := by
    rw [hdecay, hlast, Bool.true_and, Option.any_some]
    exact decide_eq_true hlt
  rw [decayed, if_pos hdue]

theorem decayed_of_not_decays (h : ¬ t.Decays o now) : t.decayed o now = t := by
  refine if_neg fun hc => h ?_
  simp only [Bool.and_eq_true, Option.any_eq_true, decide_eq_true_eq] at hc
  exact hc

/-- The two ways to compute the lower bound agree when there is room for what is needed. -/
theorem least_eq_floor (h : minSize ≤ most o maxSize) :
    least o minSize maxSize = floor o minSize maxSize := by
  unfold least floor
  omega

/-- What is aligned is not rounded up. -/
theorem alignUp_of_dvd (h : 8 ∣ n) (hlt : n < wordLimit) : alignUp n objectAlignment = n := by
  have hword : wordLimit = 18446744073709551616 := rfl
  rw [objectAlignment, alignUp_wordBytes (by omega)]
  omega

/-- What the check of the options says of the sizes of buffers. -/
structure Bounded (o : Options) : Prop where
  min_aligned : 8 ∣ o.minTlabSize
  max_aligned : 8 ∣ o.maxTlabSize
  le : o.minTlabSize ≤ o.maxTlabSize
  lt : o.maxTlabSize < wordLimit

theorem Bounded.of_validate (h : o.validate = .ok (.ok ())) (hlt : o.maxTlabSize < wordLimit) :
    Bounded o :=
  let ⟨A, _⟩ := Options.of_validate h
  ⟨A.minTlab_aligned, A.maxTlab_aligned, A.tlab_le, hlt⟩

theorem Bounded.most_aligned (B : Bounded o) (hmax : 8 ∣ maxSize) : 8 ∣ most o maxSize := by
  have := B.max_aligned
  unfold most
  omega

theorem Bounded.floor_aligned (B : Bounded o) (hmin : 8 ∣ minSize) (hmax : 8 ∣ maxSize) :
    8 ∣ floor o minSize maxSize := by
  have := B.min_aligned
  have := B.most_aligned hmax
  unfold floor
  omega

theorem Bounded.most_lt (B : Bounded o) : most o maxSize < wordLimit :=
  Nat.lt_of_le_of_lt (Nat.min_le_right _ _) B.lt

theorem floor_le (h : minSize ≤ most o maxSize) : floor o minSize maxSize ≤ most o maxSize := by
  unfold floor
  omega

/-- No buffer is large enough. -/
theorem next_of_lt (h : most o maxSize < minSize) : t.next minSize maxSize o now = .ok (t, none) :=
  if_pos h

/-- Buffers that do not grow have the least size. -/
theorem Bounded.next_fixed (B : Bounded o) (hmin : 8 ∣ minSize) (hmax : 8 ∣ maxSize)
    (hroom : minSize ≤ most o maxSize) (he : o.elasticTlab = false) :
    t.next minSize maxSize o now = .ok (t, some (floor o minSize maxSize)) := by
  have hlt := Nat.lt_of_le_of_lt (floor_le hroom) B.most_lt
  simp only [next, if_neg (Nat.not_lt.2 hroom), he, Bool.not_false, if_true,
    least_eq_floor hroom, alignUp_of_dvd (B.floor_aligned hmin hmax) hlt]

theorem decayed_aligned (ht : 8 ∣ t.size) : 8 ∣ (t.decayed o now).size := by
  unfold decayed
  split
  · exact Nat.dvd_zero 8
  · exact ht

/-- **Buffers that grow** have twice the last size, within the bounds. -/
theorem Bounded.next_elastic (B : Bounded o) (hmin : 8 ∣ minSize) (hmax : 8 ∣ maxSize)
    (hroom : minSize ≤ most o maxSize) (he : o.elasticTlab = true) (ht : 8 ∣ t.size)
    (hhalf : (t.decayed o now).size < halfWord) :
    t.next minSize maxSize o now = .ok (t.decayed o now,
      some (min (max (2 * (t.decayed o now).size) (floor o minSize maxSize)) (most o maxSize))) := by
  have hword : wordLimit = 2 * halfWord := rfl
  have hgrowth : (t.decayed o now).size * growth = 2 * (t.decayed o now).size := Nat.mul_comm _ 2
  have hdouble : product (t.decayed o now).size growth = .ok (2 * (t.decayed o now).size) :=
    product_eq_ok.2 ⟨by omega, hgrowth.symm⟩
  have hsize : 8 ∣ (t.decayed o now).size := decayed_aligned ht
  have hfloor := B.floor_aligned hmin hmax
  have hmost := B.most_aligned hmax
  have hlt : most o maxSize < wordLimit := B.most_lt
  have hup : alignUp (min (max (2 * (t.decayed o now).size) (floor o minSize maxSize))
      (most o maxSize)) objectAlignment = _ := alignUp_of_dvd (by omega) (by omega)
  simp only [next, if_neg (Nat.not_lt.2 hroom), he, Bool.not_true, Bool.false_eq_true, if_false,
    hdouble, least_eq_floor hroom]
  exact congrArg (fun n => Except.ok (t.decayed o now, some n)) hup

/-- **A last size of half a word** stops the sizing of a buffer that is to grow. -/
theorem next_overflows (hroom : minSize ≤ most o maxSize) (he : o.elasticTlab = true)
    (hhalf : halfWord ≤ (t.decayed o now).size) :
    t.next minSize maxSize o now = .error .check := by
  have hword : wordLimit = 2 * halfWord := rfl
  have hgrowth : (t.decayed o now).size * growth = 2 * (t.decayed o now).size := Nat.mul_comm _ 2
  have hdouble : product (t.decayed o now).size growth = .error .check := if_neg (by omega)
  simp only [next, if_neg (Nat.not_lt.2 hroom), he, Bool.not_true, Bool.false_eq_true, if_false,
    hdouble]
  rfl

/-- A size that `next` may give: a word between the bounds, the lower one at the start and twice the
last size otherwise. -/
structure Sized (t : TlabSizing) (o : Options) (minSize maxSize now n : Nat) : Prop where
  aligned : 8 ∣ n
  floor_le : floor o minSize maxSize ≤ n
  le_most : n ≤ most o maxSize
  start : t.Starts o now → n = floor o minSize maxSize
  double : ¬ t.Starts o now →
    n = min (max (2 * t.size) (floor o minSize maxSize)) (most o maxSize)

/-- **The size of the next buffer**, when there is room for what is needed. -/
theorem Bounded.next_sized (B : Bounded o) (hmin : 8 ∣ minSize) (hmax : 8 ∣ maxSize)
    (ht : 8 ∣ t.size) (hhalf : t.size < halfWord) (hroom : minSize ≤ most o maxSize) :
    ∃ t' n, t.next minSize maxSize o now = .ok (t', some n) ∧
      t.Sized o minSize maxSize now n := by
  have hfloor := B.floor_aligned hmin hmax
  have hmost := B.most_aligned hmax
  have hle := TlabSizing.floor_le hroom
  cases he : o.elasticTlab with
  | false =>
    exact ⟨_, _, B.next_fixed hmin hmax hroom he, hfloor, Nat.le_refl _, hle, fun _ => rfl,
      fun h => absurd (.inl he) h⟩
  | true =>
    have hstart {x : Nat} (hx : x = 0) : min (max (2 * x) (floor o minSize maxSize))
        (most o maxSize) = floor o minSize maxSize := by omega
    by_cases hd : t.Decays o now
    · have hzero := decayed_of_decays hd
      refine ⟨_, _, B.next_elastic hmin hmax hroom he ht (hzero ▸ by decide), ?_⟩
      rw [hstart hzero]
      exact ⟨hfloor, Nat.le_refl _, hle, fun _ => rfl, fun h => absurd (.inr (.inr hd)) h⟩
    · have hkeep := decayed_of_not_decays hd
      refine ⟨_, _, B.next_elastic hmin hmax hroom he ht (by rw [hkeep]; exact hhalf), ?_⟩
      rw [hkeep]
      refine ⟨by omega, by omega, by omega, fun h => hstart ?_, fun _ => rfl⟩
      simpa [Starts, he, hd] using h

end

/-! ## 2. A mutator that keeps asking -/

/-- A request for a buffer: what is needed at once, what the heap allows, and when it was asked for
and handed out. -/
structure Refill where
  minSize : Nat
  maxSize : Nat
  asked : Nat
  filled : Nat

/-- A buffer is sized, and handed out if there is a size for it. -/
def refill (t : TlabSizing) (o : Options) (r : Refill) : Except Fault (TlabSizing × Option Nat) := do
  let (t, size) ← t.next r.minSize r.maxSize o r.asked
  match size with
  | none => return (t, none)
  | some n => return (t.record n r.filled, some n)

/-- Buffers are asked for one after the other.  Gives their sizes. -/
def refillAll (t : TlabSizing) (o : Options) :
    List Refill → Except Fault (TlabSizing × List (Option Nat))
  | [] => .ok (t, [])
  | r :: rest => do
    let (t, size) ← t.refill o r
    let (t, sizes) ← t.refillAll o rest
    return (t, size :: sizes)

/-- The size that is due after `k` buffers. -/
def due (o : Options) (cap k : Nat) : Nat := min cap (o.minTlabSize <<< k)

/-- The size of the last of `k` buffers. -/
def dueBefore (o : Options) (cap : Nat) : Nat → Nat
  | 0 => 0
  | k + 1 => due o cap k

/-- A request that needs no more than the least size, under the upper bound `cap`. -/
structure Refill.Modest (o : Options) (cap : Nat) (r : Refill) : Prop where
  min_aligned : 8 ∣ r.minSize
  max_aligned : 8 ∣ r.maxSize
  min_le : r.minSize ≤ o.minTlabSize
  most_eq : most o r.maxSize = cap

/-- Each request comes before a decay of the last one is due. -/
def Prompt (o : Options) : Option Nat → List Refill → Prop
  | _, [] => True
  | last, r :: rest =>
    (o.elasticTlabDecay = true → ∀ t ∈ last, r.asked - t ≤ o.tlabDecayTime * millisecond) ∧
      Prompt o (some r.filled) rest

section
variable {t : TlabSizing} {o : Options} {cap k : Nat} {r : Refill} {rs : List Refill}

theorem due_zero (hcap : o.minTlabSize ≤ cap) : due o cap 0 = o.minTlabSize :=
  Nat.min_eq_right hcap

/-- What is due doubles, up to the upper bound. -/
theorem due_eq (hcap : o.minTlabSize ≤ cap) :
    due o cap k = min (max (2 * dueBefore o cap k) o.minTlabSize) cap := by
  cases k with
  | zero =>
    rw [due_zero hcap, dueBefore]
    omega
  | succ k =>
    have hdouble : o.minTlabSize <<< (k + 1) = 2 * (o.minTlabSize <<< k) := by
      rw [Nat.shiftLeft_succ]
    have hle : o.minTlabSize ≤ o.minTlabSize <<< k := by
      rw [Nat.shiftLeft_eq]
      exact Nat.le_mul_of_pos_right _ (Nat.two_pow_pos k)
    simp only [dueBefore, due, hdouble]
    omega

theorem Bounded.due_aligned (B : Bounded o) (hcap : 8 ∣ cap) : 8 ∣ due o cap k := by
  have hshift : 8 ∣ o.minTlabSize <<< k := by
    rw [Nat.shiftLeft_eq]
    exact Nat.dvd_mul_right_of_dvd B.min_aligned _
  unfold due
  omega

theorem Bounded.dueBefore_aligned (B : Bounded o) (hcap : 8 ∣ cap) : 8 ∣ dueBefore o cap k := by
  cases k with
  | zero => exact Nat.dvd_zero 8
  | succ k => exact B.due_aligned hcap

theorem not_decays_of_prompt (h : Prompt o t.lastRefill (r :: rs)) : ¬ t.Decays o r.asked := by
  rintro ⟨hdecay, last, hlast, hlt⟩
  exact Nat.not_le.2 hlt (h.1 hdecay last hlast)

/-- **One more buffer** has the size that is due, unless the last one has no double. -/
theorem Bounded.refill_eq (B : Bounded o) (he : o.elasticTlab = true) (hcap : o.minTlabSize ≤ cap)
    (M : r.Modest o cap) (hp : Prompt o t.lastRefill (r :: rs)) (ht : t.size = dueBefore o cap k) :
    t.refill o r =
      if dueBefore o cap k < halfWord then .ok (t.record (due o cap k) r.filled, some (due o cap k))
      else .error .check := by
  have hkeep := decayed_of_not_decays (not_decays_of_prompt hp)
  have hroom : r.minSize ≤ most o r.maxSize := M.most_eq ▸ Nat.le_trans M.min_le hcap
  have hfloor : floor o r.minSize r.maxSize = o.minTlabSize := by
    have := M.min_le
    rw [floor, M.most_eq]
    omega
  split
  · rename_i hhalf
    have haligned : 8 ∣ t.size := ht ▸ B.dueBefore_aligned (M.most_eq ▸ B.most_aligned M.max_aligned)
    have hnext : t.next r.minSize r.maxSize o r.asked = _ :=
      B.next_elastic M.min_aligned M.max_aligned hroom he haligned (by rw [hkeep, ht]; exact hhalf)
    rw [hkeep, ht, hfloor, M.most_eq, ← due_eq hcap] at hnext
    rw [refill, hnext]
    rfl
  · rename_i hhalf
    have hnext : t.next r.minSize r.maxSize o r.asked = _ :=
      next_overflows hroom he (by rw [hkeep, ht]; exact Nat.not_lt.1 hhalf)
    rw [refill, hnext]
    rfl

/-- **The sizes of a mutator that keeps asking**, from its `k`-th buffer on. -/
theorem Bounded.refillAll_eq (B : Bounded o) (he : o.elasticTlab = true) (hcap : o.minTlabSize ≤ cap)
    (hm : ∀ r ∈ rs, r.Modest o cap) (hp : Prompt o t.lastRefill rs)
    (ht : t.size = dueBefore o cap k) :
    ((∀ j < rs.length, dueBefore o cap (k + j) < halfWord) →
      ∃ t', t.refillAll o rs =
        .ok (t', (List.range rs.length).map fun j => some (due o cap (k + j)))) ∧
    ((∃ j < rs.length, halfWord ≤ dueBefore o cap (k + j)) → t.refillAll o rs = .error .check) := by
  induction rs generalizing t k with
  | nil => exact ⟨fun _ => ⟨t, rfl⟩, fun ⟨j, hj, _⟩ => absurd hj (Nat.not_lt_zero j)⟩
  | cons r rest ih =>
    have hstep := B.refill_eq he hcap (hm r List.mem_cons_self) hp ht
    obtain ⟨hok, herr⟩ := ih (k := k + 1) (t := t.record (due o cap k) r.filled)
      (fun r' hr' => hm r' (List.mem_cons_of_mem _ hr')) hp.2 rfl
    have hshift (j : Nat) : k + 1 + j = k + (j + 1) := by omega
    constructor
    · intro hall
      have h0 : dueBefore o cap k < halfWord := hall 0 (Nat.succ_pos _)
      obtain ⟨t', ht'⟩ := hok fun j hj => hshift j ▸ hall (j + 1) (Nat.succ_lt_succ hj)
      refine ⟨t', ?_⟩
      rw [if_pos h0] at hstep
      simp only [refillAll, hstep, List.length_cons, List.range_succ_eq_map, List.map_cons,
        List.map_map]
      show (t.record (due o cap k) r.filled).refillAll o rest >>= _ = _
      rw [ht']
      simp only [hshift]
      rfl
    · rintro ⟨j, hj, hhalf⟩
      by_cases h0 : dueBefore o cap k < halfWord
      · rw [if_pos h0] at hstep
        cases j with
        | zero => exact absurd hhalf (Nat.not_le.2 h0)
        | succ j =>
          have herr' := herr ⟨j, Nat.lt_of_succ_lt_succ hj, hshift j ▸ hhalf⟩
          simp only [refillAll, hstep]
          show (t.record (due o cap k) r.filled).refillAll o rest >>= _ = _
          rw [herr']
          rfl
      · rw [if_neg h0] at hstep
        simp only [refillAll, hstep]
        rfl

end

end TlabSizing

/-! ## 3. The most that a heap allows -/

section
variable {place : Place} {o : Options}

/-- The largest buffer of a heap. -/
def AnyHeap.maxTlab : AnyHeap → Nat
  | bump h => Heap.maxTlab h
  | region h => Heap.maxTlab h

theorem RegionHeap.maxTlab_of_make {h : RegionHeap} (hm : RegionHeap.make place o = .ok (.ok h)) :
    h.maxTlab = alignDown (min o.maxTlabSize o.regionSize) objectAlignment ∧
      o.minTlabSize ≤ o.regionSize := by
  unfold RegionHeap.make at hm
  split at hm
  · cases hm
  · rename_i hc
    obtain ⟨x, hx, hm⟩ := Except.bind_eq_ok.1 hm
    cases x with
    | error e => cases hm
    | ok u =>
      obtain ⟨-, R⟩ := Options.of_validate hx
      obtain ⟨y, hy, hm⟩ := Except.bind_eq_ok.1 hm
      cases y with
      | error e => cases hm
      | ok space =>
        cases hm
        refine ⟨?_, (R (Decidable.not_not.1 hc)).minTlab_le⟩
        rw [(RegionSpace.fresh_of_make hy).size]

/-- **The largest buffer of a heap** is between the bounds of its options. -/
theorem AnyHeap.maxTlab_of_make {c : Collector} {g : AnyHeap} (B : TlabSizing.Bounded o)
    (hm : AnyHeap.make place c o = .ok (.ok g)) :
    o.minTlabSize ≤ g.maxTlab ∧ g.maxTlab ≤ o.maxTlabSize := by
  have hmin := B.min_aligned
  have hle := B.le
  cases g with
  | bump h =>
    have hmost := (BumpHeap.fresh_of_make (BumpHeap.make_of_anyHeap hm)).maxTlab
    show _ ≤ h.maxTlab ∧ h.maxTlab ≤ _
    rw [hmost, objectAlignment, alignDown_wordBytes]
    omega
  | region h =>
    obtain ⟨hmost, hregion⟩ := RegionHeap.maxTlab_of_make (RegionHeap.make_of_anyHeap hm)
    show _ ≤ h.maxTlab ∧ h.maxTlab ≤ _
    rw [hmost, objectAlignment, alignDown_wordBytes]
    omega

end

/-! ## 4. The result -/

namespace TlabSizing

/-- **The sizes of allocation buffers**, for options that are accepted.

* A buffer gets no size exactly if what is needed is above the upper bound; otherwise its size is
  aligned and between the bounds, the lower one at the start and twice the last size after that.
* A mutator that keeps asking gets sizes that double from the least size up to the upper bound, for as
  long as the last size has a double in a word; the first request after that stops.
* The largest buffer of a heap that is made from the options is between theirs. -/
theorem sizing_exact {o : Options} (hv : o.validate = .ok (.ok ()))
    (hword : o.maxTlabSize < wordLimit) :
    (∀ {t : TlabSizing} {minSize maxSize now : Nat}, 8 ∣ minSize → 8 ∣ maxSize → 8 ∣ t.size →
      t.size < halfWord →
      ((∃ t', t.next minSize maxSize o now = .ok (t', none)) ↔ most o maxSize < minSize) ∧
      (minSize ≤ most o maxSize → ∃ t' n, t.next minSize maxSize o now = .ok (t', some n) ∧
        t.Sized o minSize maxSize now n)) ∧
    (∀ {cap : Nat} {rs : List Refill}, o.elasticTlab = true → o.minTlabSize ≤ cap →
      (∀ r ∈ rs, r.Modest o cap) → Prompt o none rs →
      ((∀ k, k + 1 < rs.length → due o cap k < halfWord) →
        ∃ t', ({} : TlabSizing).refillAll o rs =
          .ok (t', (List.range rs.length).map fun k => some (due o cap k))) ∧
      ((∃ k, k + 1 < rs.length ∧ halfWord ≤ due o cap k) →
        ({} : TlabSizing).refillAll o rs = .error .check)) ∧
    ∀ {place : Place} {c : Collector} {g : AnyHeap}, AnyHeap.make place c o = .ok (.ok g) →
      o.minTlabSize ≤ g.maxTlab ∧ g.maxTlab ≤ o.maxTlabSize := by
  have B := Bounded.of_validate hv hword
  refine ⟨fun {t minSize maxSize now} hmin hmax ht hhalf => ?_, fun {cap rs} he hcap hm hp => ?_,
    AnyHeap.maxTlab_of_make B⟩
  · have hsized : minSize ≤ most o maxSize → ∃ t' n, t.next minSize maxSize o now = .ok (t', some n) ∧
        t.Sized o minSize maxSize now n := B.next_sized hmin hmax ht hhalf
    refine ⟨⟨fun ⟨t', hnone⟩ => Nat.not_le.1 fun hroom => ?_, fun h => ⟨t, next_of_lt h⟩⟩, hsized⟩
    obtain ⟨_, _, hsome, -⟩ := hsized hroom
    simp [hsome] at hnone
  · obtain ⟨hok, herr⟩ := B.refillAll_eq (t := {}) (k := 0) he hcap hm hp rfl
    simp only [Nat.zero_add] at hok herr
    refine ⟨fun hall => hok fun j hj => ?_, fun ⟨k, hk, hhalf⟩ => herr ⟨k + 1, hk, hhalf⟩⟩
    cases j with
    | zero => exact Nat.lt_of_lt_of_le (by decide : 0 < halfWord) (Nat.le_refl _)
    | succ k => exact hall k hj

/-- Buffers from four to thirty-two kilobytes. -/
def smallBuffers : Options where
  minTlabSize := 4096
  maxTlabSize := 32768

/-- A mutator asks for five buffers of at least 64 bytes, one right after the other. -/
def fiveRefills : List Refill := List.replicate 5 ⟨64, 1048576, 0, 0⟩

/-- They double until the largest size is reached. -/
theorem sizing_exact_smallBuffers : smallBuffers.validate = .ok (.ok ()) ∧
    smallBuffers.maxTlabSize < wordLimit ∧
    (∀ r ∈ fiveRefills, r.Modest smallBuffers 32768) ∧ Prompt smallBuffers none fiveRefills ∧
    ∃ t', ({} : TlabSizing).refillAll smallBuffers fiveRefills =
      .ok (t', [some 4096, some 8192, some 16384, some 32768, some 32768]) := by
  have hv : smallBuffers.validate = .ok (.ok ()) := by decide +kernel
  have hm : ∀ r ∈ fiveRefills, r.Modest smallBuffers 32768 := fun r hr => by
    cases List.eq_of_mem_replicate hr
    exact ⟨by decide, by decide, by decide, by decide⟩
  have hp : Prompt smallBuffers none fiveRefills := by
    simp only [fiveRefills, List.replicate, Prompt, Option.mem_def, Option.some.injEq]
    simp
  exact ⟨hv, by decide, hm, hp, ((sizing_exact hv (by decide)).2.1 rfl (by decide) hm hp).1
    fun k _ => Nat.lt_of_le_of_lt (Nat.min_le_left _ _) (by decide)⟩

/-- Buffers of half the address space. -/
def topmostBuffers : Options where
  minTlabSize := halfWord
  maxTlabSize := halfWord

/-- **A buffer after one of half a word** gets no size, where it should get that size again. -/
theorem sizing_stops : topmostBuffers.Reached ∧ topmostBuffers.validate = .ok (.ok ()) ∧
    topmostBuffers.elasticTlab = true ∧ Refill.Modest topmostBuffers halfWord ⟨8, halfWord, 0, 0⟩ ∧
    Prompt topmostBuffers none [⟨8, halfWord, 0, 0⟩, ⟨8, halfWord, 0, 0⟩] ∧
    due topmostBuffers halfWord 1 = halfWord ∧
    ({} : TlabSizing).refillAll topmostBuffers [⟨8, halfWord, 0, 0⟩, ⟨8, halfWord, 0, 0⟩] =
      .error .check := by
  have hset : Options.setAll {} [("MinTLABSize", "9223372036854775808"),
      ("MaxTLABSize", "9223372036854775808")] = .ok topmostBuffers := by decide +kernel
  refine ⟨(Options.Reached.builtin 1 (by decide)).setAll hset, by decide +kernel, rfl,
    ⟨by decide, by decide, by decide, by decide⟩, ⟨fun _ t ht => ?_, fun _ t ht => ?_, trivial⟩,
    by decide, by decide +kernel⟩
  · cases ht
  · cases ht
    decide

end TlabSizing

end ManagedHeap
