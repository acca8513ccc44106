/-
# What an allocation in regions does

An allocation is served from the current region of its kind or, when that has no room, from the next
one, which is the first empty region or else the next to be committed.  It is refused exactly if the
size is more than a region holds, or there is no room and no region may be taken: mutators leave the
reserve to evacuation, and evacuation may take all that there are.  `RegionSpace.ServedExactly` says what it
changes, field by field, and that this is all; a refused allocation changes nothing.

`RegionSpace.Outcome` has the facts.  What is added here is the number of free regions, which is that
of the empty ones, committed or not (`Tidy.freeRegions_eq`), so that taking a region lowers it by one.

* Section 1: free regions.
* Section 2: what is given, and when nothing is.
* Section 3: heaps that requests lead to.
-/
import ManagedHeap.Proofs.BumpLedger
import Mathlib.Data.Finset.Card

namespace ManagedHeap

namespace RegionSpace

variable {s s' : RegionSpace} {i j n a : Nat} {kind : AllocKind} {r : Option Nat}

/-! ## 1. Free regions -/

/-- The regions that are not in use. -/
def emptyRegions (s : RegionSpace) : Finset Nat :=
  (Finset.range s.maxRegions).filter fun i => (s.regionAt i).state = .empty

theorem mem_emptyRegions : i ∈ s.emptyRegions ↔ i < s.maxRegions ∧ (s.regionAt i).state = .empty := by
  rw [emptyRegions, Finset.mem_filter, Finset.mem_range]

/-- **Free are the regions that are empty**, whether they are committed or not. -/
theorem Tidy.freeRegions_eq (T : s.Tidy) : s.freeRegions = s.emptyRegions.card := by
  have hused : s.usedRegions =
      ((Finset.range s.maxRegions).filter fun i => ¬ (s.regionAt i).state = .empty).card := by
    have hsame : (Finset.range s.maxRegions).filter (fun i => ¬ (s.regionAt i).state = .empty) =
        ((List.range s.committed).filter (!s.isEmptyAt ·)).toFinset := by
      ext i
      simp only [Finset.mem_filter, Finset.mem_range, List.mem_toFinset, List.mem_filter,
        List.mem_range, isEmptyAt_eq_state, Bool.not_eq_true', beq_eq_false_iff_ne]
      refine and_congr_left fun he => ⟨fun _ => ?_, fun hi => Nat.lt_of_lt_of_le hi T.committed_le⟩
      exact Nat.lt_of_not_le fun hle => he (T.uncommitted i hle)
    rw [hsame, List.toFinset_card_of_nodup (List.nodup_range.filter _), usedRegions_eq]
  have hall := Finset.card_filter_add_card_filter_not (s := Finset.range s.maxRegions)
    fun i => (s.regionAt i).state = .empty
  rw [Finset.card_range] at hall
  rw [freeRegions, hused, emptyRegions]
  omega

/-- No region may be taken. -/
def Exhausted (s : RegionSpace) : AllocKind → Prop
  | .evacuation => s.freeRegions = 0
  | .tlab | .shared => s.freeRegions ≤ s.reserve

theorem Tidy.canTake_iff (T : s.Tidy) : s.CanTake kind ↔ ¬ s.Exhausted kind := by
  have hsome : ((∃ i, s.firstEmpty? = some i) ∨ s.committed < s.maxRegions) ↔ 0 < s.freeRegions := by
    rw [T.freeRegions_eq, Finset.card_pos]
    constructor
    · rintro (⟨i, hi⟩ | hlt)
      · rw [firstEmpty?_eq_find?, List.find?_range_eq_some] at hi
        have hlt := Nat.lt_of_lt_of_le (List.mem_range.1 hi.2.1) T.committed_le
        exact ⟨i, mem_emptyRegions.2 ⟨hlt, by simpa [isEmptyAt_eq_state] using hi.1⟩⟩
      · exact ⟨s.committed, mem_emptyRegions.2 ⟨hlt, T.uncommitted _ (Nat.le_refl _)⟩⟩
    · rintro ⟨i, hi⟩
      obtain ⟨hmax, he⟩ := mem_emptyRegions.1 hi
      by_cases hlt : i < s.committed
      · refine .inl (Option.ne_none_iff_exists'.1 fun hnone => ?_)
        rw [firstEmpty?_eq_find?, List.find?_range_eq_none] at hnone
        have := hnone i hlt
        simp [isEmptyAt_eq_state, he] at this
      · exact .inr (Nat.lt_of_le_of_lt (Nat.not_lt.1 hlt) hmax)
  rw [CanTake, hsome]
  cases kind with
  | evacuation => simp [Exhausted, Nat.pos_iff_ne_zero]
  | tlab | shared =>
    simp only [Exhausted, reduceCtorEq, false_or, Nat.not_le]
    exact ⟨And.left, fun h => ⟨h, Nat.zero_lt_of_lt h⟩⟩

/-! ## 2. What is given -/

/-- The current region of a kind, if there is one, has less room than that. -/
def Full (s : RegionSpace) (kind : AllocKind) (n : Nat) : Prop :=
  ∀ i, s.current kind = some i → (s.regionAt i).free < n

/-- `n` bytes at `a` were given from the region `i`: it is the current one, or there is no room in that
and it is the empty region with the least number, or else the next one to be committed. -/
structure Given (s : RegionSpace) (kind : AllocKind) (n a i : Nat) (s' : RegionSpace) : Prop where
  source : s.current kind = some i ∧ n ≤ (s.regionAt i).free ∨ s.Full kind n ∧ ¬ s.Exhausted kind ∧
    i = ((List.range s.committed).find? s.isEmptyAt).getD s.committed
  address : a = (s.regionAt i).top
  region : s'.regionAt i = { s.regionAt i with
    space := { (s.regionAt i).space with top := a + n }
    state := if s.isEmptyAt i then .allocating else (s.regionAt i).state
    markLimit := if s.isEmptyAt i then a else (s.regionAt i).markLimit
    activeTlabs := if kind = .tlab then ((s.regionAt i).activeTlabs + 1) % wordLimit
      else (s.regionAt i).activeTlabs }
  others : ∀ j, j ≠ i → s'.regionAt j = s.regionAt j
  used : s'.used = s.used + n
  current : s'.current kind = some i
  currents : ∀ k, (k = .evacuation ↔ kind ≠ .evacuation) → s'.current k = s.current k
  committed : s'.committed = max s.committed (i + 1)
  range : s'.range = { s.range with high := s.range.low + s'.committed * s.regionSize }
  regionSize : s'.regionSize = s.regionSize
  reserve : s'.reserve = s.reserve
  freeRegions : s'.freeRegions = s.freeRegions - if s.isEmptyAt i then 1 else 0

/-- An allocation is exact. -/
structure ServedExactly (s : RegionSpace) (kind : AllocKind) (n : Nat) (r : Option Nat) (s' : RegionSpace) :
    Prop where
  eq_none_iff : r = none ↔ s.regionSize < n ∨ s.Full kind n ∧ s.Exhausted kind
  refused : r = none → Same s s'
  given : ∀ a, r = some a → ∃ i, s.Given kind n a i s'
  /-- What is left to evacuation is not taken by mutators. -/
  reserved : kind ≠ .evacuation → s'.freeRegions < s.freeRegions → s.reserve ≤ s'.freeRegions

theorem Tidy.full_iff (T : s.Tidy) : s.Full kind n ↔ ¬ s.HasRoom kind n := by
  simp only [Full, HasRoom, not_exists, not_and, Region.HasRoom]
  refine forall_congr' fun i => imp_congr_right fun _ => ?_
  have htop := (T.region i).top_le
  show (s.regionAt i).space.limit - (s.regionAt i).space.top < n ↔ _
  omega

theorem Tidy.grants_iff (T : s.Tidy) :
    s.Grants kind n ↔ ¬ (s.regionSize < n ∨ s.Full kind n ∧ s.Exhausted kind) := by
  rw [Grants, T.canTake_iff, T.full_iff, not_or, Nat.not_lt, not_and_or, not_not]

/-- Where the same regions are empty, the same number is free. -/
theorem Tidy.freeRegions_congr (T : s.Tidy) (T' : s'.Tidy)
    (h : s'.emptyRegions = s.emptyRegions) : s'.freeRegions = s.freeRegions := by
  rw [T.freeRegions_eq, T'.freeRegions_eq, h]

theorem maxRegions_give : (s.give kind n i).maxRegions = s.maxRegions :=
  s.maxRegions_putRegion i _

/-- Room in the current region is given, and no other region is touched. -/
theorem Tidy.given_found (T : s.Tidy) (hi : s.current kind = some i)
    (hroom : (s.regionAt i).HasRoom n) (S : Same (s.give kind n i) s') :
    s.Given kind n (s.regionAt i).space.top i s' := by
  have hstate := (T.current kind i hi).1
  have hlt := T.lt_maxRegions hstate
  have hcommitted : i < s.committed := Nat.lt_of_not_le fun hle => hstate (T.uncommitted i hle)
  have hempty : s.isEmptyAt i = false := by simpa [isEmptyAt_eq_state] using hstate
  have hput : s.give kind n i =
      { s with changed := s.changed.insert i ((s.regionAt i).given kind n), used := s.used + n } := by
    rw [RegionSpace.give, RegionSpace.putRegion, if_pos hlt]
  have hat (j : Nat) : s'.regionAt j =
      if j = i then (s.regionAt i).given kind n else s.regionAt j := by rw [S.region, regionAt_give hlt]
  have T' := (T.give hi hroom).of_alike S.toAlike
  have hmax : s'.maxRegions = s.maxRegions := S.maxRegions.trans maxRegions_give
  constructor
  · refine .inl ⟨hi, Nat.le_of_not_lt fun hless => ?_⟩
    exact T.full_iff.1 (fun j hj => Option.some.inj (hi.symm.trans hj) ▸ hless) ⟨i, hi, hroom⟩
  · rfl
  · rw [hat, if_pos rfl, hempty]
    rfl
  · intro j hj
    rw [hat, if_neg hj]
  · rw [S.used]
    rfl
  · exact (S.current kind).trans (current_give.trans hi)
  · exact fun k _ => (S.current k).trans current_give
  · rw [Nat.max_eq_left hcommitted, S.committed, hput]
  · rw [S.range, S.committed, hput, ← T.high_eq]
  · rw [S.regionSize, hput]
  · rw [S.reserve, hput]
  · rw [hempty, if_neg Bool.false_ne_true, Nat.sub_zero]
    refine T.freeRegions_congr T' ?_
    ext j
    rw [mem_emptyRegions, mem_emptyRegions, hmax, hat]
    split
    · rename_i he
      rw [he]
      exact Iff.rfl
    · exact Iff.rfl

/-- Reports and contents of the regions apart, the heap after a region was taken and given from. -/
theorem facts_give_take (kind : AllocKind) (n : Nat) (hlt : s.nextRegion < s.maxRegions) :
    let g := (s.take kind).give kind n s.nextRegion
    g.used = s.used + n ∧ g.committed = max s.committed (s.nextRegion + 1) ∧
      g.range = { s.range with high := s.range.low + g.committed * s.regionSize } ∧
      g.regionSize = s.regionSize ∧ g.reserve = s.reserve := by
  have hlt' : s.nextRegion < (s.take kind).maxRegions := by rwa [maxRegions_take]
  have htake : s.take kind = RegionSpace.withCurrent { s.withNext with
      changed := s.changed.insert s.nextRegion (s.regionAt s.nextRegion).taken } kind s.nextRegion :=
    congrArg (RegionSpace.withCurrent · kind s.nextRegion) (if_pos hlt)
  have hgive : (s.take kind).give kind n s.nextRegion = { s.take kind with
      changed := (s.take kind).changed.insert s.nextRegion
        (((s.take kind).regionAt s.nextRegion).given kind n)
      used := (s.take kind).used + n } := by
    rw [RegionSpace.give, RegionSpace.putRegion, if_pos hlt']
  rw [hgive, htake]
  cases kind <;> exact ⟨rfl, rfl, rfl, rfl, rfl⟩

/-- **A region that was empty** is given from, and no other is touched. -/
theorem Tidy.given_took (T : s.Tidy) (hn : n ≤ s.regionSize) (hfull : ¬ s.HasRoom kind n)
    (hcan : s.CanTake kind) (S : Same ((s.take kind).give kind n s.nextRegion) s') :
    s.Given kind n (s.regionAt s.nextRegion).space.top s.nextRegion s' := by
  have hlt := hcan.lt_maxRegions T
  have hempty : s.isEmptyAt s.nextRegion = true := by simp [isEmptyAt_eq_state, T.nextRegion.1]
  have hat (j : Nat) : s'.regionAt j = if j = s.nextRegion then
      (s.regionAt s.nextRegion).taken.given kind n else s.regionAt j := by
    rw [S.region, regionAt_give_take hlt]
  have hcur (k : AllocKind) : s'.current k =
      if k = .evacuation ↔ kind = .evacuation then some s.nextRegion else s.current k := by
    rw [S.current, current_give, current_take]
  have T' := (T.give_take hlt hn).of_alike S.toAlike
  have hmax : s'.maxRegions = s.maxRegions := by rw [S.maxRegions, maxRegions_give, maxRegions_take]
  obtain ⟨hused, hcommitted, hrange, hsize, hreserve⟩ := facts_give_take kind n hlt
  constructor
  · refine .inr ⟨T.full_iff.2 hfull, T.canTake_iff.1 hcan, ?_⟩
    rw [RegionSpace.nextRegion, firstEmpty?_eq_find?]
  · rfl
  · rw [hat, if_pos rfl, hempty]
    rfl
  · intro j hj
    rw [hat, if_neg hj]
  · rw [S.used, hused]
  · rw [hcur, if_pos Iff.rfl]
  · intro k hk
    rw [hcur, if_neg fun h => ?_]
    exact absurd (hk.symm.trans h) (by simp)
  · rw [S.committed, hcommitted]
  · rw [S.range, S.committed, hrange]
  · rw [S.regionSize, hsize]
  · rw [S.reserve, hreserve]
  · have herase : s'.emptyRegions = s.emptyRegions.erase s.nextRegion := by
      ext j
      rw [Finset.mem_erase, mem_emptyRegions, mem_emptyRegions, hmax, hat]
      by_cases hj : j = s.nextRegion
      · simp [hj, Region.given, Region.bumped, Region.taken]
      · simp [hj]
    rw [T.freeRegions_eq, T'.freeRegions_eq, herase, hempty, if_pos rfl,
      Finset.card_erase_of_mem (mem_emptyRegions.2 ⟨hlt, T.nextRegion.1⟩)]

/-- **An allocation is exact.** -/
theorem Outcome.exact (O : s.Outcome kind n r s') (T : s.Tidy) : s.ServedExactly kind n r s' := by
  have hreserved {a i : Nat} (G : s.Given kind n a i s') (hk : kind ≠ .evacuation)
      (hless : s'.freeRegions < s.freeRegions) : s.reserve ≤ s'.freeRegions := by
    have hfree := G.freeRegions
    rcases G.source with ⟨hi, -⟩ | ⟨-, hexhausted, -⟩
    · have hstate := (T.current kind i hi).1
      have hempty : s.isEmptyAt i = false := by simpa [isEmptyAt_eq_state] using hstate
      rw [hempty, if_neg Bool.false_ne_true] at hfree
      omega
    · have hless' : s.reserve < s.freeRegions := by
        cases kind with
        | evacuation => exact absurd rfl hk
        | tlab | shared => exact Nat.lt_of_not_le hexhausted
      split at hfree <;> omega
  have hsome (h : s.Grants kind n) (a : Nat) :
      some a = none ↔ s.regionSize < n ∨ s.Full kind n ∧ s.Exhausted kind :=
    iff_of_false (by simp) (T.grants_iff.1 h)
  cases O with
  | found hi hroom S =>
    have G := T.given_found hi hroom S
    refine ⟨hsome ⟨T.size_of_hasRoom hroom, .inl ⟨_, hi, hroom⟩⟩ _, (by simp), fun a ha => ?_, hreserved G⟩
    cases ha
    exact ⟨_, G⟩
  | took hn hfull hcan S =>
    have G := T.given_took hn hfull hcan S
    refine ⟨hsome ⟨hn, .inr hcan⟩ _, (by simp), fun a ha => ?_, hreserved G⟩
    cases ha
    exact ⟨_, G⟩
  | refused h S =>
    refine ⟨iff_of_true rfl (not_not.1 (mt T.grants_iff.2 h)), fun _ => S, (by simp), fun _ hless => ?_⟩
    have hsame : s'.freeRegions = s.freeRegions := by
      refine T.freeRegions_congr (T.of_alike S.toAlike) ?_
      ext j
      rw [mem_emptyRegions, mem_emptyRegions, S.maxRegions, S.region]
    omega

/-! ## 3. Heaps that requests lead to -/

/-- The buffers of a region are counted, as long as the count is a word. -/
theorem ServedExactly.activeTlabs (E : s.ServedExactly kind n r s')
    (hword : ∀ i, (s.regionAt i).activeTlabs + 1 < wordLimit) (i : Nat) :
    (s'.regionAt i).activeTlabs = (s.regionAt i).activeTlabs +
      if kind = .tlab ∧ r.isSome = true ∧ s'.current kind = some i then 1 else 0 := by
  cases r with
  | none => simp [(E.refused rfl).region i]
  | some a =>
    obtain ⟨j, G⟩ := E.given a rfl
    by_cases hj : i = j
    · subst hj
      rw [G.region, G.current, Nat.mod_eq_of_lt (hword i)]
      by_cases hk : kind = .tlab <;> simp [hk]
    · rw [G.others i hj, G.current]
      simp [Ne.symm hj]

/-- **Allocation in regions is exact.**  Whatever requests came before, an allocation of whole words
comes to its end, gives memory exactly if there is room or a region may be taken, and has changed what
it says and nothing else.  In a program the count of a region's buffers is no more than the bytes that
it can hold, so it does not overflow. -/
theorem allocation_exact :
    (∀ {place o} {h g : RegionHeap} {rs as n} {kind : AllocKind},
      AnyHeap.build place o = .ok (.ok (.region h)) →
      Action.runAll RegionRequest.run rs h = .ok as g → g.isStopped = false → 8 ∣ n →
      Ends (allocate n kind) g.space (g.space.ServedExactly kind n)) ∧
    (∀ {place o} {h : RegionHeap} {ds xs s n} {kind : AllocKind},
      AnyHeap.build place o = .ok (.ok (.region h)) →
      Permitted Session.serve Session.AllowsDemand ds (Session.start h) →
      Action.runAll Session.serve ds (Session.start h) = .ok xs s → 8 ∣ n →
      Ends (allocate n kind) s.heap.space fun r s' => s.heap.space.ServedExactly kind n r s' ∧
        ∀ i, (s'.regionAt i).activeTlabs = (s.heap.space.regionAt i).activeTlabs +
          if kind = .tlab ∧ r.isSome = true ∧ s'.current kind = some i then 1 else 0) := by
  constructor
  · intro place o h g rs as n kind hb hrun hfine hn
    have T := tidy_of_layout (RegionHeap.pristine_of_build hb).layout
    have T' := (keeps_runAll RegionRequest.serves_run rs h as g hrun hfine).regions T
    exact (T'.outcome.ends hn).mono fun _ _ O => O.exact T'
  · intro place o h ds xs s n kind hb hp hrun hn
    obtain ⟨W, S⟩ : ∃ W, s.Ready W := (ends_runAll_inv (R := fun s => ∃ W, s.Ready W)
      (fun _ _ ⟨_, S⟩ ha => (S.ends_serve ha).mono fun _ _ V => V.ready)
      ⟨_, (Session.sound_start hb).toReady⟩ hp).of_ok hrun
    have L := S.inv.layout
    have T := tidy_of_layout L
    refine (T.outcome.ends hn).mono fun r s' O => ⟨O.exact T, (O.exact T).activeTlabs fun i => ?_⟩
    have h1 := (L.regions i).tlabs_le
    have h2 := (L.regions i).top_le
    have h3 := (L.regions i).limit_eq
    have h4 := L.geometry.size_lt
    have h5 := L.geometry.size_pos
    show (s.heap.view.region i).activeTlabs + 1 < wordLimit
    omega

/-- The regions of mutators are filled, and the last one is left to copies.  In another heap a region has
been emptied, and a buffer is cut. -/
theorem allocation_exact_cramming :
    (∃ h as g, AnyHeap.build Place.first Mutator.crampedHeap = .ok (.ok (.region h)) ∧
      Action.runAll RegionRequest.run Mutator.cramming h = .ok as g ∧ g.isStopped = false ∧ 8 ∣ 600 ∧
      g.space.Exhausted .shared ∧ Ends (allocate 600 .shared) g.space (g.space.ServedExactly .shared 600) ∧
      ¬ g.space.Exhausted .evacuation ∧
      Ends (allocate 600 .evacuation) g.space (g.space.ServedExactly .evacuation 600)) ∧
    ∃ h xs s, AnyHeap.build Place.first smallHeap = .ok (.ok (.region h)) ∧
      Permitted Session.serve Session.AllowsDemand reusing (Session.start h) ∧
      Action.runAll Session.serve reusing (Session.start h) = .ok xs s ∧ 8 ∣ 64 ∧
      Ends (allocate 64 .tlab) s.heap.space fun r s' => s.heap.space.ServedExactly .tlab 64 r s' ∧
        ∀ i, (s'.regionAt i).activeTlabs = (s.heap.space.regionAt i).activeTlabs +
          if AllocKind.tlab = .tlab ∧ r.isSome = true ∧ s'.current .tlab = some i then 1 else 0 := by
  have h600 : 8 ∣ 600 := by decide
  have h64 : 8 ∣ 64 := by decide
  obtain ⟨x, h, as, g, hb, hx, hrun, hg⟩ := Mutator.leads_iff.1
    (show Mutator.leads AnyHeap.region? RegionRequest.run Place.first Mutator.crampedHeap
      Mutator.cramming (fun g => !g.isStopped &&
        decide (g.space.freeRegions ≤ g.space.reserve ∧ ¬ g.space.freeRegions = 0)) = true by
      decide +kernel)
  cases AnyHeap.region?_eq_some.1 hx
  simp only [Bool.and_eq_true, Bool.not_eq_true', decide_eq_true_eq] at hg
  obtain ⟨hfine, hshared, hcopy⟩ := hg
  obtain ⟨k, hk, hd⟩ := Session.builds_iff.1 (show Session.builds Place.first smallHeap (fun h =>
    decide (Permitted Session.serve Session.AllowsDemand reusing (Session.start h)) &&
    decide (Ends (Action.runAll Session.serve reusing) (Session.start h) fun _ _ => True)) = true by
      decide +kernel)
  rw [Bool.and_eq_true, decide_eq_true_eq, decide_eq_true_eq] at hd
  obtain ⟨hp, xs, s, hrun', -⟩ := hd
  exact ⟨⟨h, as, g, hb, hrun, hfine, h600, hshared, allocation_exact.1 hb hrun hfine h600, hcopy,
    allocation_exact.1 hb hrun hfine h600⟩, k, xs, s, hk, hp, hrun', h64,
    allocation_exact.2 hk hp hrun' h64⟩

end RegionSpace

end ManagedHeap
