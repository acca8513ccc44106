/-
# How a heap that never collects grows

A request that finds no room in what is committed makes the heap grow, and is tried again.  How far the
heap grows is decided between three sizes: the larger of the request and the least step, what of the
request finds no room, and what is left.  The first two are rounded to pages.  What is in use is not a
number of pages, but what is committed and what is reserved are (`Paged`), and so the decision is
exact: a request that fits into the reservation is never refused, and one growth is enough for it
(`Allocated`).

The loop has no counter.  It ends because a pass of it that gives no answer has made the heap grow.
There is one exception: a least step that can be rounded up to no word is rounded to zero, and a heap
that grows by nothing goes on for ever (`Stalls`).

* Section 1: whole pages.
* Section 2: by how much the heap grows.
* Section 3: one pass of the loop.
* Section 4: the loop, and an allocation as a whole.
* Section 5: heaps that requests lead to.
-/
import ManagedHeap.Proofs.BumpLedger

namespace ManagedHeap

/-- The bytes by which the heap was expanded, if the event is that. -/
def Event.expansion? : Event → Option Nat
  | .heapExpanded bytes _ => some bytes
  | _ => none

namespace BumpHeap

variable {h h' h₁ : BumpHeap} {n bytes rounds : Nat} {e : Event} {r : Option Nat}

/-! ## 1. Whole pages -/

/-- The end of what is committed has moved by pages, if at all. -/
structure ByPages (h h' : BumpHeap) : Prop where
  low : h'.range.low = h.range.low
  high : ∃ k, h'.range.high = h.range.high + 4096 * k

instance : IsPreorder BumpHeap ByPages where
  refl _ := ⟨rfl, 0, rfl⟩
  trans := by
    rintro _ _ _ ⟨hlow, k, hk⟩ ⟨hlow', k', hk'⟩
    exact ⟨hlow'.trans hlow, k + k', by omega⟩

theorem byPages_grow : Keeps ByPages (grow bytes) := by
  intro h
  simp only [grow, Reservation.expand, onSpace, BumpSpace.setLimit, note, after_bind, after_onPart,
    after_get, after_lift, after_ite, after_pure, after_set, after_modify, require_eq_ok]
  intro _ hpage _ _
  refine ⟨fun _ => ⟨rfl, 0, rfl⟩, fun _ _ _ => ⟨rfl, ?_⟩⟩
  obtain ⟨k, rfl⟩ := isAligned_pageBytes.1 hpage
  exact ⟨k, rfl⟩

theorem steady_byPages : Steady ByPages where
  core _ _ _ := ⟨rfl, 0, rfl⟩
  countedAt _ _ := ⟨rfl, 0, rfl⟩
  printedAt _ _ := ⟨rfl, 0, rfl⟩
  allocateSpace _ := keeps_onPart fun _ _ => ⟨rfl, 0, rfl⟩
  grow _ := byPages_grow

/-- What is committed and what is reserved are whole pages. -/
structure Paged (h : BumpHeap) : Prop extends h.Supplied where
  committed : 4096 ∣ h.capacity
  reserved : 4096 ∣ h.maxCapacity

/-- The sizes of a space that is what is committed. -/
theorem Fit.sizes (F : h.Fit) : h.used + h.space.free = h.capacity ∧
    h.capacity + h.range.uncommitted = h.maxCapacity ∧ h.range.low + h.used = h.space.top := by
  have h1 := F.bottom_eq
  have h2 := F.bottom_le
  have h3 := F.top_le
  have h4 := F.limit_eq
  have h5 := F.high_le
  simp only [used, capacity, maxCapacity, BumpSpace.used, BumpSpace.free, Reservation.committed,
    Reservation.reserved, Reservation.uncommitted]
  omega

theorem Paged.uncommitted (P : h.Paged) : 4096 ∣ h.range.uncommitted := by
  have hc := P.committed
  have hr := P.reserved
  have hs := P.fit.sizes.2.1
  omega

/-- Whole pages stay whole. -/
theorem Paged.of_byPages (P : h.Paged) (B : ByPages h h') (S : StaysFit h h') : h'.Paged where
  toSupplied := P.of_settings (S.fit P.fit) S.settings
  committed := by
    obtain ⟨hlow, k, hk⟩ := B
    have hc := P.committed
    have h1 := P.fit.bottom_eq
    have h2 := P.fit.bottom_le
    have h3 := P.fit.top_le
    have h4 := P.fit.limit_eq
    simp only [capacity, Reservation.committed] at hc ⊢
    omega
  reserved := by
    have hs := S.settings
    simp only [settings, Prod.mk.injEq] at hs
    rw [maxCapacity, Reservation.reserved, hs.1, hs.2.1]
    exact P.reserved

/-! ## 2. By how much the heap grows -/

/-- The larger of the request and the least step, in pages; or all that is left, if that is less. -/
def step (h : BumpHeap) (n : Nat) : Nat :=
  min (roundUp (max n h.core.options.minHeapExpand) 4096) h.range.uncommitted

/-- The request finds no room, and the least step is so large that its pages are no word. -/
def Stalls (h : BumpHeap) (n : Nat) : Prop :=
  h.space.free < n ∧ n ≤ h.maxCapacity ∧ wordLimit < h.core.options.minHeapExpand + 4096

/-- **The decision is exact.**  Where the step can be rounded, the heap grows exactly for what fits
into the reservation. -/
theorem Paged.growth?_eq (P : h.Paged) (hn : n ≤ h.maxCapacity) (hfull : h.space.free < n) :
    h.growth? n = if wordLimit < h.core.options.minHeapExpand + 4096 then some 0
      else if h.used + n ≤ h.maxCapacity then some (h.step n) else none := by
  have hsizes := P.fit.sizes
  have hcap := P.maxCapacity
  have hpages : 4096 ∣ wordLimit := by decide
  have hwanted : wordLimit ≤ roundUp (max n h.core.options.minHeapExpand) 4096 ↔
      wordLimit < h.core.options.minHeapExpand + 4096 := by
    have hle : roundUp (max n h.core.options.minHeapExpand) 4096 ≤
      max n h.core.options.minHeapExpand + 4095 := roundUp_le_add
    refine ⟨by omega, fun hlt => ?_⟩
    -- The last page of a word ends where it begins, so nothing behind it is rounded down.
    by_contra hlast
    have hge : max n h.core.options.minHeapExpand ≤
      roundUp (max n h.core.options.minHeapExpand) 4096 := le_roundUp (by decide)
    have hdvd : 4096 ∣ roundUp (max n h.core.options.minHeapExpand) 4096 := dvd_roundUp
    omega
  have hneeded : roundUp (n - h.space.free) 4096 ≤ h.range.uncommitted ↔
      h.used + n ≤ h.maxCapacity := by
    have hge : n - h.space.free ≤ roundUp (n - h.space.free) 4096 := le_roundUp (by decide)
    refine ⟨by omega, fun hle => roundUp_le (by decide) P.uncommitted (by omega)⟩
  rw [P.toSupplied.growth?_eq hn]
  by_cases hleft : roundUp (max n h.core.options.minHeapExpand) 4096 ≤ h.range.uncommitted
  · have hword : ¬ wordLimit < h.core.options.minHeapExpand + 4096 := by omega
    have hfits : h.used + n ≤ h.maxCapacity := by
      have hge : max n h.core.options.minHeapExpand ≤
        roundUp (max n h.core.options.minHeapExpand) 4096 := le_roundUp (by decide)
      omega
    rw [if_pos hleft, if_neg hword, if_pos hfits, step, Nat.min_eq_left hleft]
  · simp only [hleft, hwanted, hneeded, if_false]
    split
    · rfl
    · by_cases hfits : h.used + n ≤ h.maxCapacity
      · rw [if_pos ⟨hfits, by omega⟩, if_pos hfits, step, Nat.min_eq_right (Nat.le_of_not_le hleft)]
      · rw [if_neg fun hand => hfits hand.1, if_neg hfits]

/-- The heap grows by pages that are left. -/
theorem Paged.dvd_of_growth? (P : h.Paged) (hn : n ≤ h.maxCapacity) (hg : h.growth? n = some bytes) :
    4096 ∣ bytes ∧ bytes ≤ h.range.uncommitted := by
  rw [P.toSupplied.growth?_eq hn] at hg
  split at hg
  · cases hg
    exact ⟨dvd_roundUp, by assumption⟩
  split at hg
  · cases hg
    exact ⟨Nat.dvd_zero _, Nat.zero_le _⟩
  split at hg
  · cases hg
    exact ⟨P.uncommitted, Nat.le_refl _⟩
  · cases hg

/-! ## 3. One pass of the loop -/

/-- One pass of the loop.  It comes to an answer, or there is none yet. -/
def pass (size : Nat) : Action BumpHeap (Option (Option Nat)) := do
  match ← onSpace (BumpSpace.allocate size) with
  | some a => return some (some a)
  | none =>
    let h ← get
    match h.growth? size with
    | none =>
      note (.heapFull size h.capacity h.maxCapacity)
      return some none
    | some bytes => if ← grow bytes then return none else return some none

/-- **The loop makes passes until one comes to an answer.** -/
theorem allocateRounds_succ : allocateRounds n (rounds + 1) = (do
    match ← pass n with
    | some r => return r
    | none => allocateRounds n rounds) := by
  rw [allocateRounds, pass, bind_assoc]
  refine bind_congr fun r => ?_
  cases r with
  | some a => rfl
  | none =>
    rw [bind_assoc]
    refine bind_congr fun h => ?_
    cases h.growth? n with
    | none => rfl
    | some bytes =>
      simp only [bind_assoc]
      refine bind_congr fun b => ?_
      cases b <;> rfl

/-- The heap after a report. -/
def noting (h : BumpHeap) (e : Event) : BumpHeap :=
  { h with core := { h.core with journal := h.core.journal.push e } }

/-- What a pass comes to. -/
inductive Passed (h : BumpHeap) (n : Nat) : Option (Option Nat) → BumpHeap → Prop where
  | found (hroom : n ≤ h.space.free) : Passed h n (some (some h.space.top))
      { h with space := { h.space with top := h.space.top + n } }
  | full (hfull : h.space.free < n) (hg : h.growth? n = none) : Passed h n (some none)
      (h.noting (.heapFull n h.capacity h.maxCapacity))
  | grew (bytes : Nat) (hfull : h.space.free < n) (hg : h.growth? n = some bytes) : Passed h n none
      ((h.grown bytes).noting (.heapExpanded bytes (h.grown bytes).capacity))

/-- **A pass** finds room, or there is none, or the heap grows. -/
theorem Paged.ends_pass (P : h.Paged) (hn : n ≤ h.maxCapacity) :
    EndsIf (8 ∣ n) (pass n) h (h.Passed n) := by
  refine (allocateSpace P.fit).bind ?_
  rintro _ h₁ (⟨hroom, rfl, rfl⟩ | ⟨hfull, rfl, rfl⟩)
  · exact endsIf_pure (.found hroom)
  rw [endsIf_get_bind]
  cases hg : h₁.growth? n with
  | none =>
    refine Ends.endsIf ?_
    simp only [note, ends_bind, ends_modify, ends_pure]
    exact .full hfull hg
  | some bytes =>
    obtain ⟨hdvd, hleft⟩ := P.dvd_of_growth? hn hg
    refine ((grow_grown P.fit hleft).imp fun _ => hdvd).bind ?_
    rintro _ _ ⟨rfl, -, rfl⟩
    exact endsIf_pure (.grew bytes hfull hg)

theorem Paged.grown (P : h.Paged) (hdvd : 4096 ∣ bytes) (hleft : bytes ≤ h.range.uncommitted) :
    ((h.grown bytes).noting e).Paged := by
  obtain ⟨k, rfl⟩ := hdvd
  exact P.of_byPages ⟨rfl, k, rfl⟩ ⟨fun F => (F.grown hleft).of_core rfl, rfl⟩

theorem Paged.noting (P : h.Paged) : (h.noting e).Paged :=
  P.of_byPages ⟨rfl, 0, rfl⟩ ⟨fun F => F.of_core rfl, rfl⟩

/-- What is in use and what is committed after a growth. -/
theorem Fit.sizes_grown (F : h.Fit) : (h.grown bytes).used = h.used ∧
    (h.grown bytes).capacity = h.capacity + bytes ∧
    (h.grown bytes).maxCapacity = h.maxCapacity := by
  have h1 := F.bottom_eq
  have h2 := F.bottom_le
  have h3 := F.top_le
  have h4 := F.limit_eq
  refine ⟨rfl, ?_, rfl⟩
  show h.range.high + bytes - h.range.low = h.range.high - h.range.low + bytes
  omega

theorem Passed.free_lt (hp : h.Passed n none h') : h.space.free < n := by
  cases hp
  assumption

/-- A pass without an answer leaves the heap in order. -/
theorem Passed.paged (hp : h.Passed n none h') (P : h.Paged) (hn : n ≤ h.maxCapacity) : h'.Paged := by
  cases hp with
  | grew bytes hfull hg =>
    obtain ⟨hdvd, hleft⟩ := P.dvd_of_growth? hn hg
    exact P.grown hdvd hleft

/-- **A pass without an answer has made the heap grow** by the step, and for a request that fits,
unless the heap stalls. -/
theorem Passed.step (hp : h.Passed n none h') (P : h.Paged) (hn : n ≤ h.maxCapacity)
    (hs : ¬ h.Stalls n) : h.used + n ≤ h.maxCapacity ∧ 0 < h.step n ∧ n ≤ h.space.free + h.step n ∧
      h.step n ≤ h.range.uncommitted ∧
      h' = (h.grown (h.step n)).noting (.heapExpanded (h.step n) (h.grown (h.step n)).capacity) := by
  cases hp with
  | grew bytes hfull hg =>
    have hsizes := P.fit.sizes
    have hge : max n h.core.options.minHeapExpand ≤
      roundUp (max n h.core.options.minHeapExpand) 4096 := le_roundUp (by decide)
    rw [P.growth?_eq hn hfull, if_neg fun hlt => hs ⟨hfull, hn, hlt⟩] at hg
    split at hg
    · rename_i hfits
      cases hg
      refine ⟨hfits, ?_, ?_, Nat.min_le_right _ _, rfl⟩
      · rw [BumpHeap.step]
        omega
      · rw [BumpHeap.step]
        omega
    · cases hg

/-! ## 4. The loop -/

/-- The steps by which the heap has grown. -/
def expansions (h : BumpHeap) : List Nat := h.core.journal.toList.filterMap Event.expansion?

@[simp] theorem expansions_noting : (h.noting e).expansions = h.expansions ++ e.expansion?.toList := by
  cases he : e.expansion? <;> simp [expansions, noting, he]

/-- What an allocation comes to. -/
structure Allocated (h : BumpHeap) (n : Nat) (r : Option Nat) (h' : BumpHeap) : Prop where
  isSome_iff : r.isSome = true ↔ h.used + n ≤ h.maxCapacity
  given : ∀ a, r = some a → a = h.range.low + h.used ∧ h'.used = h.used + n
  refused : r = none → h'.used = h.used ∧ h'.capacity = h.capacity ∧ h'.expansions = h.expansions
  fits : h.used + n ≤ h.capacity → h'.capacity = h.capacity ∧ h'.expansions = h.expansions
  grows : h.capacity < h.used + n → r.isSome = true →
    h'.capacity = h.capacity + h.step n ∧ h'.expansions = h.expansions ++ [h.step n]

/-- No memory is handed out, and none committed. -/
theorem Allocated.of_full (hn : h.maxCapacity < h.used + n) (he : e.expansion? = none) :
    h.Allocated n none (h.noting e) where
  isSome_iff := by simp [Nat.not_le.2 hn]
  given := by simp
  refused _ := ⟨rfl, rfl, by simp [he]⟩
  fits _ := ⟨rfl, by simp [he]⟩
  grows := by simp

/-- Memory was handed out that was committed before. -/
theorem Allocated.of_room (F : h.Fit) (hroom : n ≤ h.space.free) :
    h.Allocated n (some h.space.top) { h with space := { h.space with top := h.space.top + n } } where
  isSome_iff := by
    have hsizes := F.sizes
    simp only [Option.isSome_some, true_iff]
    omega
  given a ha := by
    have hle := F.bottom_le
    cases ha
    refine ⟨F.sizes.2.2.symm, ?_⟩
    show h.space.top + n - h.space.bottom = h.space.top - h.space.bottom + n
    omega
  refused := by simp
  fits _ := ⟨rfl, rfl⟩
  grows hlt _ := by
    have hsizes := F.sizes
    omega

/-- Memory was handed out of what the heap has grown by. -/
theorem Allocated.of_growth (F : h.Fit) (hfull : h.space.free < n) (hfits : h.used + n ≤ h.maxCapacity)
    (A : ((h.grown (h.step n)).noting
      (.heapExpanded (h.step n) (h.grown (h.step n)).capacity)).Allocated n (some h.space.top) h')
    (hroom : n ≤ h.space.free + h.step n) : h.Allocated n (some h.space.top) h' where
  isSome_iff := iff_of_true rfl hfits
  given := A.given
  refused := by simp
  fits hle := by
    have hsizes := F.sizes
    omega
  grows _ _ := by
    have hsizes := F.sizes
    have hcap : (h.grown (h.step n)).capacity = h.capacity + h.step n := F.sizes_grown.2.1
    obtain ⟨hc, he⟩ := A.fits (by
      show h.used + n ≤ (h.grown (h.step n)).capacity
      omega)
    refine ⟨hc.trans hcap, he.trans ?_⟩
    rw [expansions_noting]
    rfl

/-- **Two passes are enough**, the second of which finds room. -/
theorem Paged.allocateRounds (P : h.Paged) (hn : n ≤ h.maxCapacity) :
    EndsIf (8 ∣ n ∧ 1 < rounds ∧ ¬ h.Stalls n) (allocateRounds n rounds) h (h.Allocated n) := by
  by_cases hs : h.Stalls n
  · have hg : h.growth? n = some 0 := by rw [P.growth?_eq hn hs.1, if_pos hs.2.2]
    exact ⟨(not_after_stall P.fit hs.1 hg).mono fun _ _ => False.elim, fun hc => absurd hs hc.2.2⟩
  cases rounds with
  | zero => exact ⟨after_throw, fun hc => absurd hc.2.1 (Nat.not_lt_zero 1)⟩
  | succ rounds =>
    rw [allocateRounds_succ]
    refine ((P.ends_pass hn).imp And.left).bind fun x h₁ hp => ?_
    cases x with
    | some r =>
      refine endsIf_pure ?_
      cases hp with
      | found hroom => exact Allocated.of_room P.fit hroom
      | full hfull hg =>
        refine Allocated.of_full ?_ rfl
        by_contra hfits
        rw [P.growth?_eq hn hfull, if_neg fun hlt => hs ⟨hfull, hn, hlt⟩,
          if_pos (Nat.not_lt.1 hfits)] at hg
        cases hg
    | none =>
      have hfull := hp.free_lt
      have P₁ := hp.paged P hn
      obtain ⟨hfits, -, hroom, -, rfl⟩ := hp.step P hn hs
      have hfree : n ≤ (h.grown (h.step n)).space.free := by
        have h1 := P.fit.limit_eq
        have h2 := P.fit.top_le
        have h3 : h.space.free = h.space.limit - h.space.top := rfl
        show n ≤ h.range.high + h.step n - h.space.top
        omega
      refine ((allocateRounds_of_le P₁.fit hfree).imp fun hc =>
        ⟨hc.1, Nat.lt_of_succ_lt_succ hc.2.1⟩).mono ?_
      rintro _ _ ⟨rfl, rfl⟩
      exact Allocated.of_growth P.fit hfull hfits (.of_room P₁.fit hfree) hroom

/-- **A heap that stalls** makes one pass after the other, and is the same after each. -/
theorem Paged.stalls (P : h.Paged) (hs : h.Stalls n) (h8 : 8 ∣ n) (rounds : Nat) :
    ∃ h', BumpHeap.allocateRounds n rounds h = .error .stalled h' ∧ h'.space = h.space ∧
      h'.range = h.range := by
  induction rounds generalizing h with
  | zero => exact ⟨h, rfl, rfl, rfl⟩
  | succ rounds ih =>
    have hg : h.growth? n = some 0 := by rw [P.growth?_eq hs.2.1 hs.1, if_pos hs.2.2]
    obtain ⟨x, h₁, hpass, hp⟩ := (P.ends_pass hs.2.1).ends h8
    cases hp with
    | found hroom => exact absurd hroom (Nat.not_le.2 hs.1)
    | full _ hnone => cases hnone.symm.trans hg
    | grew bytes _ hsome =>
      cases hsome.symm.trans hg
      rw [P.fit.grown_zero] at hpass
      obtain ⟨h', hrun, hspace, hrange⟩ := ih (P.noting (e := .heapExpanded 0 h.capacity)) hs
      refine ⟨h', ?_, hspace, hrange⟩
      rw [allocateRounds_succ, bind_of_ok hpass]
      exact hrun

/-- The space and the steps are the same. -/
structure Settled (h h' : BumpHeap) : Prop where
  space : h'.space = h.space
  range : h'.range = h.range
  expansions : h'.expansions = h.expansions

theorem Allocated.settled (A : h.Allocated n r h₁) (S : Settled h₁ h') : h.Allocated n r h' := by
  have hu : h'.used = h₁.used := congrArg BumpSpace.used S.space
  have hc : h'.capacity = h₁.capacity := congrArg Reservation.committed S.range
  constructor
  · exact A.isSome_iff
  · simpa only [hu] using A.given
  · simpa only [hu, hc, S.expansions] using A.refused
  · simpa only [hc, S.expansions] using A.fits
  · simpa only [hc, S.expansions] using A.grows

theorem settles_refreshCounters : Ends refreshCounters h fun _ h' => Settled h h' := by
  simp only [refreshCounters, updateUsage, ends_bind, ends_get, ends_ite, ends_set, ends_modify,
    ends_pure]
  exact ⟨fun _ => ⟨rfl, rfl, rfl⟩, fun _ => ⟨rfl, rfl, rfl⟩⟩

theorem settles_reportOccupancy : Ends reportOccupancy h fun _ h' => Settled h h' := by
  simp only [reportOccupancy, note, ends_bind, ends_get, ends_ite, ends_set, ends_modify, ends_pure]
  refine ⟨fun _ => ⟨rfl, rfl, ?_⟩, fun _ => ⟨rfl, rfl, rfl⟩⟩
  simp [BumpHeap.expansions, Event.expansion?]

/-- **An allocation is exact**, and it ends unless the heap stalls. -/
theorem Paged.allocate (P : h.Paged) :
    EndsIf (8 ∣ n ∧ ¬ h.Stalls n) (BumpHeap.allocate n) h (h.Allocated n) := by
  have hbytes : EndsIf (8 ∣ n ∧ ¬ h.Stalls n) (allocateBytes n) h (h.Allocated n) := by
    rw [allocateBytes, endsIf_get_bind]
    by_cases hcap : h.maxCapacity < n
    · rw [if_pos hcap]
      refine Ends.endsIf ?_
      simp only [note, ends_bind, ends_modify, ends_pure]
      exact Allocated.of_full (by omega) rfl
    rw [if_neg hcap]
    refine ((P.allocateRounds (Nat.not_lt.1 hcap)).imp fun hc =>
      ⟨hc.1, Nat.le_add_left 2 _, hc.2⟩).bind fun r h₁ A => ?_
    cases r with
    | none => exact endsIf_pure A
    | some a =>
      refine Ends.endsIf ?_
      simp only [ends_bind, ends_pure]
      exact settles_refreshCounters.mono fun _ h₂ S =>
        settles_reportOccupancy.mono fun _ h₃ S' => (A.settled S).settled S'
  rw [BumpHeap.allocate]
  constructor
  · rw [after_bind, after_lift]
    exact fun _ _ => hbytes.after
  · intro hc
    rw [ends_bind, ends_lift]
    exact ⟨(), require_eq_ok.2 (Nat.mod_eq_zero_of_dvd hc.1), hbytes.ends hc⟩

/-- What stalls has no end. -/
theorem Paged.not_ends_allocate (P : h.Paged) (hs : h.Stalls n) :
    ¬ Ends (BumpHeap.allocate n) h fun _ _ => True := by
  have hg : h.growth? n = some 0 := by rw [P.growth?_eq hs.2.1 hs.1, if_pos hs.2.2]
  simp only [BumpHeap.allocate, allocateBytes, ends_bind, ends_lift, ends_get,
    if_neg (Nat.not_lt.2 hs.2.1)]
  rintro ⟨_, -, r, h', hrun, -⟩
  exact not_after_stall P.fit hs.1 hg r h' hrun

/-! ## 5. Heaps that requests lead to -/

/-- A pass comes to no answer. -/
def GoesOn (n : Nat) (h h' : BumpHeap) : Prop := pass n h = .ok none h'

/-- **In the midst of an allocation** the heap is in order, and does not stall if it did not at the
beginning. -/
theorem Paged.goesOn (P : h.Paged) (hn : n ≤ h.maxCapacity) (hs : ¬ h.Stalls n)
    (hp : Relation.ReflTransGen (GoesOn n) h h') :
    h'.Paged ∧ h'.maxCapacity = h.maxCapacity ∧ ¬ h'.Stalls n := by
  induction hp with
  | refl => exact ⟨P, rfl, hs⟩
  | tail _ hpass ih =>
    obtain ⟨P₁, hmax, hs₁⟩ := ih
    have hn₁ := hmax ▸ hn
    have hp := (P₁.ends_pass hn₁).after _ _ hpass
    have hfull := hp.free_lt
    have P₂ := hp.paged P₁ hn₁
    obtain ⟨-, -, -, -, rfl⟩ := hp.step P₁ hn₁ hs₁
    exact ⟨P₂, hmax, fun hs₂ => hs₁ ⟨hfull, hn₁, hs₂.2.2⟩⟩

section
variable {place : Place} {o : Options} {g g' : BumpHeap} {rs : List Request} {as : List Answer}

/-- Requests leave whole pages. -/
theorem paged_of_run (ho : o.Reached) (hb : AnyHeap.build place o = .ok (.ok (.bump h)))
    (hrun : Action.runAll Request.run rs h = .ok as g) : g.Paged := by
  have G := (fresh_of_build hb).granted
  have hpage {k : Nat} (hk : k < wordLimit) : 4096 ∣ alignUp k pageBytes := by
    rw [alignUp_page hk]
    split
    · exact dvd_roundUp
    · exact Nat.dvd_zero _
  have P : h.Paged := by
    refine ⟨supplied_of_build ho.proper hb, ?_, ?_⟩
    · rw [capacity, Reservation.committed, G.high_eq, Nat.add_sub_cancel_left]
      exact hpage ho.proper.initialHeapSize.1
    · rw [maxCapacity, Reservation.reserved, G.boundary_eq, Nat.add_sub_cancel_left]
      exact hpage ho.proper.maxHeapSize.1
  exact P.of_byPages (keeps_runAll steady_byPages.sustains.keeps_request rs _ _ _ hrun)
    (keeps_runAll sustains_fit.keeps_request rs _ _ _ hrun)

/-- **An allocation is exact.**  Whatever requests came before, one that gives an answer gives memory
exactly if the size fits into the reservation besides what is in use, right behind that.  If it did not
fit into what was committed, the heap has grown once, by the step; and it never grows for a request
that is refused. -/
theorem allocates_exactly (ho : o.Reached) (hb : AnyHeap.build place o = .ok (.ok (.bump h)))
    (hrun : Action.runAll Request.run rs h = .ok as g) (hr : Heap.allocate n g = .ok r g') :
    g.Allocated n r g' :=
  (paged_of_run ho hb hrun).allocate.after r g' hr

/-- Four pages of which one is in use.  What is left is less than the rounded request, and enough. -/
theorem allocates_exactly_growingHeap : ∃ h as g a g', growingHeap.Reached ∧
    AnyHeap.build Place.first growingHeap = .ok (.ok (.bump h)) ∧
    Action.runAll Request.run [.allocate 4096, .allocate 3000] h = .ok as g ∧
    Heap.allocate 9000 g = .ok (some a) g' ∧ g.Allocated 9000 (some a) g' ∧
    g.capacity < g.used + 9000 ∧ g.step 9000 < roundUp 9000 4096 := by
  obtain ⟨x, h, as, g, hb, hx, hrun, hg⟩ := Mutator.leads_iff.1
    (show Mutator.leads AnyHeap.bump? Request.run Place.first growingHeap
      [.allocate 4096, .allocate 3000] (fun g =>
        decide (Ends (Heap.allocate 9000) g fun _ _ => True) &&
        decide (g.used + 9000 ≤ g.maxCapacity ∧ g.capacity < g.used + 9000 ∧
          g.step 9000 < roundUp 9000 4096)) = true by decide +kernel)
  cases AnyHeap.bump?_eq_some.1 hx
  simp only [Bool.and_eq_true, decide_eq_true_eq] at hg
  obtain ⟨hends, hfits, hlt, hstep⟩ := hg
  obtain ⟨r, g', hr, -⟩ := hends
  have A := allocates_exactly Mutator.growingHeap_reached hb hrun hr
  obtain ⟨a, rfl⟩ := Option.isSome_iff_exists.1 (A.isSome_iff.2 hfits)
  exact ⟨h, as, g, a, g', Mutator.growingHeap_reached, hb, hrun, hr, A, hlt, hstep⟩

/-- **The loop ends, unless it stalls.**  Whatever requests came before, an allocation gives an answer
exactly if it does not stall.  Each pass comes to its end, from the state that the passes before it lead
to, and one that comes to no answer has committed more memory, within the reservation.  An allocation
that stalls has no answer after any number of passes. -/
theorem expansion_ends (ho : o.Reached) (hb : AnyHeap.build place o = .ok (.ok (.bump h)))
    (hrun : Action.runAll Request.run rs h = .ok as g) (hn : 8 ∣ n) :
    (Ends (Heap.allocate n) g (fun _ _ => True) ↔ ¬ g.Stalls n) ∧
    (n ≤ g.maxCapacity → ¬ g.Stalls n → ∀ g₁, Relation.ReflTransGen (GoesOn n) g g₁ →
      Ends (pass n) g₁ fun x g₂ => (x = none → g₁.capacity < g₂.capacity) ∧
        g₂.capacity ≤ g₂.maxCapacity ∧ g₂.maxCapacity = g.maxCapacity) ∧
    (g.Stalls n → ∀ rounds, ∃ g', allocateRounds n rounds g = .error .stalled g') := by
  have P := paged_of_run ho hb hrun
  refine ⟨⟨fun h hs => P.not_ends_allocate hs h, fun hs => ?_⟩, fun hcap hs g₁ hp => ?_,
    fun hs rounds => ?_⟩
  · exact (P.allocate.ends ⟨hn, hs⟩).mono fun _ _ _ => trivial
  · obtain ⟨P₁, hmax, hs₁⟩ := P.goesOn hcap hs hp
    have hcap₁ := hmax ▸ hcap
    refine ((P₁.ends_pass hcap₁).ends hn).mono fun x g₂ hx => ?_
    cases x with
    | some r =>
      refine ⟨(by simp), ?_⟩
      cases hx with
      | found => exact ⟨P₁.fit.capacity_le, hmax⟩
      | full => exact ⟨P₁.fit.capacity_le, hmax⟩
    | none =>
      have P₂ := hx.paged P₁ hcap₁
      obtain ⟨-, hpos, -, -, rfl⟩ := hx.step P₁ hcap₁ hs₁
      have hgrown : (g₁.grown (g₁.step n)).capacity = g₁.capacity + g₁.step n :=
        P₁.fit.sizes_grown.2.1
      refine ⟨fun _ => ?_, P₂.fit.capacity_le, hmax⟩
      show g₁.capacity < (g₁.grown (g₁.step n)).capacity
      omega
  · obtain ⟨g', hrun', -⟩ := P.stalls hs hn rounds
    exact ⟨g', hrun'⟩

/-- A page is in use, and the loop makes a pass that comes to no answer. -/
theorem expansion_ends_growingHeap : ∃ h as g g₁, growingHeap.Reached ∧
    AnyHeap.build Place.first growingHeap = .ok (.ok (.bump h)) ∧
    Action.runAll Request.run [.allocate 4096] h = .ok as g ∧ 8 ∣ 8 ∧
    Ends (Heap.allocate 8) g (fun _ _ => True) ∧ GoesOn 8 g g₁ ∧ g.capacity < g₁.capacity ∧
    Ends (pass 8) g₁ fun x g₂ => (x = none → g₁.capacity < g₂.capacity) ∧
      g₂.capacity ≤ g₂.maxCapacity ∧ g₂.maxCapacity = g.maxCapacity := by
  obtain ⟨x, h, as, g, hb, hx, hrun, hg⟩ := Mutator.leads_iff.1
    (show Mutator.leads AnyHeap.bump? Request.run Place.first growingHeap [.allocate 4096]
      (fun g => decide (g.space.free < 8 ∧ g.used + 8 ≤ g.maxCapacity ∧
        ¬ wordLimit < g.core.options.minHeapExpand + 4096)) = true by decide +kernel)
  cases AnyHeap.bump?_eq_some.1 hx
  obtain ⟨hfull, hfits, hword⟩ := of_decide_eq_true hg
  have hs : ¬ g.Stalls 8 := fun hs => hword hs.2.2
  have hcap : 8 ≤ g.maxCapacity := Nat.le_trans (Nat.le_add_left 8 _) hfits
  obtain ⟨hends, hpass, -⟩ := expansion_ends Mutator.growingHeap_reached hb hrun (Nat.dvd_refl 8)
  have P := paged_of_run Mutator.growingHeap_reached hb hrun
  have hg : g.growth? 8 = some (g.step 8) := by
    rw [P.growth?_eq hcap hfull, if_neg hword, if_pos hfits]
  obtain ⟨x, g₁, hrun₁, hx₁⟩ := (P.ends_pass hcap).ends (Nat.dvd_refl 8)
  have hgrew := (hpass hcap hs g .refl).of_ok hrun₁
  cases hx₁ with
  | found hroom => exact absurd hroom (Nat.not_le.2 hfull)
  | full _ hnone => cases hnone.symm.trans hg
  | grew =>
    exact ⟨h, as, g, _, Mutator.growingHeap_reached, hb, hrun, Nat.dvd_refl 8, hends.2 hs, hrun₁,
      hgrew.1 rfl, hpass hcap hs _ (.single hrun₁)⟩

end

/-- A heap that may grow from one page to sixteen, by the largest step that there is. -/
def unroundableStep : Options where
  initialHeapSize := 4096
  maxHeapSize := 65536
  minHeapExpand := wordLimit - 1

theorem unroundableStep_reached : unroundableStep.Reached := by
  have h : Options.setAll {} [("MaxHeapSize", "64K"), ("InitialHeapSize", "4K"),
    ("MinHeapExpand", "18446744073709551615")] = .ok unroundableStep := by decide +kernel
  exact (Options.Reached.builtin 1 (by decide)).setAll h

/-- **A loop without end.**  The first page is in use, and fifteen are left; but however many passes are
made, there is no answer to a request for another eight bytes. -/
theorem expansion_stalls : ∃ h as g, unroundableStep.Reached ∧
    AnyHeap.build Place.first unroundableStep = .ok (.ok (.bump h)) ∧
    Action.runAll Request.run [.allocate 4096] h = .ok as g ∧ 8 ∣ 8 ∧
    g.used + 8 ≤ g.maxCapacity ∧ ¬ Ends (Heap.allocate 8) g (fun _ _ => True) ∧
    ∀ rounds, ∃ g', allocateRounds 8 rounds g = .error .stalled g' ∧ g'.capacity = g.capacity := by
  obtain ⟨x, h, as, g, hb, hx, hrun, hg⟩ := Mutator.leads_iff.1
    (show Mutator.leads AnyHeap.bump? Request.run Place.first unroundableStep [.allocate 4096]
      (fun g => decide (g.used + 8 ≤ g.maxCapacity ∧ g.space.free < 8 ∧ 8 ≤ g.maxCapacity ∧
        wordLimit < g.core.options.minHeapExpand + 4096)) = true by decide +kernel)
  cases AnyHeap.bump?_eq_some.1 hx
  obtain ⟨hfits, hs⟩ := of_decide_eq_true hg
  have P := paged_of_run unroundableStep_reached hb hrun
  refine ⟨h, as, g, unroundableStep_reached, hb, hrun, Nat.dvd_refl 8, hfits,
    P.not_ends_allocate hs, fun rounds => ?_⟩
  obtain ⟨g', hrun', -, hrange⟩ := P.stalls hs (Nat.dvd_refl 8) rounds
  exact ⟨g', hrun', congrArg Reservation.committed hrange⟩

end BumpHeap

end ManagedHeap
