/-
# What regions can supply

An allocation looks into the current region, and when that has no room it takes an empty region
and begins anew.  So it finds room exactly if the size is at most that of a region and the current
region has room or an empty region may be taken (`RegionSpace.Grants`); which sizes those are is the
same for buffers and for single objects, and a smaller request is granted where a larger one is.  An
allocation that finds no room has changed nothing.

That is so as long as an empty region is empty: `RegionSpace.Tidy` says so, and it is kept by
whatever is called on a heap, also out of turn and with any addresses.

* Section 1: one region.
* Section 2: the regions of a heap, and what they grant.
* Section 3: allocation.
* Section 4: what keeps the regions tidy.
* Section 5: requests in any order.
-/
import ManagedHeap.Proofs.Regions

namespace ManagedHeap

/-! ## 1. One region -/

namespace Region

/-- The bounds of a region of some size are in order, and it holds nothing while it is not in use. -/
structure Tidy (size : Nat) (r : Region) : Prop where
  pos : 0 < r.space.bottom
  bottom_le : r.space.bottom ≤ r.space.top
  top_le : r.space.top ≤ r.space.limit
  limit_eq : r.space.limit = r.space.bottom + size
  empty : r.state = .empty → r.space.top = r.space.bottom

/-- The region has some bytes left. -/
def HasRoom (r : Region) (n : Nat) : Prop := r.space.top + n ≤ r.space.limit

/-- The region with `n` more bytes allocated. -/
def bumped (r : Region) (n : Nat) : Region :=
  { r with space := { r.space with top := r.space.top + n } }

/-- The region after an allocation, which is counted if it is a buffer. -/
def given (r : Region) (kind : AllocKind) (n : Nat) : Region :=
  { r.bumped n with
    activeTlabs := if kind = .tlab then (r.activeTlabs + 1) % wordLimit else r.activeTlabs }

/-- The region when it has been taken to allocate in. -/
def taken (r : Region) : Region := { r with markLimit := r.space.top, state := .allocating }

variable {r r' : Region} {n size : Nat}

theorem Tidy.of_settled (T : r.Tidy size) (S : r.Settled r') : r'.Tidy size where
  pos := S.space ▸ T.pos
  bottom_le := S.space ▸ T.bottom_le
  top_le := S.space ▸ T.top_le
  limit_eq := S.space ▸ T.limit_eq
  empty h := S.space ▸ T.empty (S.empty.1 h)

theorem Tidy.given {kind : AllocKind} (T : r.Tidy size) (hn : r.HasRoom n) (hs : r.state ≠ .empty) :
    (r.given kind n).Tidy size where
  pos := T.pos
  bottom_le := Nat.le_add_right_of_le T.bottom_le
  top_le := hn
  limit_eq := T.limit_eq
  empty h := absurd h hs

/-- **An allocation in a region** moves the top if there is room, and changes nothing otherwise. -/
theorem ends_allocate (hn : 8 ∣ n) (ht : r.space.top ≤ r.space.limit) :
    Ends (allocate n) r fun a r' => (r.HasRoom n ∧ a = some r.space.top ∧ r' = r.bumped n) ∨
      (¬ r.HasRoom n ∧ a = none ∧ r' = r) := by
  have hn' : n % objectAlignment = 0 := Nat.mod_eq_zero_of_dvd hn
  have hd : distance r.space.limit r.space.top = .ok (r.space.limit - r.space.top) :=
    distance_eq_ok.2 ⟨ht, rfl⟩
  have hroom : r.HasRoom n ↔ ¬ r.space.limit - r.space.top < n := by
    unfold HasRoom
    omega
  simp only [allocate, onSpace, ends_onPart, BumpSpace.allocate, ends_bind, ends_get, ends_lift,
    require_eq_ok, hn', hd, ends_ite, ends_pure, ends_set, hroom]
  exact ⟨(), trivial, _, rfl, fun hless => .inr ⟨not_not.2 hless, trivial, trivial⟩,
    fun hroom => .inl ⟨hroom, trivial, rfl⟩⟩

/-- Only whole words are allocated. -/
theorem after_allocate_unaligned (hn : ¬ 8 ∣ n) {post : Option Nat → Region → Prop} :
    After (allocate n) r post := by
  simp only [allocate, onSpace, after_onPart, BumpSpace.allocate, after_bind, after_get, after_lift,
    require_eq_ok]
  exact fun _ hn' => absurd (Nat.dvd_of_mod_eq_zero hn') hn

end Region

/-! ## 2. The regions of a heap -/

namespace RegionSpace

/-- The region with an index. -/
def regionAt (s : RegionSpace) (i : Nat) : Region := s.changed.getD i (s.freshRegion i)

/-- Bounds and uses of the regions are in order: an empty region holds nothing, and allocations come
from regions that are in use and not relocated. -/
structure Tidy (s : RegionSpace) : Prop where
  page : 4096 ∣ s.regionSize
  size_pos : 0 < s.regionSize
  committed_le : s.committed ≤ s.maxRegions
  high_eq : s.range.high = s.range.low + s.committed * s.regionSize
  region : ∀ i, (s.regionAt i).Tidy s.regionSize
  uncommitted : ∀ i, s.committed ≤ i → (s.regionAt i).state = .empty
  current : ∀ kind i, s.current kind = some i →
    (s.regionAt i).state ≠ .empty ∧ (s.regionAt i).state ≠ .relocating

/-- The current region of a kind has some bytes left. -/
def HasRoom (s : RegionSpace) (kind : AllocKind) (n : Nat) : Prop :=
  ∃ i, s.current kind = some i ∧ (s.regionAt i).HasRoom n

/-- An empty region may be taken. -/
def CanTake (s : RegionSpace) (kind : AllocKind) : Prop :=
  (kind = .evacuation ∨ s.reserve < s.freeRegions) ∧
    ((∃ i, s.firstEmpty? = some i) ∨ s.committed < s.maxRegions)

/-- An allocation finds room. -/
def Grants (s : RegionSpace) (kind : AllocKind) (n : Nat) : Prop :=
  n ≤ s.regionSize ∧ (s.HasRoom kind n ∨ s.CanTake kind)

/-- The regions offer the same room. -/
structure Alike (s s' : RegionSpace) : Prop where
  range : s'.range = s.range
  regionSize : s'.regionSize = s.regionSize
  committed : s'.committed = s.committed
  reserve : s'.reserve = s.reserve
  mutatorRegion : s'.mutatorRegion = s.mutatorRegion
  evacRegion : s'.evacRegion = s.evacRegion
  used : s'.used = s.used
  space : ∀ i, (s'.regionAt i).space = (s.regionAt i).space
  state : ∀ i, (s'.regionAt i).state = (s.regionAt i).state

/-- The regions are the same, but for what they reported. -/
structure Same (s s' : RegionSpace) : Prop extends Alike s s' where
  region : ∀ i, s'.regionAt i = s.regionAt i

section
variable {s s' : RegionSpace} {i j n m : Nat} {kind : AllocKind} {r : Region}

instance : IsPreorder RegionSpace Alike where
  refl _ := ⟨rfl, rfl, rfl, rfl, rfl, rfl, rfl, fun _ => rfl, fun _ => rfl⟩
  trans _ _ _ A A' := ⟨A'.range.trans A.range, A'.regionSize.trans A.regionSize,
    A'.committed.trans A.committed, A'.reserve.trans A.reserve,
    A'.mutatorRegion.trans A.mutatorRegion, A'.evacRegion.trans A.evacRegion, A'.used.trans A.used,
    fun i => (A'.space i).trans (A.space i), fun i => (A'.state i).trans (A.state i)⟩

instance : IsPreorder RegionSpace Same where
  refl s := ⟨refl_of Alike s, fun _ => rfl⟩
  trans _ _ _ S S' := ⟨trans_of Alike S.toAlike S'.toAlike, fun i => (S'.region i).trans (S.region i)⟩

theorem Alike.current (A : Alike s s') (kind : AllocKind) : s'.current kind = s.current kind := by
  cases kind with
  | evacuation => exact A.evacRegion
  | tlab | shared => exact A.mutatorRegion

theorem Alike.maxRegions (A : Alike s s') : s'.maxRegions = s.maxRegions := by
  rw [RegionSpace.maxRegions, RegionSpace.maxRegions, A.range, A.regionSize]

theorem isEmptyAt_eq_state : s.isEmptyAt i = ((s.regionAt i).state == .empty) := by
  rw [isEmptyAt, regionAt, Std.TreeMap.getD_eq_getD_getElem?]
  cases s.changed[i]? <;> rfl

theorem Alike.isEmptyAt (A : Alike s s') : s'.isEmptyAt = s.isEmptyAt := by
  funext i
  rw [isEmptyAt_eq_state, isEmptyAt_eq_state, A.state]

/-- Counted are the committed regions that are not empty. -/
theorem usedRegions_eq : s.usedRegions = ((List.range s.committed).filter (!s.isEmptyAt ·)).length := by
  let used := s.changed.toList.filter fun x => decide (x.1 < s.committed) && !x.2.isEmpty
  have hcount : s.usedRegions = used.length := by
    rw [usedRegions, Std.TreeMap.foldl_eq_foldl_toList]
    suffices h : ∀ (l : List (Nat × Region)) (k : Nat), l.foldl (fun n x =>
        if decide (x.1 < s.committed) && !x.2.isEmpty then n + 1 else n) k = k + (l.filter fun x =>
          decide (x.1 < s.committed) && !x.2.isEmpty).length from (h _ 0).trans (Nat.zero_add _)
    intro l
    induction l with
    | nil => exact fun _ => rfl
    | cons x rest ih =>
      intro k
      rw [List.foldl_cons, ih, List.filter_cons]
      split
      · rw [List.length_cons]
        omega
      · rfl
  -- Both lists have the same members, and none of them twice.
  have hperm : (used.map Prod.fst).Perm ((List.range s.committed).filter (!s.isEmptyAt ·)) := by
    refine (List.perm_ext_iff_of_nodup ?_ (List.nodup_range.filter _)).2 fun i => ?_
    · have hd := Std.TreeMap.distinct_keys_toList (t := s.changed)
      refine (List.pairwise_map.2 ((hd.filter _).imp fun h => ?_))
      exact fun he => h (Std.LawfulEqCmp.compare_eq_iff_eq.2 he)
    · simp only [used, List.mem_map, List.mem_filter, List.mem_range, Bool.and_eq_true,
        decide_eq_true_eq, Prod.exists, Std.TreeMap.mem_toList_iff_getElem?_eq_some, isEmptyAt]
      constructor
      · rintro ⟨j, r, ⟨hr, hj, he⟩, rfl⟩
        exact ⟨hj, by simpa [hr] using he⟩
      · rintro ⟨hi, he⟩
        cases hr : s.changed[i]? with
        | none => simp [hr] at he
        | some r => exact ⟨i, r, ⟨hr, hi, by simpa [hr] using he⟩, rfl⟩
  rw [hcount, ← hperm.length_eq, List.length_map]

theorem Alike.firstEmpty? (A : Alike s s') : s'.firstEmpty? = s.firstEmpty? := by
  rw [firstEmpty?_eq_find?, firstEmpty?_eq_find?, A.committed, A.isEmptyAt]

theorem Alike.canTake (A : Alike s s') : s'.CanTake kind ↔ s.CanTake kind := by
  have hfree : s'.freeRegions = s.freeRegions := by
    rw [freeRegions, freeRegions, usedRegions_eq, usedRegions_eq, A.maxRegions, A.committed,
      A.isEmptyAt]
  rw [CanTake, CanTake, A.firstEmpty?, hfree, A.reserve, A.committed, A.maxRegions]

theorem Alike.hasRoom (A : Alike s s') : s'.HasRoom kind n ↔ s.HasRoom kind n := by
  simp only [HasRoom, Region.HasRoom, A.current, A.space]

theorem Alike.grants (A : Alike s s') : s'.Grants kind n ↔ s.Grants kind n := by
  rw [Grants, Grants, A.hasRoom, A.canTake, A.regionSize]

/-- **Buffers and objects find the same room.** -/
theorem grants_tlab : s.Grants .tlab n ↔ s.Grants .shared n := by
  simp [Grants, HasRoom, CanTake, RegionSpace.current]

/-- **A smaller request is granted where a larger one is.** -/
theorem Grants.mono (G : s.Grants kind n) (h : m ≤ n) : s.Grants kind m := by
  refine ⟨Nat.le_trans h G.1, G.2.imp_left ?_⟩
  rintro ⟨i, hi, hroom⟩
  exact ⟨i, hi, Nat.le_trans (Nat.add_le_add_left h _) hroom⟩

theorem regionAt_putRegion (hi : i < s.maxRegions) :
    (s.putRegion i r).regionAt j = if j = i then r else s.regionAt j := getD_putRegion hi

theorem Tidy.lt_maxRegions (T : s.Tidy) (h : (s.regionAt i).state ≠ .empty) : i < s.maxRegions := by
  by_contra hn
  exact h (T.uncommitted i (Nat.le_trans T.committed_le (Nat.le_of_not_lt hn)))

/-- One region is replaced. -/
theorem Tidy.putRegion (T : s.Tidy) (hi : i < s.maxRegions) (hr : r.Tidy s.regionSize)
    (hu : s.committed ≤ i → r.state = .empty)
    (hc : ∀ kind, s.current kind = some i → r.state ≠ .empty ∧ r.state ≠ .relocating) :
    (s.putRegion i r).Tidy := by
  have hput : s.putRegion i r = { s with changed := s.changed.insert i r } := if_pos hi
  have hat (j : Nat) := regionAt_putRegion (j := j) (r := r) hi
  rw [hput] at hat ⊢
  exact
    { page := T.page
      size_pos := T.size_pos
      committed_le := T.committed_le
      high_eq := T.high_eq
      region := fun j => by
        rw [hat]
        split
        · exact hr
        · exact T.region j
      uncommitted := fun j hj => by
        rw [hat]
        split
        · rename_i he
          exact hu (he ▸ hj)
        · exact T.uncommitted j hj
      current := fun kind j hj => by
        rw [hat]
        split
        · rename_i he
          exact hc kind (he ▸ hj)
        · exact T.current kind j hj }

/-- What is done to a region in use. -/
theorem Tidy.of_settled (T : s.Tidy) (hi : i < s.maxRegions) (S : (s.regionAt i).Settled r) :
    (s.putRegion i r).Tidy := by
  refine T.putRegion hi ((T.region i).of_settled S) (fun hle => S.empty.2 (T.uncommitted i hle))
    fun kind hc => ?_
  have hcur := T.current kind i hc
  exact ⟨fun he => hcur.1 (S.empty.1 he), fun hr => hcur.2 (S.relocating hr)⟩

/-- The regions agree with those of a tidy heap in all that matters. -/
theorem Tidy.of_alike (T : s.Tidy) (A : Alike s s') : s'.Tidy where
  page := A.regionSize ▸ T.page
  size_pos := A.regionSize ▸ T.size_pos
  committed_le := by
    rw [A.committed, A.maxRegions]
    exact T.committed_le
  high_eq := by
    rw [A.range, A.committed, A.regionSize]
    exact T.high_eq
  region i := by
    have R := T.region i
    rw [A.regionSize]
    exact ⟨A.space i ▸ R.pos, A.space i ▸ R.bottom_le, A.space i ▸ R.top_le,
      A.space i ▸ R.limit_eq, fun h => A.space i ▸ R.empty ((A.state i).symm.trans h)⟩
  uncommitted i hi := (A.state i).trans (T.uncommitted i (A.committed ▸ hi))
  current kind i hi := by
    rw [A.state]
    exact T.current kind i ((A.current kind).symm.trans hi)

/-- The regions of a heap that has its memory in order. -/
theorem tidy_of_layout {h : RegionHeap} (L : h.view.Layout) : h.space.Tidy where
  page := L.geometry.page
  size_pos := L.geometry.size_pos
  committed_le := L.geometry.committed_le
  high_eq := L.geometry.high_eq
  region i :=
    have R := L.regions i
    { pos := Nat.lt_of_lt_of_le L.geometry.low_pos
        (Nat.le_trans (Nat.le_add_right _ _) (Nat.le_of_eq R.bottom_eq.symm))
      bottom_le := Nat.le_trans R.bottom_le R.markLimit_le
      top_le := R.top_le
      limit_eq := R.limit_eq
      empty := fun h => (R.empty h).1 }
  uncommitted i := (L.regions i).uncommitted
  current kind i hi := by
    cases kind with
    | evacuation => exact L.evacRegion i hi
    | tlab | shared => exact L.mutatorRegion i hi

theorem same_reports {es : Array Event} : Same s { s with reports := es } :=
  ⟨⟨rfl, rfl, rfl, rfl, rfl, rfl, rfl, fun _ => rfl, fun _ => rfl⟩, fun _ => rfl⟩

end

/-! ## 3. Allocation -/

section
variable {s s' s'' : RegionSpace} {i j n a : Nat} {kind k : AllocKind} {x : Region} {r : Option Nat}

/-- Allocations of a kind come from a region. -/
def withCurrent (s : RegionSpace) (kind : AllocKind) (i : Nat) : RegionSpace :=
  match kind with
  | .evacuation => { s with evacRegion := some i }
  | .tlab | .shared => { s with mutatorRegion := some i }

/-- The regions after an allocation in one of them. -/
def give (s : RegionSpace) (kind : AllocKind) (n i : Nat) : RegionSpace :=
  { s.putRegion i ((s.regionAt i).given kind n) with used := s.used + n }

/-- The region that is taken next: the first empty one, or else the next one to be committed. -/
def nextRegion (s : RegionSpace) : Nat := s.firstEmpty?.getD s.committed

/-- The next region is committed. -/
def withNext (s : RegionSpace) : RegionSpace :=
  { s with
    committed := max s.committed (s.nextRegion + 1)
    range := { s.range with high := s.range.low + max s.committed (s.nextRegion + 1) * s.regionSize } }

/-- The next region is taken, for allocations of a kind. -/
def take (s : RegionSpace) (kind : AllocKind) : RegionSpace :=
  (s.withNext.putRegion s.nextRegion (s.regionAt s.nextRegion).taken).withCurrent kind s.nextRegion

/-- **What an allocation comes to.**  Reports apart, all of the heap is as it is said here. -/
inductive Outcome (s : RegionSpace) (kind : AllocKind) (n : Nat) : Option Nat → RegionSpace → Prop where
  /-- There is room in the current region. -/
  | found {i : Nat} {s' : RegionSpace} (hi : s.current kind = some i)
      (hroom : (s.regionAt i).HasRoom n) (S : Same (s.give kind n i) s') :
      Outcome s kind n (some (s.regionAt i).space.top) s'
  /-- There is none, and the next region is taken. -/
  | took {s' : RegionSpace} (hn : n ≤ s.regionSize) (hfull : ¬ s.HasRoom kind n)
      (hcan : s.CanTake kind) (S : Same ((s.take kind).give kind n s.nextRegion) s') :
      Outcome s kind n (some (s.regionAt s.nextRegion).space.top) s'
  | refused {s' : RegionSpace} (h : ¬ s.Grants kind n) (S : Same s s') : Outcome s kind n none s'

theorem ends_onRegionAt {α : Type} {act : Action Region α} {post : α → RegionSpace → Prop}
    (hi : i < s.maxRegions)
    (h : Ends act (s.regionAt i) fun a r => post a (s.putRegion i r)) :
    Ends (onRegion i act) s post := by
  obtain ⟨a, r, ha, hp⟩ := h
  exact ⟨a, s.putRegion i r, onRegion_eq_ok.2 ⟨hi, r, ha, rfl⟩, hp⟩

/-- A region is replaced by one of the same memory in the same use. -/
theorem alike_putRegion (hi : i < s.maxRegions)
    (hspace : x.space = (s.regionAt i).space) (hstate : x.state = (s.regionAt i).state) :
    Alike s (s.putRegion i x) := by
  have hat (j : Nat) := regionAt_putRegion (j := j) (r := x) hi
  have hput : s.putRegion i x = { s with changed := s.changed.insert i x } := if_pos hi
  rw [hput] at hat ⊢
  refine ⟨rfl, rfl, rfl, rfl, rfl, rfl, rfl, fun j => ?_, fun j => ?_⟩
  all_goals
    rw [hat]
    split
    · rename_i he
      subst he
      assumption
    · rfl

theorem same_putRegion_self (hi : i < s.maxRegions) : Same s (s.putRegion i (s.regionAt i)) := by
  refine ⟨alike_putRegion hi rfl rfl, fun j => ?_⟩
  rw [regionAt_putRegion hi]
  split
  · rename_i he
    rw [he]
  · rfl

/-- Fewer buffers are counted. -/
theorem alike_retireTlab : Keeps Alike (retireTlab n) := by
  refine keeps_get.bind fun s => ?_
  cases s.indexOf? n with
  | none => exact keeps_modify fun _ => same_reports.toAlike
  | some i =>
    refine fun s => after_onRegion fun hi => ?_
    simp only [Region.tlabRetired, after_bind, after_get, after_set, after_lift]
    exact fun _ _ => alike_putRegion hi rfl rfl

theorem Same.nextRegion (S : Same s s') : s'.nextRegion = s.nextRegion := by
  rw [RegionSpace.nextRegion, RegionSpace.nextRegion, S.firstEmpty?, S.committed]

theorem Same.withNext (S : Same s s') : Same s.withNext s'.withNext := by
  have hcommitted : s'.withNext.committed = s.withNext.committed := by
    show max s'.committed (s'.nextRegion + 1) = max s.committed (s.nextRegion + 1)
    rw [S.nextRegion, S.committed]
  have hrange : s'.withNext.range = s.withNext.range := by
    simp only [RegionSpace.withNext, S.nextRegion, S.committed, S.range, S.regionSize]
  exact ⟨⟨hrange, S.regionSize, hcommitted, S.reserve, S.mutatorRegion, S.evacRegion, S.used, S.space,
    S.state⟩, S.region⟩

/-- The same is put into the same heap. -/
theorem Same.putRegion (S : Same s s') (hi : i < s.maxRegions) :
    Same (s.putRegion i x) (s'.putRegion i x) := by
  have hi' : i < s'.maxRegions := S.maxRegions ▸ hi
  have hat (j : Nat) : (s'.putRegion i x).regionAt j = (s.putRegion i x).regionAt j := by
    rw [regionAt_putRegion hi', regionAt_putRegion hi, S.region]
  have hput : s.putRegion i x = { s with changed := s.changed.insert i x } := if_pos hi
  have hput' : s'.putRegion i x = { s' with changed := s'.changed.insert i x } := if_pos hi'
  rw [hput, hput'] at hat ⊢
  exact ⟨⟨S.range, S.regionSize, S.committed, S.reserve, S.mutatorRegion, S.evacRegion, S.used,
    fun j => congrArg Region.space (hat j), fun j => congrArg Region.state (hat j)⟩, hat⟩

theorem Same.setUsed (S : Same s s') (n : Nat) : Same { s with used := n } { s' with used := n } :=
  ⟨{ S.toAlike with used := rfl, space := S.space, state := S.state }, S.region⟩

theorem Same.give (S : Same s s') (hi : i < s.maxRegions) :
    Same (s.give kind n i) (s'.give kind n i) := by
  rw [RegionSpace.give, RegionSpace.give, S.region, S.used]
  exact (S.putRegion hi).setUsed _

theorem Same.withCurrent (S : Same s s') : Same (s.withCurrent kind i) (s'.withCurrent kind i) := by
  cases kind with
  | evacuation =>
    exact ⟨{ S.toAlike with evacRegion := rfl, space := S.space, state := S.state }, S.region⟩
  | tlab | shared =>
    exact ⟨{ S.toAlike with mutatorRegion := rfl, space := S.space, state := S.state }, S.region⟩

theorem current_putRegion : (s.putRegion i x).current kind = s.current kind := by
  unfold putRegion
  split <;> cases kind <;> rfl

theorem used_putRegion : (s.putRegion i x).used = s.used := by
  unfold putRegion
  split <;> rfl

/-- What was put last is there. -/
theorem same_putRegion_twice {y : Region} (hi : i < s.maxRegions) :
    Same (s.putRegion i x) ((s.putRegion i y).putRegion i x) := by
  have hi' : i < (s.putRegion i y).maxRegions := by rwa [maxRegions_putRegion]
  have hat (j : Nat) :
      ((s.putRegion i y).putRegion i x).regionAt j = (s.putRegion i x).regionAt j := by
    rw [regionAt_putRegion hi', regionAt_putRegion hi, regionAt_putRegion hi]
    split <;> rfl
  have hput : s.putRegion i x = { s with changed := s.changed.insert i x } := if_pos hi
  have hput' : (s.putRegion i y).putRegion i x =
      { s with changed := (s.changed.insert i y).insert i x } := by
    rw [show s.putRegion i y = { s with changed := s.changed.insert i y } from if_pos hi] at hi' ⊢
    exact if_pos hi'
  rw [hput, hput'] at hat ⊢
  exact ⟨⟨rfl, rfl, rfl, rfl, rfl, rfl, rfl, fun j => congrArg Region.space (hat j),
    fun j => congrArg Region.state (hat j)⟩, hat⟩

theorem current_give : (s.give kind n i).current k = s.current k := by
  refine Eq.trans ?_ (current_putRegion (x := (s.regionAt i).given kind n) (i := i))
  cases k <;> rfl

theorem regionAt_give (hi : i < s.maxRegions) :
    (s.give kind n i).regionAt j = if j = i then (s.regionAt i).given kind n else s.regionAt j :=
  regionAt_putRegion hi

/-- Mutators and evacuation have a current region each. -/
theorem current_withCurrent : (s.withCurrent kind i).current k =
    if k = .evacuation ↔ kind = .evacuation then some i else s.current k := by
  cases kind <;> cases k <;> rfl

theorem regionAt_withCurrent : (s.withCurrent kind i).regionAt j = s.regionAt j := by
  cases kind <;> rfl

/-- The region that is taken next is empty, and at most the first that is not committed. -/
theorem Tidy.nextRegion (T : s.Tidy) :
    (s.regionAt s.nextRegion).state = .empty ∧ s.nextRegion ≤ s.committed := by
  rw [RegionSpace.nextRegion]
  cases hf : s.firstEmpty? with
  | none => exact ⟨T.uncommitted _ (Nat.le_refl _), Nat.le_refl _⟩
  | some i =>
    rw [firstEmpty?_eq_find?, List.find?_range_eq_some] at hf
    refine ⟨?_, Nat.le_of_lt (List.mem_range.1 hf.2.1)⟩
    simpa [isEmptyAt_eq_state] using hf.1

/-- If a region may be taken there is one. -/
theorem CanTake.lt_maxRegions (h : s.CanTake kind) (T : s.Tidy) : s.nextRegion < s.maxRegions := by
  rw [RegionSpace.nextRegion]
  cases hf : s.firstEmpty? with
  | none =>
    rcases h.2 with ⟨i, hi⟩ | hlt
    · cases hf.symm.trans hi
    · exact hlt
  | some i =>
    rw [firstEmpty?_eq_find?, List.find?_range_eq_some] at hf
    exact Nat.lt_of_lt_of_le (List.mem_range.1 hf.2.1) T.committed_le

theorem Tidy.withNext (T : s.Tidy) (h : s.nextRegion < s.maxRegions) : s.withNext.Tidy where
  page := T.page
  size_pos := T.size_pos
  committed_le := Nat.max_le.2 ⟨T.committed_le, h⟩
  high_eq := rfl
  region := T.region
  uncommitted i hi := T.uncommitted i (Nat.le_trans (Nat.le_max_left _ _) hi)
  current := T.current

theorem Tidy.withCurrent (T : s.Tidy)
    (hi : (s.regionAt i).state ≠ .empty ∧ (s.regionAt i).state ≠ .relocating) :
    (s.withCurrent kind i).Tidy := by
  have hcur (k : AllocKind) (j : Nat) (hj : (s.withCurrent kind i).current k = some j) :
      (s.regionAt j).state ≠ .empty ∧ (s.regionAt j).state ≠ .relocating := by
    rw [current_withCurrent] at hj
    split at hj
    · exact Option.some.inj hj ▸ hi
    · exact T.current k j hj
  cases kind <;> exact { T with region := T.region, current := hcur }

/-- What the regions are after one was taken. -/
theorem regionAt_take (hlt : s.nextRegion < s.maxRegions) : (s.take kind).regionAt j =
    if j = s.nextRegion then (s.regionAt s.nextRegion).taken else s.regionAt j := by
  rw [take, regionAt_withCurrent, regionAt_putRegion (s := s.withNext) hlt]
  rfl

theorem current_take : (s.take kind).current k =
    if k = .evacuation ↔ kind = .evacuation then some s.nextRegion else s.current k := by
  rw [take, current_withCurrent, current_putRegion]
  cases k <;> rfl

theorem maxRegions_take : (s.take kind).maxRegions = s.maxRegions := by
  have h := s.withNext.maxRegions_putRegion s.nextRegion (s.regionAt s.nextRegion).taken
  cases kind <;> exact h

/-- **A region that is taken** is in use then. -/
theorem Tidy.take (T : s.Tidy) (h : s.nextRegion < s.maxRegions) : (s.take kind).Tidy := by
  have R := T.region s.nextRegion
  have T₁ : (s.withNext.putRegion s.nextRegion (s.regionAt s.nextRegion).taken).Tidy := by
    refine (T.withNext h).putRegion h ⟨R.pos, R.bottom_le, R.top_le, R.limit_eq, fun he => by cases he⟩
      (fun hle => ?_) fun _ _ => ⟨(by simp [Region.taken]), (by simp [Region.taken])⟩
    exact absurd (Nat.le_trans (Nat.le_max_right _ _) hle) (Nat.not_succ_le_self _)
  refine T₁.withCurrent ?_
  rw [regionAt_putRegion (s := s.withNext) h, if_pos rfl]
  exact ⟨(by simp [Region.taken]), (by simp [Region.taken])⟩

/-- In a region that was taken there is room for whatever a region can hold. -/
theorem Tidy.hasRoom_take (T : s.Tidy) (h : s.nextRegion < s.maxRegions) (hn : n ≤ s.regionSize) :
    (s.take kind).HasRoom kind n := by
  refine ⟨s.nextRegion, by rw [current_take, if_pos Iff.rfl], ?_⟩
  have R := T.region s.nextRegion
  have htop := R.empty T.nextRegion.1
  have hlimit := R.limit_eq
  rw [regionAt_take h, if_pos rfl]
  show (s.regionAt s.nextRegion).space.top + n ≤ (s.regionAt s.nextRegion).space.limit
  omega

theorem Tidy.give (T : s.Tidy) (hi : s.current kind = some i) (hroom : (s.regionAt i).HasRoom n) :
    (s.give kind n i).Tidy := by
  have hstate := T.current kind i hi
  have hlt := T.lt_maxRegions hstate.1
  have T₁ : (s.putRegion i ((s.regionAt i).given kind n)).Tidy :=
    T.putRegion hlt ((T.region i).given hroom hstate.1)
      (fun hle => absurd (T.uncommitted i hle) hstate.1) fun _ _ => hstate
  exact { T₁ with region := T₁.region }

theorem regionAt_give_take (hlt : s.nextRegion < s.maxRegions) :
    ((s.take kind).give kind n s.nextRegion).regionAt j = if j = s.nextRegion then
      (s.regionAt s.nextRegion).taken.given kind n else s.regionAt j := by
  have hlt' : s.nextRegion < (s.take kind).maxRegions := by rwa [maxRegions_take]
  rw [regionAt_give hlt', regionAt_take hlt, if_pos rfl, regionAt_take hlt]
  split <;> rfl

theorem Tidy.give_take (T : s.Tidy) (h : s.nextRegion < s.maxRegions) (hn : n ≤ s.regionSize) :
    ((s.take kind).give kind n s.nextRegion).Tidy := by
  have hcur : (s.take kind).current kind = some s.nextRegion := by rw [current_take, if_pos Iff.rfl]
  obtain ⟨i, hi, hroom⟩ := T.hasRoom_take h hn
  exact (T.take h).give hcur (Option.some.inj (hcur.symm.trans hi) ▸ hroom)

/-- **In the current region** there is room or there is none. -/
theorem Tidy.allocateInCurrent (T : s.Tidy) :
    EndsIf (8 ∣ n) (allocateInCurrent n kind) s fun r s' =>
      (∃ i, s.current kind = some i ∧ (s.regionAt i).HasRoom n ∧
        r = some (s.regionAt i).space.top ∧ Same (s.give kind n i) s') ∨
      (¬ s.HasRoom kind n ∧ r = none ∧ Same s s') := by
  by_cases hn : 8 ∣ n
  swap
  · refine ⟨?_, fun h => absurd h hn⟩
    rw [RegionSpace.allocateInCurrent, after_bind, after_get]
    cases hc : s.current kind with
    | none => exact after_pure.2 (.inr ⟨by simp [HasRoom, hc], rfl, refl_of Same s⟩)
    | some i => exact after_bind.2 (after_onRegion fun _ => Region.after_allocate_unaligned hn)
  refine Ends.endsIf ?_
  simp only [RegionSpace.allocateInCurrent, ends_bind, ends_get]
  cases hc : s.current kind with
  | none => exact ends_pure.2 (.inr ⟨by simp [HasRoom, hc], rfl, refl_of Same s⟩)
  | some i =>
    have hi := T.lt_maxRegions (T.current kind i hc).1
    simp only [ends_bind]
    refine ends_onRegionAt hi ((Region.ends_allocate hn (T.region i).top_le).mono ?_)
    rintro a _ (⟨hfit, rfl, rfl⟩ | ⟨hfull, rfl, rfl⟩)
    · by_cases hk : kind = .tlab
      · -- The region also counts the buffer.
        simp only [hk, if_true, ends_bind]
        have hi' : i < (s.putRegion i ((s.regionAt i).bumped n)).maxRegions := by
          rwa [maxRegions_putRegion]
        have hat : (s.putRegion i ((s.regionAt i).bumped n)).regionAt i = (s.regionAt i).bumped n := by
          rw [regionAt_putRegion hi, if_pos rfl]
        refine ends_onRegionAt hi' ?_
        simp only [Region.tlabAllocated, ends_modify, ends_pure, hat]
        rw [used_putRegion, used_putRegion]
        refine .inl ⟨i, rfl, hfit, rfl, ?_⟩
        have hgiven : (s.regionAt i).given .tlab n = { (s.regionAt i).bumped n with
            activeTlabs := ((s.regionAt i).activeTlabs + 1) % wordLimit } := by
          rw [Region.given, if_pos rfl]
        rw [RegionSpace.give, hgiven]
        exact (same_putRegion_twice hi).setUsed _
      · simp only [hk, if_false, ends_bind, ends_modify, ends_pure]
        refine .inl ⟨i, rfl, hfit, rfl, ?_⟩
        have hgiven : (s.regionAt i).given kind n = (s.regionAt i).bumped n := by
          rw [Region.given, if_neg hk]
          rfl
        rw [RegionSpace.give, hgiven, used_putRegion]
        exact refl_of Same _
    · refine ends_pure.2 (.inr ⟨?_, rfl, same_putRegion_self hi⟩)
      rintro ⟨j, hj, hroom⟩
      cases hc.symm.trans hj
      exact hfull hroom

/-- **The next region is committed** if there is one. -/
theorem Tidy.ends_commitNext (T : s.Tidy) :
    Ends commitNext s fun r s' => (r = none ∧ s.committed = s.maxRegions ∧ s' = s) ∨
      (r = some s.committed ∧ s.committed < s.maxRegions ∧ ∃ es, s' = { s with
        range := { s.range with high := s.range.high + s.regionSize }
        committed := s.committed + 1
        reports := es }) := by
  simp only [commitNext, ends_bind, ends_get, ends_ite, ends_pure]
  refine ⟨fun he => .inl ⟨trivial, he, trivial⟩, fun hne => ?_⟩
  have hlt : s.committed < s.maxRegions := Nat.lt_of_le_of_ne T.committed_le hne
  have hroom : s.range.high + s.regionSize ≤ s.range.boundary := by
    have h1 : (s.committed + 1) * s.regionSize ≤ s.maxRegions * s.regionSize :=
      Nat.mul_le_mul_right _ hlt
    have h2 : s.maxRegions * s.regionSize ≤ s.range.boundary - s.range.low := Nat.div_mul_le_self _ _
    have h3 := T.high_eq
    have h4 := T.size_pos
    rw [Nat.succ_mul] at h1
    omega
  have hpage : isAligned s.regionSize pageBytes = true := isAligned_pageBytes.2 T.page
  have hleft : distance s.range.boundary s.range.high = .ok (s.range.boundary - s.range.high) :=
    distance_eq_ok.2 ⟨by omega, rfl⟩
  have hnot : ¬ s.range.boundary - s.range.high < s.regionSize := by omega
  simp only [Reservation.expand, ends_onPart, ends_bind, ends_get, ends_lift, require_eq_ok, hpage]
  refine ⟨(), trivial, _, hleft, ?_⟩
  simp only [hnot, if_false, ends_bind, ends_get, ends_set, ends_pure, ends_modify, report]
  exact .inr ⟨trivial, hlt, _, rfl⟩

/-- An empty region starts to allocate. -/
theorem ends_makeAllocating (hi : i < s.maxRegions) (he : (s.regionAt i).state = .empty) :
    Ends (onRegion i Region.makeAllocating) s fun _ s' => s' = s.putRegion i (s.regionAt i).taken := by
  refine ends_onRegionAt hi ?_
  simp only [Region.makeAllocating, Region.transition, ends_bind, ends_modify, ends_get, ends_ite,
    ends_set, he]
  exact ⟨fun _ => ⟨fun _ => rfl, fun h => absurd trivial h⟩, fun h => absurd rfl h⟩

/-- What is committed includes the next region. -/
theorem Tidy.same_withNext (T : s.Tidy) :
    (∀ i, s.firstEmpty? = some i → s.withNext = s) ∧
    (s.firstEmpty? = none → ∀ es, Same s.withNext { s with
      range := { s.range with high := s.range.high + s.regionSize }
      committed := s.committed + 1
      reports := es }) := by
  constructor
  · intro i hf
    have hle : s.nextRegion + 1 ≤ s.committed := by
      rw [RegionSpace.nextRegion, hf]
      rw [firstEmpty?_eq_find?, List.find?_range_eq_some] at hf
      exact List.mem_range.1 hf.2.1
    rw [RegionSpace.withNext, Nat.max_eq_left hle, ← T.high_eq]
  · intro hf es
    have hnext : s.nextRegion = s.committed := by rw [RegionSpace.nextRegion, hf]; rfl
    have hhigh : s.range.high + s.regionSize = s.range.low + (s.committed + 1) * s.regionSize := by
      rw [T.high_eq, Nat.succ_mul, Nat.add_assoc]
    rw [RegionSpace.withNext, hnext, Nat.max_eq_right (Nat.le_succ _), ← hhigh]
    exact ⟨⟨rfl, rfl, rfl, rfl, rfl, rfl, rfl, fun _ => rfl, fun _ => rfl⟩, fun _ => rfl⟩

/-- **A region is taken** unless none may be. -/
theorem Tidy.ends_takeEmpty (T : s.Tidy) :
    Ends (takeEmpty kind) s fun r s' => (r = none ∧ ¬ s.CanTake kind ∧ Same s s') ∨
      (r = some s.nextRegion ∧ s.CanTake kind ∧
        Same (s.withNext.putRegion s.nextRegion (s.regionAt s.nextRegion).taken) s') := by
  simp only [takeEmpty, ends_bind, ends_get, ends_ite]
  refine ⟨fun hres => ?_, fun hres => ?_⟩
  · simp only [report, ends_modify, ends_pure]
    refine .inl ⟨trivial, fun hc => ?_, same_reports⟩
    exact hc.1.elim hres.1 fun h => Nat.not_lt.2 hres.2 h
  have hkind : kind = .evacuation ∨ s.reserve < s.freeRegions := by
    by_contra hn
    rw [not_or] at hn
    exact hres ⟨hn.1, Nat.le_of_not_lt hn.2⟩
  have hempty := T.nextRegion.1
  cases hf : s.firstEmpty? with
  | some i =>
    have hcan : s.CanTake kind := ⟨hkind, .inl ⟨i, hf⟩⟩
    have hlt := hcan.lt_maxRegions T
    obtain rfl : s.nextRegion = i := by rw [RegionSpace.nextRegion, hf]; rfl
    simp only [ends_bind, ends_pure]
    refine (ends_makeAllocating hlt hempty).mono fun _ s' hs => .inr ⟨trivial, hcan, ?_⟩
    rw [hs, T.same_withNext.1 _ hf]
    exact refl_of Same _
  | none =>
    have hnext : s.nextRegion = s.committed := by rw [RegionSpace.nextRegion, hf]; rfl
    simp only [ends_bind]
    refine T.ends_commitNext.mono ?_
    rintro _ s₁ (⟨rfl, he, rfl⟩ | ⟨rfl, hlt, es, rfl⟩)
    · refine ends_pure.2 (.inl ⟨rfl, fun hc => ?_, refl_of Same s₁⟩)
      have hlt := hc.lt_maxRegions T
      omega
    · have S := T.same_withNext.2 hf es
      have hlt' : s.nextRegion < s.withNext.maxRegions := hnext ▸ hlt
      have hcan : s.CanTake kind := ⟨hkind, .inr hlt⟩
      simp only [ends_bind, ends_pure, ← hnext] at S ⊢
      refine Ends.mono (ends_makeAllocating hlt' hempty) fun _ s' hs => .inr ⟨trivial, hcan, ?_⟩
      rw [hs]
      exact S.putRegion hlt'

/-- **What an allocation comes to.** -/
theorem Tidy.outcome (T : s.Tidy) : EndsIf (8 ∣ n) (allocate n kind) s (s.Outcome kind n) := by
  rw [RegionSpace.allocate, endsIf_get_bind]
  by_cases hsize : s.regionSize < n
  · rw [if_pos hsize]
    refine Ends.endsIf ?_
    simp only [report, ends_bind, ends_modify, ends_pure]
    exact .refused (fun hg => Nat.not_lt.2 hg.1 hsize) same_reports
  have hn := Nat.not_lt.1 hsize
  rw [if_neg hsize, allocateRounds]
  refine T.allocateInCurrent.bind ?_
  rintro _ s₁ (⟨i, hi, hroom, rfl, S₁⟩ | ⟨hfull, rfl, S₁⟩)
  · exact endsIf_pure (.found hi hroom S₁)
  have T₁ := T.of_alike S₁.toAlike
  refine T₁.ends_takeEmpty.endsIf.bind ?_
  rintro _ s₂ (⟨rfl, hnone, S₂⟩ | ⟨rfl, hcan, S₂⟩)
  · refine endsIf_pure (.refused ?_ (trans_of Same S₁ S₂))
    rintro ⟨-, hroom | hcan⟩
    · exact hfull hroom
    · exact hnone (S₁.canTake.2 hcan)
  have hcan' := S₁.canTake.1 hcan
  have hlt := hcan'.lt_maxRegions T
  rw [S₁.nextRegion] at S₂ ⊢
  -- The heap is the same as one from which the region was taken, so there is no third round.
  have hrounds : s.maxRegions = s.maxRegions - 1 + 1 := by omega
  have S₃ : Same (s.take kind) (s₂.withCurrent kind s.nextRegion) := by
    refine Same.withCurrent (trans_of Same ?_ S₂)
    rw [S₁.region]
    exact S₁.withNext.putRegion hlt
  have T₃ := (T.take hlt).of_alike S₃.toAlike
  have hset : Ends (setCurrent kind s.nextRegion) s₂ fun _ s₃ =>
      s₃ = s₂.withCurrent kind s.nextRegion := by
    cases kind <;> exact ends_modify.2 rfl
  refine hset.endsIf.bind ?_
  rintro _ _ rfl
  rw [hrounds, allocateRounds]
  refine T₃.allocateInCurrent.bind ?_
  rintro _ s₄ (⟨i, hi, -, rfl, S₄⟩ | ⟨hfull', -⟩)
  · rw [S₃.current, current_take, if_pos Iff.rfl] at hi
    obtain rfl := Option.some.inj hi
    rw [S₃.region, regionAt_take hlt, if_pos rfl]
    have hlt' : s.nextRegion < (s.take kind).maxRegions := by rwa [maxRegions_take]
    exact endsIf_pure (.took hn hfull hcan' (trans_of Same (S₃.give hlt') S₄))
  · exact absurd (S₃.hasRoom.2 (T.hasRoom_take hlt hn)) hfull'

/-- Bytes were cut at `a` from the region `i`, which is the one that allocations of a kind come from.
It has become so only if the one before had no room, and was empty then.  No other region has
changed. -/
structure Cut (s : RegionSpace) (kind : AllocKind) (n i a : Nat) (s' : RegionSpace) : Prop where
  current : s'.current kind = some i
  turn : s.current kind = some i ∨ ¬ s.HasRoom kind n ∧ (s.regionAt i).state = .empty
  mutatorRegion : kind = .evacuation → s'.mutatorRegion = s.mutatorRegion
  others : ∀ j, j ≠ i → s'.regionAt j = s.regionAt j
  top : (s.regionAt i).space.top = a
  region : s'.regionAt i = { (s.regionAt i).bumped n with
    state := (s'.regionAt i).state
    markLimit := (s'.regionAt i).markLimit
    activeTlabs := (s'.regionAt i).activeTlabs }
  tlabs : kind ≠ .tlab → (s'.regionAt i).activeTlabs = (s.regionAt i).activeTlabs

/-- What an allocation gives: a place if there is room, and otherwise nothing, and then it has
changed nothing. -/
structure Answered (kind : AllocKind) (n : Nat) (room : Prop) (s : RegionSpace) (r : Option Nat)
    (s' : RegionSpace) : Prop where
  tidy : s'.Tidy
  pos : ∀ a, r = some a → 0 < a
  isSome : r.isSome = true ↔ room
  same : r = none → Same s s'
  cut : ∀ a, r = some a → ∃ i, s.Cut kind n i a s'

theorem Tidy.size_of_hasRoom (T : s.Tidy) (h : (s.regionAt i).HasRoom n) : n ≤ s.regionSize := by
  have R := T.region i
  have h1 := R.bottom_le
  have h2 := R.limit_eq
  have h3 : (s.regionAt i).space.top + n ≤ (s.regionAt i).space.limit := h
  omega

theorem Outcome.answered (O : s.Outcome kind n r s') (T : s.Tidy) :
    Answered kind n (s.Grants kind n) s r s' := by
  have hpos (i : Nat) : 0 < (s.regionAt i).space.top :=
    Nat.lt_of_lt_of_le (T.region i).pos (T.region i).bottom_le
  have htlabs {y : Region} (hk : kind ≠ .tlab) : (y.given kind n).activeTlabs = y.activeTlabs :=
    if_neg hk
  cases O with
  | refused h S => exact ⟨T.of_alike S.toAlike, (by simp), by simp [h], fun _ => S, (by simp)⟩
  | found hi hroom S =>
    rename_i i
    have hlt := T.lt_maxRegions (T.current kind i hi).1
    have hat : s'.regionAt i = (s.regionAt i).given kind n := by
      rw [S.region, regionAt_give hlt, if_pos rfl]
    refine ⟨(T.give hi hroom).of_alike S.toAlike, fun _ ha => Option.some.inj ha ▸ hpos i,
      iff_of_true rfl ⟨T.size_of_hasRoom hroom, .inl ⟨i, hi, hroom⟩⟩, (by simp), fun a ha => ⟨i, ?_⟩⟩
    cases ha
    exact
      { current := (S.current kind).trans (current_give.trans hi)
        turn := .inl hi
        mutatorRegion := fun _ => (S.current .shared).trans current_give
        others := fun j hj => by rw [S.region, regionAt_give hlt, if_neg hj]
        top := rfl
        region := by rw [hat]; rfl
        tlabs := fun hk => by rw [hat, htlabs hk] }
  | took hn hfull hcan S =>
    have hlt := hcan.lt_maxRegions T
    have hgive (j : Nat) : s'.regionAt j = if j = s.nextRegion then
        (s.regionAt s.nextRegion).taken.given kind n else s.regionAt j := by
      rw [S.region, regionAt_give_take hlt]
    have hat : s'.regionAt s.nextRegion = (s.regionAt s.nextRegion).taken.given kind n := by
      rw [hgive, if_pos rfl]
    have hcur : (s.take kind).current kind = some s.nextRegion := by rw [current_take, if_pos Iff.rfl]
    refine ⟨(T.give_take hlt hn).of_alike S.toAlike,
      fun _ ha => Option.some.inj ha ▸ hpos s.nextRegion, iff_of_true rfl ⟨hn, .inr hcan⟩, (by simp),
      fun a ha => ⟨s.nextRegion, ?_⟩⟩
    cases ha
    exact
      { current := (S.current kind).trans (current_give.trans hcur)
        turn := .inr ⟨hfull, T.nextRegion.1⟩
        mutatorRegion := fun hk => by
          refine (S.current .shared).trans (current_give.trans ?_)
          rw [current_take, if_neg (by simp [hk])]
          rfl
        others := fun j hj => by rw [hgive, if_neg hj]
        top := rfl
        region := by rw [hat]; rfl
        tlabs := fun hk => by rw [hat, htlabs hk]; rfl }

/-- **An allocation finds room exactly if it is granted.** -/
theorem Tidy.allocate (T : s.Tidy) :
    EndsIf (8 ∣ n) (allocate n kind) s (Answered kind n (s.Grants kind n) s) :=
  T.outcome.mono fun _ _ O => O.answered T

end

end RegionSpace

/-- **An allocation in the regions of a heap** is answered from them. -/
theorem RegionHeap.allocateIn_answered {h : RegionHeap} {n : Nat} {kind : AllocKind}
    (T : h.space.Tidy) :
    EndsIf (8 ∣ n) (allocateIn n kind) h fun r h' =>
      ∃ s, RegionSpace.Answered kind n (h.space.Grants kind n) h.space r s ∧ h' = putSpace s h where
  after := by
    rw [allocateIn, onSpace, after_onPart]
    exact T.allocate.after.mono fun _ s hs => ⟨s, hs, rfl⟩
  ends hn := by
    simp only [allocateIn, onSpace, ends_onPart]
    exact (T.allocate.ends hn).mono fun _ s hs => ⟨s, hs, rfl⟩

/-! ## 4. What keeps the regions tidy -/

namespace RegionSpace

section
variable {s s' : RegionSpace} {i : Nat} {r : Region}

/-- If the regions were tidy, they are so again. -/
def StaysTidy (s s' : RegionSpace) : Prop := s.Tidy → s'.Tidy

instance : IsPreorder RegionSpace StaysTidy where
  refl _ := id
  trans _ _ _ S S' := S' ∘ S

/-- **Allocation and what is done to regions in use keep the regions tidy.** -/
theorem upholds_tidy : Upholds StaysTidy where
  reports _ _ T := T.of_alike same_reports.toAlike
  region _ _ _ h _ := after_onRegion fun hi => (h _).mono fun _ _ hr T => T.of_settled hi hr
  allocate _ _ _ a s' hs T := (T.allocate.after a s' hs).tidy

/-- The regions stay tidy, and allocations come from the regions from which they came. -/
structure Rests (s s' : RegionSpace) : Prop where
  tidy : StaysTidy s s'
  isCurrent : s'.isCurrent = s.isCurrent

instance : IsPreorder RegionSpace Rests where
  refl _ := ⟨id, rfl⟩
  trans _ _ _ R R' := ⟨R'.tidy ∘ R.tidy, R'.isCurrent.trans R.isCurrent⟩

theorem isCurrent_putRegion : (s.putRegion i r).isCurrent = s.isCurrent := by
  unfold putRegion
  split <;> rfl

theorem settles_rests : Settles Rests where
  reports s es := ⟨upholds_tidy.reports s es, rfl⟩
  region _ _ _ h _ := after_onRegion fun hi => (h _).mono fun _ _ hr =>
    ⟨fun T => T.of_settled hi hr, isCurrent_putRegion⟩

theorem not_isCurrent {kind : AllocKind} (h : s.isCurrent i = false) : s.current kind ≠ some i := by
  intro hc
  simp only [isCurrent, Bool.or_eq_false_iff, beq_eq_false_iff_ne] at h
  cases kind with
  | evacuation => exact h.2 hc
  | tlab | shared => exact h.1 hc

/-- A region from which no allocation comes is relocated. -/
theorem rests_relocate (hi : s.isCurrent i = false) :
    After (onRegion i (Region.transition .marked .relocating)) s fun _ s' => Rests s s' := by
  refine after_onRegion fun hmax => Region.after_move.mono ?_
  rintro _ _ ⟨hr, rfl⟩
  refine ⟨fun T => ?_, isCurrent_putRegion⟩
  have R := T.region i
  have hmarked : (s.regionAt i).state = .marked := hr
  refine T.putRegion hmax ⟨R.pos, R.bottom_le, R.top_le, R.limit_eq, (by simp)⟩ (fun hle => ?_)
    fun kind hc => absurd hc (not_isCurrent hi)
  cases hmarked.symm.trans (T.uncommitted i hle)

/-- A relocated region is emptied. -/
theorem tidy_recycleRegion : Keeps (fun x y : RegionSpace × Memory => StaysTidy x.1 y.1) (recycle i) := by
  intro x
  refine after_recycled.mono ?_
  rintro _ ⟨_, m⟩ ⟨hi, r, n, hr, rfl⟩ T
  have R := T.region i
  have hrelocating : (x.1.regionAt i).state = .relocating := hr.relocating
  have T' : (x.1.putRegion i r).Tidy := by
    refine T.putRegion hi ⟨?_, ?_, ?_, ?_, fun _ => ?_⟩ (fun _ => hr.empty)
      fun kind hc => absurd hrelocating (T.current kind i hc).2
    all_goals rw [hr.space]
    · exact R.pos
    · exact Nat.le_trans R.bottom_le R.top_le
    · exact R.limit_eq
  exact { T' with region := T'.region }

end

end RegionSpace

namespace RegionHeap

open RegionSpace

variable {h : RegionHeap} {i n : Nat}

theorem rests_endMarking : After (endMarking i) h fun c h' => Regional Rests h h' ∧
    ∀ x, c = some x → h'.space.isCurrent x.index = false := by
  refine keeps_getRegion.after fun r h₁ (H₁ : Regional Rests h h₁) => ?_
  rw [after_ite]
  refine ⟨fun _ => ?_, fun _ => after_pure.2 ⟨H₁, (by simp)⟩⟩
  have hmark : Keeps (Regional Rests) (onRegion i (Region.transition .allocating .marked)) :=
    settles_rests.keeps_onRegion (Region.settled_transition (by decide) (by decide) (by decide))
  refine hmark.after fun _ h₂ H₂ => ?_
  have H := trans_of (Regional Rests) H₁ H₂
  rw [after_bind, after_get, after_ite]
  refine ⟨fun hc => ?_, fun _ => after_pure.2 ⟨H, (by simp)⟩⟩
  simp only [after_bind, after_lift, after_pure]
  refine fun _ _ _ _ => ⟨H, fun x hx => ?_⟩
  cases hx
  simp only [Bool.and_eq_true, Bool.not_eq_true'] at hc
  exact hc.1

theorem rests_each {chosen : List Nat} (hchosen : ∀ i ∈ chosen, h.space.isCurrent i = false) :
    After (Action.each chosen fun i => onRegion i (Region.transition .marked .relocating)) h
      fun _ h' => Regional Rests h h' := by
  induction chosen generalizing h with
  | nil => exact after_pure.2 (refl_of (Regional Rests) h)
  | cons i rest ih =>
    rw [Action.each, after_bind, RegionHeap.onRegion, onSpace, after_onPart]
    refine (rests_relocate (hchosen i List.mem_cons_self)).mono fun _ s hs => ?_
    have H : Regional Rests h (putSpace s h) :=
      ⟨trans_of Rests hs (settles_rests.reports s _), rfl, rfl, rfl⟩
    refine (ih fun j hj => ?_).mono fun _ h' H' => trans_of (Regional Rests) H H'
    rw [H.regions.isCurrent]
    exact hchosen j (List.mem_cons_of_mem i hj)

theorem rests_candidatesFrom : After (candidatesFrom i n) h fun cs h' => Regional Rests h h' ∧
    ∀ x ∈ cs, h'.space.isCurrent x.index = false := by
  induction n generalizing h i with
  | zero => exact after_pure.2 ⟨refl_of (Regional Rests) h, (by simp)⟩
  | succ n ih =>
    rw [candidatesFrom, after_bind]
    refine rests_endMarking.mono ?_
    rintro c h₁ ⟨H₁, hc⟩
    rw [after_bind]
    refine ih.mono ?_
    rintro cs h₂ ⟨H₂, hcs⟩
    refine after_pure.2 ⟨trans_of (Regional Rests) H₁ H₂, ?_⟩
    intro x hx
    rcases List.mem_append.1 hx with hx | hx
    · rw [H₂.regions.isCurrent]
      exact hc x (Option.mem_toList.1 hx)
    · exact hcs x hx

/-- **No region from which allocations come is chosen.** -/
theorem rests_chooseRegions : Keeps (Regional Rests) chooseRegions := by
  intro h
  rw [chooseRegions, after_bind, after_get, after_bind]
  refine rests_candidatesFrom.mono ?_
  rintro cs h₁ ⟨H₁, hcs⟩
  rw [after_bind, after_get]
  have hchosen (i : Nat) (hi : i ∈ CyclePolicy.choose h₁.core.options h₁.status cs) :
      h₁.space.isCurrent i = false := by
    obtain ⟨x, hx, rfl⟩ := List.mem_map.1 ((CyclePolicy.choose_subperm _ _ cs).subset hi)
    exact hcs x hx
  generalize CyclePolicy.choose h₁.core.options h₁.status cs = chosen at hchosen
  rw [after_bind]
  refine (rests_each hchosen).mono fun _ h₂ H₂ => ?_
  refine settles_rests.keeps_releaseAll.after fun _ h₃ H₃ => ?_
  refine keeps_garbageOf.after fun _ h₄ (H₄ : Regional Rests h₃ h₄) => ?_
  refine Keeps.after Upholds.keeps_note fun _ h₅ (H₅ : Regional Rests h₄ h₅) => after_pure.2 ?_
  exact trans_of (Regional Rests) (trans_of (Regional Rests) (trans_of (Regional Rests) H₁ H₂)
    (trans_of (Regional Rests) H₃ H₄)) H₅

theorem tidy_chooseRegions : Keeps (Regional StaysTidy) chooseRegions :=
  fun h => (rests_chooseRegions h).mono fun _ _ H => { H with regions := H.regions.tidy }

theorem tidy_recycle : Keeps (Regional StaysTidy) RegionHeap.recycle :=
  upholds_tidy.toSettles.keeps_recycle fun _ => tidy_recycleRegion.onPart fun _ _ hT =>
    ⟨trans_of StaysTidy hT (upholds_tidy.reports _ _), rfl, rfl, rfl⟩

/-- **The steps of a cycle keep the regions tidy**, in whatever order. -/
theorem tidy_step (c : CycleStep) : Keeps (Regional StaysTidy) c.run := by
  have U := upholds_tidy
  cases c with
  | initMark => exact U.keeps_initMark
  | concurrentMark => exact U.keeps_concurrentMark
  | finalMark => exact U.keeps_finalMark tidy_chooseRegions
  | evacuate => exact U.keeps_evacuate.bind fun _ => keeps_pure
  | updateRefs => exact Upholds.keeps_updateRefs.bind fun _ => keeps_pure
  | recycle => exact tidy_recycle.bind fun _ => keeps_pure

/-- A whole cycle keeps the regions tidy. -/
theorem tidy_cycle : Keeps (Regional StaysTidy) cycle := by
  have U := upholds_tidy
  have hrelocate : Keeps (Regional StaysTidy) relocate :=
    U.keeps_evacuate.bind fun _ => Upholds.keeps_updateRefs.bind fun _ => tidy_recycle
  refine U.keeps_initMark.bind fun begun => Keeps.ite keeps_pure ?_
  refine U.keeps_concurrentMark.bind fun done => Keeps.ite keeps_pure ?_
  refine (U.keeps_finalMark tidy_chooseRegions).bind fun found => Keeps.ite ?_ ?_
  · exact keeps_get.bind fun _ => keeps_pure
  · exact hrelocate.bind fun _ => keeps_pure

/-- The marks of written regions are taken. -/
theorem tidy_takeDirty : Keeps (Regional StaysTidy) (onSpace RegionSpace.takeDirty) := by
  refine regional_onSpace upholds_tidy.toSettles (keeps_get.bind fun s => ?_)
  refine (keeps_each fun i => ?_).bind fun _ => keeps_pure
  refine Keeps.bind (fun s => after_onRegion fun hi => ?_) fun _ => keeps_pure
  rw [Region.takeDirty, after_bind, after_get, after_bind, after_set, after_pure]
  intro T
  have R := T.region i
  exact T.putRegion hi ⟨R.pos, R.bottom_le, R.top_le, R.limit_eq, R.empty⟩ (T.uncommitted i)
    (T.current · i)

end RegionHeap

/-! ## 5. Requests in any order -/

/-- What a relocating heap is asked for. -/
inductive RegionRequest where
  /-- What any heap is asked for. -/
  | common (r : Request)
  | step (c : CycleStep)
  | cycle
  | cancel
  | takeDirty
  deriving DecidableEq, Repr

/-- Serve a request. -/
def RegionRequest.run : RegionRequest → Action RegionHeap Answer
  | common r => r.run
  | step c => do return .flag (← c.run)
  | cycle => do return .flag (← RegionHeap.cycle)
  | cancel => do return .flag (← RegionHeap.cancel)
  | takeDirty => do
    let _ ← RegionHeap.onSpace RegionSpace.takeDirty
    return .done

namespace RegionHeap

open RegionSpace

variable {α : Type} {h h' : RegionHeap} {c c₀ : Controller} {cause : Cause} {e : Event}

/-- Unless a cycle has failed, the regions stay tidy and the settings are as they were.  A failed
check in a cycle ends the controller that runs it, half way. -/
def Serves (h h' : RegionHeap) : Prop := h'.isStopped = false → Regional StaysTidy h h'

instance : IsPreorder RegionHeap Serves where
  refl h _ := refl_of (Regional StaysTidy) h
  trans _ _ _ S S' hs :=
    have R' := S' hs
    trans_of (Regional StaysTidy) (S (R'.isStopped.symm.trans hs)) R'

theorem serves_of_keeps {act : Action RegionHeap α} (h : Keeps (Regional StaysTidy) act) :
    Keeps Serves act := fun s => (h s).mono fun _ _ R _ => R

theorem serves_note : Keeps Serves (note e) := serves_of_keeps Upholds.keeps_note

/-- The controller goes on. -/
theorem serves_setController (hc : h.controller = some c₀) (hs : c.stopped = false → c₀.stopped = false) :
    After (setController c) h fun _ h' => Serves h h' ∧ h'.controller = some c := by
  rw [setController, after_modify]
  refine ⟨fun hrun => regional_of_eq ?_, rfl⟩
  have hrun : c.stopped = false := hrun
  simp [base, isStopped, hc, hs hrun, hrun]

theorem serves_begin (hc : h.controller = some c₀) (hs : c.stopped = false → c₀.stopped = false) :
    After (begin cause c) h fun _ h' => Serves h h' := by
  rw [begin, after_bind]
  refine (serves_setController (c := { c with busy := true }) hc hs).mono fun _ h₁ S₁ => ?_
  exact (serves_note h₁).mono fun _ _ S₂ => trans_of Serves S₁.1 S₂

theorem serves_takeUp : Keeps Serves takeUp := by
  refine keeps_get_bind fun h => ?_
  split
  · rename_i c hc
    split
    · rw [after_ite]
      exact ⟨fun _ => serves_begin hc id, fun _ => keeps_pure h⟩
    · exact keeps_pure h
  · exact keeps_pure h

/-- A cycle that does not fail. -/
theorem after_survives :
    After survives h fun b h' => b = true → Regional StaysTidy h h' := by
  intro b h' hb
  unfold survives at hb
  split at hb
  · rename_i a h₁ hrun
    rcases hb with ⟨⟩
    exact fun _ => tidy_cycle h a _ hrun
  · cases hb
    simp
  · cases hb

/-- **The controller goes on with a cycle**, and it is stopped if the cycle fails. -/
theorem serves_proceed : Keeps Serves proceed := by
  refine keeps_get_bind fun h => ?_
  split
  swap
  · exact keeps_pure h
  rename_i c hc
  rw [after_ite]
  refine ⟨fun _ => ?_, fun _ => keeps_pure h⟩
  rw [after_bind]
  refine (serves_setController (c := { c with busy := false }) hc id).mono fun _ h₁ S₁ => ?_
  rw [after_bind]
  refine after_survives.mono fun b h₂ hb => ?_
  rw [after_ite]
  constructor
  · intro _
    rw [setController, after_modify]
    exact fun hrun => by cases hrun
  · intro hfine
    simp only [Bool.not_eq_true', Bool.not_eq_false] at hfine
    exact after_pure.2 (trans_of Serves S₁.1 fun _ => hb hfine)

theorem serves_settle : Keeps Serves settle :=
  serves_proceed.bind fun _ => serves_takeUp.bind fun _ => serves_proceed

theorem serves_collect : Keeps Serves (collect cause) := by
  have hrun : Keeps Serves (runCycle cause) := serves_settle.bind fun _ => serves_note.bind fun _ =>
    serves_of_keeps tidy_cycle
  have hserve : Keeps Serves (serve cause) := by
    refine keeps_get_bind fun h => ?_
    split
    swap
    · exact keeps_pure h
    rename_i c hc
    rw [after_ite]
    refine ⟨fun _ => ?_, fun _ => keeps_pure h⟩
    rw [after_bind]
    exact (serves_begin hc id).mono fun _ h₁ S₁ => (serves_proceed h₁).mono fun _ _ S₂ =>
      trans_of Serves S₁ S₂
  refine keeps_get.bind fun h => ?_
  cases h.controller with
  | none => exact hrun.bind fun _ => keeps_pure
  | some c => exact Keeps.ite serves_note (serves_settle.bind fun _ => hserve)

theorem serves_verify : Keeps Serves verify := by
  have hidle : Keeps Serves verifyIdle := keeps_get.bind fun _ => Keeps.ite keeps_pure
    (Keeps.bind (keeps_onPart fun _ _ _ => regional_of_eq rfl) fun _ => keeps_lift)
  refine keeps_get.bind fun h => keeps_lift.bind fun x => ?_
  cases x with
  | error e => exact keeps_pure
  | ok u =>
    refine Keeps.ite keeps_pure (Keeps.ite (hidle.bind fun d => ?_) keeps_pure)
    cases d with
    | none => exact keeps_pure
    | some d => exact keeps_pure

theorem serves_cancel : Keeps Serves cancel := by
  refine keeps_get_bind fun h => ?_
  rw [after_ite]
  constructor
  · intro _
    rw [after_bind, after_set, after_bind]
    exact (serves_note _).mono fun _ h₁ S => after_pure.2 fun hs => (S hs).of_base rfl
  · intro _
    rw [after_bind]
    exact (serves_note h).mono fun _ h₁ S => after_pure.2 S

/-- **What the heap is asked for keeps its regions tidy**, unless a cycle fails. -/
theorem sustains_serves : Heap.Sustains RegionHeap Serves :=
  have U := upholds_tidy.heap
  { memory := fun h m _ => U.memory h m
    roots := fun h r m _ => U.roots h r m
    mutators := fun h x _ => U.mutators h x
    safepoint := fun h s _ => U.safepoint h s
    allocate := fun n => serves_of_keeps (U.allocate n)
    allocateTlab := fun z n => serves_of_keeps (U.allocateTlab z n)
    retireTlab := fun a => serves_of_keeps (U.retireTlab a)
    postAlloc := fun o => serves_of_keeps (U.postAlloc o)
    registerBuffer := serves_of_keeps U.registerBuffer
    dropBuffer := fun b => serves_of_keeps (U.dropBuffer b)
    flush := fun b => serves_of_keeps (U.flush b)
    writePre := fun b slot => serves_of_keeps (U.writePre b slot)
    writePost := fun slot => serves_of_keeps (U.writePost slot)
    load := fun slot v => serves_of_keeps (U.load slot v)
    exchange := fun b slot v w => serves_of_keeps (U.exchange b slot v w)
    copyPre := fun b range => serves_of_keeps (U.copyPre b range)
    copyPost := fun range => serves_of_keeps (U.copyPost range)
    clonePre := fun o => serves_of_keeps (U.clonePre o)
    journal := fun _ _ _ => regional_of_eq rfl
    clock := fun _ _ _ => regional_of_eq rfl
    collect := fun _ => serves_collect
    idle := serves_takeUp
    verify := serves_verify }

end RegionHeap

/-- **No request disturbs the regions.** -/
theorem RegionRequest.serves_run (r : RegionRequest) : Keeps RegionHeap.Serves r.run := by
  open RegionHeap in
  cases r with
  | common r => exact sustains_serves.keeps_request r
  | step c => exact (serves_of_keeps (tidy_step c)).bind fun _ => keeps_pure
  | cycle => exact (serves_of_keeps tidy_cycle).bind fun _ => keeps_pure
  | cancel => exact serves_cancel.bind fun _ => keeps_pure
  | takeDirty => exact (serves_of_keeps tidy_takeDirty).bind fun _ => keeps_pure

end ManagedHeap
