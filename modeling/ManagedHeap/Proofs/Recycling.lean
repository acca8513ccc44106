/-
# The end of a cycle

When no reference to an older copy is left, the regions that were relocated are emptied.  Where some
object found no room elsewhere, the region is kept with the objects that stayed, and loses those
that were moved.  Either way a region ends with fewer objects than it had, none of which was moved,
and memory changes to zero in places that no object of the program is in.  `Settles` says this, and
it is enough for the invariant.

* Section 1: a region is settled.
* Section 2: the two ways to settle one.
* Section 3: the last step of a cycle settles all of them.
-/
import ManagedHeap.Proofs.Relocation

namespace ManagedHeap

/-! ## 1. A region that is settled -/

namespace HeapView

/-- The view with a region and the memory replaced, and what the region lost no longer counted. -/
def settled (V : HeapView) (m : Memory) (i : Nat) (r : RegionView) : HeapView :=
  { ({ V with memory := m }).setRegion i r with used := V.used - ((V.region i).top - r.top) }

/-- A relocated region may be replaced by `r`, and memory by `m`. -/
structure Settles (V : HeapView) (W : World) (m : Memory) (i : Nat) (r : RegionView) : Prop where
  relocating : (V.region i).state = .relocating
  ok : V.RegionOk i r
  state : r.state ≠ .marked ∧ r.state ≠ .relocating
  extent : r.top = (V.region i).top ∨ (r.top = r.bottom ∧ r.state = .empty)
  freed : (V.region i).evacFailed = false → r.state = .empty
  activeTlabs : r.activeTlabs = (V.region i).activeTlabs
  starts : ∀ {o}, r.starts.Has o → (V.region i).starts.Has o
  below : ∀ {o}, r.starts.Has o → o + Object.size V.memory o ≤ r.top
  kept : ∀ {o}, o ∈ W.objects → V.index o = i → r.starts.Has o
  stayed : ∀ {o c}, r.starts.Has o → ¬ V.Moved W o c
  live : ∀ {o}, r.starts.Has o → r.markLimit ≤ o ∨ r.marks.Has o → V.Live o
  status : ∀ {o}, r.starts.Has o → m.read o = 0
  contents : ∀ {o b}, r.starts.Has o → o < b → b < o + Object.size V.memory o →
    m.read b = V.memory.read b
  clear : ∀ {b}, r.top ≤ b → b < r.limit → m.read b = 0
  outside : ∀ {b}, b < (V.region i).bottom ∨ (V.region i).limit ≤ b →
    m.read b = V.memory.read b
  tally : r.state = .empty ∨ r = { V.region i with
    state := r.state, starts := r.starts, evacFailed := r.evacFailed }
  rest : r.state ≠ .empty → ∀ {b}, ¬ V.Published b → m.read b = V.memory.read b

section
variable {V : HeapView} {W : World} {m : Memory} {i o : Nat} {r : RegionView}

/-- Nothing is lost where the top stays. -/
theorem settled_of_top (h : r.top = (V.region i).top) :
    V.settled m i r = ({ V with memory := m }).setRegion i r := by
  simp only [settled, h, Nat.sub_self, Nat.sub_zero]
  rfl

theorem published_settled : (V.settled m i r).Published o ↔
    if V.index o = i then r.starts.Has o else V.Published o := by
  show (if V.index o = i then r else V.region (V.index o)).starts.Has o ↔ _
  split <;> rfl

theorem Settles.published (S : V.Settles W m i r) (h : (V.settled m i r).Published o) :
    V.Published o := by
  rw [published_settled] at h
  split at h
  · rename_i he
    subst he
    exact S.starts h
  · exact h

/-- Memory of other regions is as before. -/
theorem Settles.elsewhere (S : V.Settles W m i r) (L : V.Layout) {b : Nat} (h : V.index b ≠ i) :
    m.read b = V.memory.read b := by
  refine S.outside ?_
  rw [(L.regions i).limit_eq, (L.regions i).bottom_eq]
  by_contra hin
  exact h (index_eq (by omega) (by omega))

/-- What an object that is left holds, but for its status, is as before. -/
theorem Settles.holds (S : V.Settles W m i r) (L : V.Layout)
    (h : (V.settled m i r).Published o) {b : Nat} (hb : o < b)
    (hlt : b < o + Object.size V.memory o) : m.read b = V.memory.read b := by
  by_cases hi : V.index o = i
  · rw [published_settled, if_pos hi] at h
    exact S.contents h hb hlt
  · exact S.elsewhere L (L.index_inside (S.published h) (Nat.le_of_lt hb) hlt ▸ hi)

theorem Settles.shape (S : V.Settles W m i r) (L : V.Layout)
    (h : (V.settled m i r).Published o) : m.read (o + 8) = V.memory.read (o + 8) := by
  have := (L.objects.fits (S.published h)).fields_le
  exact S.holds L h (by omega) (by omega)

theorem Settles.size (S : V.Settles W m i r) (L : V.Layout)
    (h : (V.settled m i r).Published o) : Object.size m o = Object.size V.memory o := by
  simp only [Object.size, wordBytes, S.shape L h]

/-- The region counts no buffer, for it was relocated. -/
theorem Settles.tlabCount (S : V.Settles W m i r) (L : V.Layout) : V.tlabCount i = 0 := by
  have h := L.tlabs.counted i
  rw [(L.regions i).relocating S.relocating] at h
  exact Nat.le_zero.1 h

/-- A buffer is in another region. -/
theorem Settles.tlab (S : V.Settles W m i r) (L : V.Layout) {n : Nat} {t : Mutator}
    (hm : V.mutator? n = some t) (h0 : t.tlab.start ≠ 0) : V.index t.tlab.start ≠ i := by
  rintro rfl
  exact (L.tlab_region hm h0).2.2 S.relocating

/-- What is free was free before and is in another region, or is in the region and zero. -/
theorem Settles.spare (S : V.Settles W m i r) (L : V.Layout) {b : Nat}
    (hb : (V.settled m i r).Spare b) : m.read b = 0 := by
  rcases hb with ⟨j, hj, hle, hlt⟩ | ⟨n, t, hm, hle, hlt⟩
  · by_cases he : j = i
    · subst he
      simp only [settled, setRegion_region_self] at hle hlt
      exact S.clear hle hlt
    · have hreg : (V.settled m i r).region j = V.region j := if_neg he
      rw [hreg] at hle hlt
      have hr := L.regions j
      have hj' : V.index b = j := by
        have h1 := hr.bottom_le
        have h2 := hr.markLimit_le
        have h3 := hr.bottom_eq
        have h4 := hr.limit_eq
        exact index_eq (by omega) (by omega)
      rw [S.elsewhere L (hj' ▸ he), L.spare b (.inl ⟨j, hj, hle, hlt⟩)]
  · have h0 : t.tlab.start ≠ 0 := fun h0 => by
      have := (L.tlabs.none hm h0).2
      omega
    have hle' := Nat.le_trans (L.tlabs.ok hm h0).start_le hle
    have hi : V.index b ≠ i := L.tlab_index hm h0 hle' hlt ▸ S.tlab L hm h0
    rw [S.elsewhere L hi, L.spare b (.inr ⟨n, t, hm, hle, hlt⟩)]

/-- **The layout of a heap in which a region was settled.** -/
theorem Settles.layout (S : V.Settles W m i r) (L : V.Layout) : (V.settled m i r).Layout := by
  have hpub {o : Nat} (h : (V.settled m i r).Published o) := S.published h
  have hsize {o : Nat} (h : (V.settled m i r).Published o) := S.size L h
  have hbelow {o : Nat} (h : (V.settled m i r).Published o) :
      o + Object.size m o ≤ ((V.settled m i r).regionOf o).top := by
    rw [hsize h]
    show _ ≤ (if V.index o = i then r else V.region (V.index o)).top
    by_cases hi : V.index o = i
    · rw [if_pos hi]
      rw [published_settled, if_pos hi] at h
      exact S.below h
    · rw [if_neg hi]
      exact L.objects.below (hpub h)
  have htop {j : Nat} (hj : j ≠ i) : (V.settled m i r).region j = V.region j := if_neg hj
  have hne (j : Nat) (hj : (V.region j).InUse) : (V.settled m i r).region j = V.region j :=
    htop fun he => hj.2 (he ▸ S.relocating)
  refine ⟨{ L.geometry with }, fun j => ?_, fun j hj => ?_, fun j hj => ?_, ⟨?_, hbelow, ?_⟩,
    ⟨?_, L.tlabs.none, ?_, L.tlabs.apart, L.tlabs.sizing, fun j => ?_⟩,
    fun b hb => S.spare L hb, { L.buffers with }, L.roots⟩
  · show RegionOk _ j (if j = i then r else V.region j)
    split
    · rename_i hj
      subst hj
      exact { S.ok with }
    · exact { L.regions j with }
  · rw [hne j (L.mutatorRegion j hj)]
    exact L.mutatorRegion j hj
  · rw [hne j (L.evacRegion j hj)]
    exact L.evacRegion j hj
  · exact fun h => (L.objects.fits (hpub h)).congr (S.shape L h)
  · intro o o' h h' hlt
    show o + Object.size m o ≤ o'
    rw [hsize h]
    exact L.objects.apart (hpub h) (hpub h') hlt
  · intro n t hm h0
    have ht := L.tlabs.ok hm h0
    refine { ht with below := ?_ }
    show _ ≤ ((V.settled m i r).region (V.index t.tlab.start)).top
    rw [htop (S.tlab L hm h0)]
    exact ht.below
  · intro n t o hm h
    show t.tlab.Apart o (Object.size m o)
    rw [hsize h]
    exact L.tlabs.objects hm (hpub h)
  · show V.tlabCount j ≤ (if j = i then r else V.region j).activeTlabs
    split
    · rename_i hj
      rw [hj, S.tlabCount L]
      exact Nat.zero_le _
    · exact L.tlabs.counted j

/-- **The objects of the program are those they were.** -/
theorem Settles.faithful (S : V.Settles W m i r) (L : V.Layout) (F : V.Faithful W .updated)
    (hloose : W.loose = ∅) : (V.settled m i r).Faithful W .updated := by
  let V' := V.settled m i r
  have hmem {o : Nat} (h : o ∈ W.objects) : V'.Published o := by
    rw [published_settled]
    split
    · rename_i hi
      exact S.kept h hi
    · exact F.published h
  have hcount {o : Nat} (h : o ∈ W.objects) :
      Object.refCount m o = Object.refCount V.memory o := by
    simp only [Object.refCount, wordBytes, S.shape L (hmem h)]
  have hbytes {o : Nat} (h : o ∈ W.objects) :
      Object.payloadBytes m o = Object.payloadBytes V.memory o := by
    simp only [Object.payloadBytes, hcount h, S.size L (hmem h)]
  have hregion {o : Nat} (h : V'.Relocating o) :
      V.index o ≠ i ∧ V'.regionOf o = V.regionOf o := by
    have hi : V.index o ≠ i := fun he => by
      have h' : (if V.index o = i then r else V.region (V.index o)).state = .relocating := h
      rw [if_pos he] at h'
      exact S.state.2 h'
    exact ⟨hi, if_neg hi⟩
  have hrelocating {o : Nat} (h : V'.Relocating o) : V.Relocating o := by
    rw [HeapView.Relocating, ← (hregion h).2]
    exact h
  have hcurrent {v : Nat} (h : V.Current W v) : V'.Current W v := by
    refine ⟨h.1, fun hr => ?_⟩
    show m.read v = _
    rw [S.elsewhere L (hregion hr).1]
    exact h.2 (hrelocating hr)
  -- An object that was moved is no object of the region any more.
  have hmoved {o c : Nat} (h : V.Moved W o c) (hp : V'.Published o) : V'.Moved W o c := by
    have hi : V.index o ≠ i := fun hi => by
      rw [published_settled, if_pos hi] at hp
      exact S.stayed hp h
    refine { h with published := hp, relocating := ?_, status := ?_, settled := ?_ }
    · show (if V.index o = i then r else V.region (V.index o)).state = _
      rw [if_neg hi]
      exact h.relocating
    · show m.read o = _
      rw [S.elsewhere L hi]
      exact h.status
    · exact fun hr => h.settled (hrelocating hr)
  have hrefers {o : Nat} (h : V.Refers W o) (hp : V'.Published o) : V'.Refers W o :=
    h.imp_right (Exists.imp fun _ h => hmoved h hp)
  have hlive {o : Nat} (h : V'.Live o) (hp : V'.Published o) : V.Live o := by
    have h' : (if V.index o = i then r else V.region (V.index o)).markLimit ≤ o ∨
      (if V.index o = i then r else V.region (V.index o)).marks.Has o := h
    rw [published_settled] at hp
    split at hp
    · rename_i hi
      simp only [if_pos hi] at h'
      exact S.live hp h'
    · rename_i hi
      simp only [if_neg hi] at h'
      exact h'
  refine { F with
    published := hmem
    refs := fun h => (hcount h).trans (F.refs h)
    bytes := fun h => (hbytes h).trans (F.bytes h)
    fields := fun {o k} ho hk => ?_
    words := fun {o k} ho hk hle => ?_
    roots := fun {c} hc hl => ?_
    status := fun {o} hp => ?_
    excused := fun {j} hk => ?_
    states := fun j => ⟨?_, fun h => by cases h⟩
    survivors := fun _ {o} hp hl => hrefers (F.survivors (by decide) (S.published hp) (hlive hl hp)) hp
    live := fun _ {o} ho hr => ?_
    copied := fun _ {o} ho hr => ?_
    unrecorded := F.unrecorded }
  · replace hk : k < Object.refCount V.memory o := hcount ho ▸ hk
    have hin := L.field_inside (F.published ho) hk
    obtain ⟨h1, h2⟩ := F.fields ho hk
    show FieldOk _ W .updated o (m.read (Object.field o k)) ∧ _
    rw [show V'.memory = m from rfl, S.holds L (hmem ho) (by omega) (by omega)]
    refine ⟨h1.imp_right (Or.imp hcurrent fun h => ?_), h2⟩
    rw [hloose] at h
    exact h.2.elim (fun h => by cases h.1) fun h => absurd h (Set.notMem_empty _)
  · replace hle : k + 8 ≤ Object.payloadBytes V.memory o := hbytes ho ▸ hle
    have hin := L.payload_inside (F.published ho) hle
    show m.read (o + 16 + 8 * Object.refCount m o + k) = _
    rw [hcount ho, S.holds L (hmem ho) (by omega) (by omega)]
    exact F.words ho hk hle
  · have hslot : m.read c.slot = V.memory.read c.slot := by
      have hlimit := (L.regions i).limit_eq
      have hbottom := (L.regions i).bottom_eq
      have hge := L.slot_ge hc
      have hle := L.geometry.boundary_le
      have heq := L.geometry.boundary_eq
      have hmul := Nat.mul_le_mul_right V.regionSize
        (Nat.succ_le_of_lt (L.lt_maxRegions (i := i) (by rw [S.relocating]; simp)))
      rw [Nat.succ_mul] at hmul
      exact S.outside (.inr (by omega))
    show RootOk _ W .updated (m.read c.slot) ∧ W.name (m.read c.slot) = _
    rw [hslot]
    obtain ⟨h1, h2⟩ := F.roots hc hl
    exact ⟨h1.imp_right (Or.imp hcurrent fun h => by cases h.1), h2⟩
  · have hp' := hp
    rw [published_settled] at hp'
    split at hp'
    · exact .inl (S.status hp')
    · rename_i hi
      have hreg : V'.regionOf o = V.regionOf o := if_neg hi
      rw [Relocating, Kept, hreg, show V'.memory.read o = V.memory.read o from S.elsewhere L hi]
      exact (F.status (S.published hp)).imp_right (.imp_right (Exists.imp fun _ h => hmoved h hp))
  · replace hk : (if j = i then r else V.region j).evacFailed = true := hk
    split at hk
    · exact absurd (S.ok.kept hk) S.state.2
    · rename_i hj
      obtain ⟨o, ho, hi, hs⟩ := F.excused hk
      exact ⟨o, ho, hi, (S.elsewhere L (hi ▸ hj)).trans hs⟩
  · show (if j = i then r else V.region j).state ≠ _
    split
    · exact S.state.1
    · exact (F.states j).1
  · have hl := F.live rfl ho (hrelocating hr)
    rw [Live, (hregion hr).2]
    exact hl
  · show m.read o = _
    rw [S.elsewhere L (hregion hr).1]
    exact F.copied (.inr rfl) ho (hrelocating hr)

theorem Settles.inv (S : V.Settles W m i r) (I : V.Inv W .updated []) (hloose : W.loose = ∅) :
    (V.settled m i r).Inv W .updated [] :=
  ⟨S.layout I.layout, S.faithful I.layout I.faithful hloose, fun h => by cases h⟩

end

end HeapView

/-! ## 2. The two ways to settle a region -/

namespace RegionHeap

open HeapView

section
variable {h : RegionHeap} {W : World} {i : Nat}

/-- An action on one region and the memory. -/
theorem ends_onRegionAndMemory {α : Type} {act : Action (Region × Memory) α}
    {p : α → RegionView → Memory → Prop} (hi : i < h.view.maxRegions)
    (hact : Ends act (h.regionAt i, h.view.memory) fun a x => p a x.1.view x.2) :
    Ends (onRegionAndMemory i act) h fun a h' =>
      ∃ r m, p a r m ∧ h'.view = ({ h.view with memory := m }).setRegion i r := by
  simp only [onRegionAndMemory, ends_bind]
  rw [ends_getRegion hi, ends_onPart]
  refine hact.mono fun a x hp => ⟨x.1.view, x.2, hp, ?_⟩
  exact view_putRegion (s := h.space) (h := { h with core := { h.core with memory := x.2 } }) hi

/-- What the loop over the objects of a kept region has done to the region and to memory. -/
structure Settling (h : RegionHeap) (W : World) (i : Nat) (done : List Nat)
    (x : Region × Memory) : Prop where
  view : x.1.view = { h.view.region i with starts := x.1.starts }
  fits : x.1.starts.Fits (h.view.region i).bottom h.view.regionSize
  starts : ∀ p, x.1.starts.Has p ↔
    (h.view.region i).starts.Has p ∧ (p ∈ done → ∀ c, ¬ h.view.Moved W p c)
  memory : ∀ b, x.2.read b = h.view.memory.read b ∨
    (x.2.read b = 0 ∧ b ∈ done ∧ b ∈ W.objects)
  status : ∀ p ∈ done, x.1.starts.Has p → x.2.read p = 0

theorem ends_settle (I : h.view.Inv W .updated []) {done : List Nat} {o : Nat}
    {x : Region × Memory} (S : Settling h W i done x)
    (ho : h.view.Published o) (hi : h.view.index o = i) :
    Ends (Region.settle o) x fun _ x' => Settling h W i (done ++ [o]) x' := by
  have F := I.faithful
  have L := I.layout
  have hdone {p : Nat} (hp : p ∈ done ++ [o]) : p ∈ done ∨ p = o :=
    (List.mem_append.1 hp).imp_right List.mem_singleton.1
  have hmemory {m : Memory} (hm : ∀ b, m.read b = x.2.read b ∨ (m.read b = 0 ∧ b = o ∧
      b ∈ W.objects)) (b : Nat) : m.read b = h.view.memory.read b ∨
      (m.read b = 0 ∧ b ∈ done ++ [o] ∧ b ∈ W.objects) := by
    rcases hm b with hb | ⟨hb, rfl, hW⟩
    · rw [hb]
      exact (S.memory b).imp_right (.imp_right (.imp_left (List.mem_append_left _)))
    · exact .inr ⟨hb, List.mem_append_right _ List.mem_cons_self, hW⟩
  -- Nothing happens to the region when the object was not moved.
  have hstay {m : Memory} (hm : ∀ b, m.read b = x.2.read b ∨ (m.read b = 0 ∧ b = o ∧
      b ∈ W.objects)) (h0 : m.read o = 0) (hnot : ∀ c, ¬ h.view.Moved W o c) :
      Settling h W i (done ++ [o]) (x.1, m) := by
    refine ⟨S.view, S.fits, fun p => ?_, hmemory hm, fun p hp hs => ?_⟩
    · rw [S.starts p]
      refine and_congr_right fun _ => ⟨fun hp hd => ?_, fun hp hd => ?_⟩
      · rcases hdone hd with hd | rfl
        · exact hp hd
        · exact hnot
      · exact hp (List.mem_append_left _ hd)
    · rcases hdone hp with hd | rfl
      · rcases hm p with hb | ⟨hb, -⟩
        · rw [hb]
          exact S.status p hd hs
        · exact hb
      · exact h0
  have hsame (b : Nat) : x.2.read b = x.2.read b ∨ (x.2.read b = 0 ∧ b = o ∧ b ∈ W.objects) :=
    .inl rfl
  have hzero (h0 : x.2.read o = 0) (hnot : ∀ c, ¬ h.view.Moved W o c) :
      Ends (Region.settle o) x fun _ x' => Settling h W i (done ++ [o]) x' := by
    simp only [Region.settle, ends_bind, ends_get, Object.forwardee?_of_zero h0, ends_pure]
    exact hstay hsame h0 hnot
  by_cases hx : x.2.read o = 0
  · refine hzero hx fun c hm => ?_
    rcases S.memory o with hb | ⟨-, -, hW⟩
    · rw [hb, hm.status] at hx
      exact Object.tagged_ne_zero hx
    · exact F.not_moved hW hm
  · have hb : x.2.read o = h.view.memory.read o :=
      (S.memory o).resolve_right fun h => hx h.1
    rcases F.status ho with h0 | ⟨-, -, hW, hs⟩ | ⟨c, hm⟩
    · exact absurd (hb.trans h0) hx
    · -- The object found no room, and is no longer forwarded to itself.
      have hfwd := Object.forwardee?_of_tagged (hb.trans hs) (L.bounds ho).aligned
      simp only [Region.settle, ends_bind, ends_get, hfwd, if_true, ends_onSecond,
        Object.clearForwarding, Memory.store, ends_modify]
      refine hstay (fun b => ?_) (Memory.read_write_self _ _ _) fun c => F.not_moved hW
      by_cases he : o = b
      · exact .inr ⟨he ▸ Memory.read_write_self _ _ _, he.symm, he ▸ hW⟩
      · exact .inl (Memory.read_write_of_ne _ he _)
    · -- The object was moved, and is none of this region any more.
      have hfwd := Object.forwardee?_of_tagged (hb.trans hm.status)
        (L.bounds (F.published hm.mem)).aligned
      have hne : c ≠ o := fun he => hm.settled (he ▸ hm.relocating)
      have hbounds := (L.regions i).starts.has_bounds (show (h.view.region i).starts.Has o from
        hi ▸ ho)
      have hal := (L.bounds ho).aligned
      have hcheck := S.fits.checkIndex_eq hbounds.1 hbounds.2 hal L.geometry.size_aligned
      simp only [Region.settle, ends_bind, ends_get, hfwd, hne, if_false, ends_onFirst]
      refine (Region.acts_clearStart (r := x.1.view) hcheck x.1 rfl).mono fun _ r' hr => ?_
      have hstarts : r'.starts = x.1.starts.removing o := congrArg RegionView.starts hr
      refine ⟨?_, ?_, fun p => ?_, hmemory hsame, fun p hp hs => ?_⟩
      · show r'.view = { h.view.region i with starts := r'.starts }
        rw [hr, S.view, hstarts]
      · show r'.starts.Fits _ _
        rw [hstarts]
        exact S.fits.removing
      · show r'.starts.Has p ↔ _
        rw [hstarts, S.fits.has_removing hbounds.1 hal, S.starts p]
        constructor
        · rintro ⟨hpo, hs, hp⟩
          exact ⟨hs, fun hd => hp ((hdone hd).resolve_right hpo)⟩
        · rintro ⟨hs, hp⟩
          refine ⟨fun he => ?_, hs, fun hd => hp (List.mem_append_left _ hd)⟩
          subst he
          exact hp (List.mem_append_right _ List.mem_cons_self) c hm
      · replace hs : r'.starts.Has p := hs
        rw [hstarts, S.fits.has_removing hbounds.1 hal] at hs
        exact S.status p ((hdone hp).resolve_right hs.1) hs.2

/-- **A region of which some object could not be moved** is kept with the objects that stayed. -/
theorem ends_recover (I : h.view.Inv W .updated []) (hrel : (h.view.region i).state = .relocating)
    (hfailed : (h.view.region i).evacFailed = true) :
    Ends Region.recover (h.regionAt i, h.view.memory) fun _ x =>
      h.view.Settles W x.2 i x.1.view ∧ x.1.view.top = (h.view.region i).top := by
  have L := I.layout
  have F := I.faithful
  obtain ⟨l, hl, hmem⟩ := objects_eq L i
  simp only [Region.recover_eq, ends_bind, ends_get, ends_lift, hl]
  refine ⟨l, rfl, (ends_each (fun done _ x => Settling h W i done x)
    ⟨rfl, (L.regions i).starts, fun p => by simp; rfl, fun b => .inl rfl,
      fun p hp => absurd hp List.not_mem_nil⟩ fun done o rest x hsplit S => ?_).mono
    fun _ x S => ?_⟩
  · obtain ⟨ho, hi⟩ := (hmem o).1 (hsplit ▸ List.mem_append_right _ List.mem_cons_self)
    exact ends_settle I S ho hi
  · simp only [ends_onFirst, ends_bind, ends_modify]
    have hR := L.regions i
    have hview : ({ x.1 with evacFailed := false } : Region).view =
        { h.view.region i with starts := x.1.starts, evacFailed := false } := by
      show ({ x.1.view with evacFailed := false } : RegionView) = _
      rw [S.view]
    refine (Region.acts_transition
      (r := { h.view.region i with starts := x.1.starts, evacFailed := false })
      hrel rfl _ hview).mono fun _ r hr => ?_
    rw [hr]
    -- An object that is left was one of the region, and is at its newest address or garbage.
    have hpub {o : Nat} (ho : x.1.starts.Has o) : h.view.Published o ∧ h.view.index o = i := by
      have hs := ((S.starts o).1 ho).1
      have hb := hR.starts.has_bounds hs
      rw [hR.bottom_eq] at hb
      have hidx : h.view.index o = i := index_eq hb.1 hb.2
      exact ⟨show (h.view.region (h.view.index o)).starts.Has o from hidx.symm ▸ hs, hidx⟩
    have hdone {o : Nat} (ho : x.1.starts.Has o) : o ∈ l := (hmem o).2 (hpub ho)
    have hkept {b : Nat} (hb : ∀ o ∈ l, o ≠ b) : x.2.read b = h.view.memory.read b :=
      (S.memory b).resolve_right fun h => hb b h.2.1 rfl
    refine ⟨?_, rfl⟩
    exact
      { relocating := hrel
        extent := .inl rfl
        freed := fun hk => (Bool.false_ne_true (hk.symm.trans hfailed)).elim
        activeTlabs := rfl
        ok := { hR with
          starts := S.fits
          empty := fun h => by cases h
          unmarked := fun h => by cases h
          relocating := fun h => by cases h
          kept := fun h => by cases h
          uncommitted := fun h => by
            have := hR.uncommitted h
            rw [hrel] at this
            cases this }
        state := ⟨by simp, by simp⟩
        starts := fun ho => ((S.starts _).1 ho).1
        below := fun ho => by
          obtain ⟨hp, rfl⟩ := hpub ho
          exact L.objects.below hp
        kept := fun {o} ho hi => by
          subst hi
          exact (S.starts o).2 ⟨F.published ho, fun _ _ => F.not_moved ho⟩
        stayed := fun ho => ((S.starts _).1 ho).2 (hdone ho) _
        live := fun ho hl => by
          obtain ⟨-, rfl⟩ := hpub ho
          exact hl
        status := fun ho => S.status _ (hdone ho) ho
        contents := fun {o b} ho hb hlt => hkept fun p hp he => by
          subst he
          have hp' := ((hmem p).1 hp).1
          have := L.inside_unique (hpub ho).1 hp' (Nat.le_of_lt hb) hlt (Nat.le_refl _)
            (Nat.lt_add_of_pos_right (by have := (L.objects.fits hp').fields_le; omega))
          omega
        clear := fun {b} hb hlt => by
          have hmax := L.lt_maxRegions (i := i) (by rw [hrel]; simp)
          have h0 := L.spare b (.inl ⟨i, hmax, hb, hlt⟩)
          exact (S.memory b).elim (fun h => h.trans h0) fun h => h.1
        outside := fun {b} hb => hkept fun p hp he => by
          subst he
          obtain ⟨hp', rfl⟩ := (hmem p).1 hp
          have hB := L.bounds hp'
          have h1 := hB.bottom_le
          have h2 := hB.lt_limit
          exact hb.elim (Nat.not_lt.2 h1) (Nat.not_le.2 h2)
        tally := .inr rfl
        rest := fun _ {b} hb => hkept fun p hp he => hb (he ▸ ((hmem p).1 hp).1) }

end

end RegionHeap

/-- The view of a region that was emptied. -/
def RegionView.emptied (r : RegionView) : RegionView :=
  { r with
    top := r.bottom, markLimit := r.bottom, marks := r.marks.emptied, markedBytes := 0,
    starts := r.starts.emptied, state := .empty }

theorem Region.acts_recycle {r : RegionView} (hs : r.state = .relocating)
    (ht : r.activeTlabs = 0) : Acts recycle r fun _ r' => r' = r.emptied := by
  rintro r₀ rfl
  have ht' : r₀.activeTlabs = 0 := ht
  simp only [recycle, onSpace, onMarks, onStarts, BumpSpace.reset, ends_bind, ends_get, ends_lift,
    require_eq_ok, ends_onPart, ends_modify, AddressSet.ends_clear, ht']
  exact ⟨(), trivial, acts_transition (r := { r₀.view.emptied with state := .relocating })
    rfl rfl _ (by
      have hs' : r₀.state = .relocating := hs
      simp [Region.view, RegionView.emptied, hs', ht', Region.start])⟩

namespace RegionHeap

open HeapView

section
variable {h : RegionHeap} {W : World} {i : Nat}

/-- The committed pages of a whole region are cleared. -/
theorem ends_clearRegion {m : Memory} {post : Bool → Memory → Prop} (L : h.view.Layout)
    (hi : i < h.view.committed) :
    Ends (h.space.range.clear (h.view.region i).bottom h.space.regionSize) m post ↔
      post true (m.clear (h.view.region i).bottom h.view.regionSize) := by
  have G := L.geometry
  have hbottom : (h.view.region i).bottom = h.view.low + i * h.view.regionSize :=
    (L.regions i).bottom_eq
  have hmul := Nat.mul_le_mul_right h.view.regionSize (Nat.succ_le_of_lt hi)
  rw [Nat.succ_mul] at hmul
  have hhigh : (h.view.region i).bottom + h.view.regionSize ≤ h.view.high := by
    rw [G.high_eq]
    omega
  have hle : h.view.high ≤ rootBase := by
    have h1 := Nat.mul_le_mul_right h.view.regionSize G.committed_le
    have h2 := G.boundary_eq
    have h3 := G.boundary_le
    rw [G.high_eq]
    omega
  have hword : rootBase + 4096 < wordLimit := by decide
  have hlow : h.view.low ≤ (h.view.region i).bottom := by omega
  have hpage : ¬ (h.view.regionSize = 0 ∨ (h.view.region i).bottom % pageBytes ≠ 0) := by
    have h1 := G.region_aligned i
    have h2 := G.size_pos
    rw [hbottom]
    simp only [pageBytes]
    omega
  have halign : alignUp h.view.regionSize pageBytes = h.view.regionSize := by
    rw [alignUp_of_isPowerOfTwo isPowerOfTwo_pageBytes (by decide) (by simp [pageBytes]; omega)]
    have := G.page
    simp only [pageBytes]
    omega
  have hspace : h.space.regionSize = h.view.regionSize := rfl
  simp only [Reservation.clear, hspace, ends_bind, ends_lift, require_eq_ok, sum_eq_ok]
  constructor
  · rintro ⟨-, -, n, ⟨-, rfl⟩, -, -, hpost⟩
    rw [if_neg hpage] at hpost
    simpa only [ends_bind, ends_modify, ends_pure, halign] using hpost
  · intro hpost
    refine ⟨(), hlow, _, ⟨by omega, rfl⟩, (), hhigh, ?_⟩
    rw [if_neg hpage]
    simpa only [ends_bind, ends_modify, ends_pure, halign] using hpost

/-- **A region of which all objects were moved** is emptied. -/
theorem ends_recycleRegion (I : h.view.Inv W .updated [])
    (hrel : (h.view.region i).state = .relocating) (hkept : (h.view.region i).evacFailed = false) :
    Ends (onSpaceAndMemory (RegionSpace.recycle i)) h fun _ h' => ∃ r m,
      h.view.Settles W m i r ∧ h'.view = h.view.settled m i r := by
  have L := I.layout
  have F := I.faithful
  have hR := L.regions i
  have hcom := L.committed_of_state (i := i) (by rw [hrel]; simp)
  have hmax := L.lt_maxRegions (i := i) (by rw [hrel]; simp)
  simp only [onSpaceAndMemory, ends_onPart, RegionSpace.recycle, ends_bind, ends_get, ends_lift,
    region_eq hmax, ends_onSecond]
  refine ⟨_, rfl, (ends_clearRegion L hcom).2 ?_⟩
  simp only [Bool.not_true, Bool.false_eq_true, if_false, ends_onFirst, ends_bind, ends_modify]
  let m := h.view.memory.clear (h.view.region i).bottom h.view.regionSize
  refine (ends_onRegionOf (s := h.space) (h := { h with core := { h.core with memory := m } }) hmax
    (Region.acts_recycle hrel (hR.relocating hrel))).mono ?_
  rintro _ s' ⟨r, hr, hv⟩
  refine ⟨r, m, ?_, ?_⟩
  swap
  · have hused : s'.used = h.space.used := congrArg HeapView.used hv
    show { (putSpace s' { h with core := { h.core with memory := m } }).view with
      used := s'.used - (h.regionAt i).used } = _
    rw [hv, hused, hr]
    rfl
  have hnone {o : Nat} : ¬ r.starts.Has o := by
    rw [hr]
    exact AddressSet.not_has_emptied
  have hlimit : (h.view.region i).limit = (h.view.region i).bottom + h.view.regionSize :=
    hR.limit_eq
  have hread (b : Nat) : m.read b = if (h.view.region i).bottom ≤ b ∧
      b < (h.view.region i).bottom + h.view.regionSize then 0 else h.view.memory.read b :=
    Memory.read_clear _ _ _ _
  -- An object of the program would have stayed, and the region would be kept.
  have hempty {o : Nat} (ho : o ∈ W.objects) (hi : h.view.index o = i) : False := by
    subst hi
    rcases F.status (F.published ho) with h0 | ⟨-, hk, -⟩ | ⟨c, hm⟩
    · rw [F.copied (.inr rfl) ho hrel] at h0
      exact Object.tagged_ne_zero h0
    · exact Bool.false_ne_true (hkept.symm.trans hk)
    · exact F.not_moved ho hm
  have hok : h.view.RegionOk i r := by
    rw [hr]
    exact
      { hR with
        bottom_le := Nat.le_refl _
        markLimit_le := Nat.le_refl _
        top_le := Nat.le_trans hR.bottom_le (Nat.le_trans hR.markLimit_le hR.top_le)
        top_aligned := by
          have h1 := L.geometry.region_aligned i
          rw [← hR.bottom_eq] at h1
          exact Nat.dvd_trans (by decide) h1
        marks := hR.marks.emptied
        starts := hR.starts.emptied
        tlabs_le := by
          show (h.view.region i).activeTlabs ≤ _
          rw [hR.relocating hrel]
          exact Nat.zero_le _
        empty := fun _ => ⟨rfl, hkept, fun _ => AddressSet.not_has_emptied⟩
        unmarked := fun _ => ⟨rfl, fun _ => AddressSet.not_has_emptied⟩
        relocating := fun h => by cases h
        kept := fun h => absurd (hkept.symm.trans h) Bool.false_ne_true
        uncommitted := fun _ => rfl }
  exact
    { relocating := hrel
      extent := .inr (by rw [hr]; exact ⟨rfl, rfl⟩)
      freed := fun _ => by rw [hr]; rfl
      activeTlabs := by rw [hr]; rfl
      ok := hok
      state := by rw [hr]; exact ⟨by simp [RegionView.emptied], by simp [RegionView.emptied]⟩
      starts := fun h => absurd h hnone
      below := fun h => absurd h hnone
      kept := fun ho hi => (hempty ho hi).elim
      stayed := fun h => absurd h hnone
      live := fun h => absurd h hnone
      status := fun h => absurd h hnone
      contents := fun h => absurd h hnone
      clear := fun {b} hb hlt => by
        rw [hr] at hb hlt
        replace hb : (h.view.region i).bottom ≤ b := hb
        replace hlt : b < (h.view.region i).limit := hlt
        rw [hread, if_pos ⟨hb, hlimit ▸ hlt⟩]
      outside := fun {b} hb => by
        rw [hread, if_neg (by omega)]
      tally := .inl (by rw [hr]; rfl)
      rest := fun hne => absurd (by rw [hr]; rfl) hne }

end

end RegionHeap

/-! ## 3. The last step of a cycle -/

namespace HeapView

/-- The `count` regions from `i` on were settled. -/
structure Recycled (V : HeapView) (W : World) (V' : HeapView) (i count : Nat) : Prop where
  inv : V'.Inv W .updated []
  frame : V' = { V with memory := V'.memory, region := V'.region, used := V'.used }
  left : ∀ j, (V'.region j).state = .relocating →
    (V.region j).state = .relocating ∧ ¬ (i ≤ j ∧ j < i + count)
  others : ∀ j, ¬ (i ≤ j ∧ j < i + count) → V'.region j = V.region j
  freed : ∀ j, i ≤ j ∧ j < i + count → (V.region j).state = .relocating →
    (V.region j).evacFailed = false → (V'.region j).state = .empty
  empty : ∀ j, (V.region j).state = .empty → (V'.region j).state = .empty
  counted : V.Counted none → V'.Counted none
  balanced : V.Balanced → V'.Balanced
  tallied : V.Tallied → V'.Tallied
  published : ∀ {o}, V'.Published o → V.Published o
  sizes : ∀ {o}, V'.Published o → Object.size V'.memory o = Object.size V.memory o
  untouched : ∀ {b}, V'.Untouched b → V.Untouched b ∨ (V'.regionOf b).state = .empty
  elsewhere : ∀ {b}, ¬ V.Relocating b → V'.memory.read b = V.memory.read b
  rest : ∀ {b}, ¬ (i ≤ V.index b ∧ V.index b < i + count) → V'.memory.read b = V.memory.read b
  moved : ∀ {o c}, V.Moved W o c → i ≤ V.index o ∧ V.index o < i + count → ¬ V'.Published o

/-- What the end of a cycle leaves.  Only memory of regions that were relocated has changed, and
what was in use and is no longer is in a region that is empty now. -/
structure Emptied (V V' : HeapView) : Prop extends Steady V V', SameRange V V' where
  freed : ∀ j, (V.region j).state = .relocating → (V.region j).evacFailed = false →
    (V'.region j).state = .empty
  calm : ∀ j, (V'.region j).state ≠ .relocating
  tallied : V.Tallied → V'.Tallied
  published : ∀ {o}, V'.Published o → V.Published o
  sizes : ∀ {o}, V'.Published o → Object.size V'.memory o = Object.size V.memory o
  untouched : ∀ {b}, V'.Untouched b → V.Untouched b ∨ (V'.regionOf b).state = .empty
  elsewhere : ∀ {b}, ¬ V.Relocating b → V'.memory.read b = V.memory.read b
  moved : ∀ {o c}, V.Forwarded o c → ¬ V'.Published o

section
variable {V V' V'' : HeapView} {W : World} {m : Memory} {i count : Nat} {r : RegionView}

theorem Recycled.index (R : V.Recycled W V' i count) (b : Nat) : V'.index b = V.index b := by
  rw [R.frame]
  rfl

/-- Nothing to do. -/
theorem Recycled.of_not (I : V.Inv W .updated [])
    (h : count = 0 ∨ (count = 1 ∧ (V.region i).state ≠ .relocating)) : V.Recycled W V i count :=
  ⟨I, rfl, fun j hj => ⟨hj, by
    rcases h with rfl | ⟨rfl, h⟩
    · omega
    · intro hji
      obtain rfl : j = i := by omega
      exact h hj⟩, fun _ _ => rfl, fun j hj hrel => by
    rcases h with rfl | ⟨rfl, h⟩
    · omega
    · obtain rfl : j = i := by omega
      exact absurd hrel h, fun _ h => h, id, id, id, id, fun _ => rfl, .inl, fun _ => rfl,
    fun _ => rfl, fun {o c} hm hj => by
    rcases h with rfl | ⟨rfl, h⟩
    · omega
    · obtain rfl : V.index o = i := by omega
      exact absurd hm.relocating h⟩

theorem Settles.balanced (S : V.Settles W m i r) (L : V.Layout) (h : V.Balanced) :
    (V.settled m i r).Balanced := by
  have hi : i < V.maxRegions := L.lt_maxRegions (by rw [S.relocating]; simp)
  have hb : r.bottom = (V.region i).bottom := S.ok.bottom_eq.trans (L.regions i).bottom_eq.symm
  have h1 := (L.regions i).bottom_le
  have h2 := (L.regions i).markLimit_le
  have h3 := h.region_le hi
  have h4 : ({ V with memory := m }).Balanced := h
  refine h4.setRegion hi ?_
  show V.used - ((V.region i).top - r.top) + ((V.region i).top - (V.region i).bottom) =
    V.used + (r.top - r.bottom)
  rcases S.extent with he | ⟨he, -⟩ <;> omega

theorem Settles.untouched (S : V.Settles W m i r) (L : V.Layout) {b : Nat}
    (h : (V.settled m i r).Untouched b) :
    V.Untouched b ∨ (V.index b = i ∧ r.state = .empty) := by
  obtain ⟨j, hj, hle, hlt⟩ := h
  by_cases hne : j = i
  · subst hne
    simp only [settled, setRegion_region_self] at hle hlt
    have hb := S.ok.bottom_eq
    have hl := S.ok.limit_eq
    rcases S.extent with he | ⟨he, hs⟩
    · refine .inl ⟨j, hj, he ▸ hle, ?_⟩
      rw [(L.regions j).limit_eq, (L.regions j).bottom_eq]
      omega
    · exact .inr ⟨index_eq (by omega) (by omega), hs⟩
  · have hreg : (V.settled m i r).region j = V.region j := if_neg hne
    rw [hreg] at hle hlt
    exact .inl ⟨j, hj, hle, hlt⟩

/-- **No mark is set where a region is settled**, and its marks are dropped only with the region. -/
theorem Settles.retains (S : V.Settles W m i r) (L : V.Layout) :
    Retains (fun j => j ≠ i ∨ r.state ≠ .empty) V (V.settled m i r) := by
  have hregion (j : Nat) : (V.settled m i r).region j = if j = i then r else V.region j := rfl
  have hsame {α : Type} (f : RegionView → α) {j : Nat} (hj : j ≠ i ∨ r.state ≠ .empty)
      (hf : r.state ≠ .empty → f r = f (V.region i)) :
      f ((V.settled m i r).region j) = f (V.region j) := by
    rw [hregion]
    split
    · rename_i he
      rw [hf (hj.resolve_left (not_not_intro he)), he]
    · rfl
  have htally (hne : r.state ≠ .empty) := S.tally.resolve_left hne
  refine ⟨⟨fun {b} hb => ?_, fun ht => .inl ⟨_, ht, rfl, rfl, Nat.le_refl _⟩, rfl⟩,
    fun hj => hsame (·.marks) hj fun hne => by rw [htally hne],
    fun hj => hsame (·.markedBytes) hj fun hne => by rw [htally hne],
    fun hj => hsame (·.markLimit) hj fun hne => by rw [htally hne], fun {j} hj => ?_,
    fun h => .inl (S.published h), fun {o} hk ho => ?_, fun {b} _ hk hb => ?_⟩
  · refine (S.untouched L hb).imp_right fun h hk => ?_
    exact hk.elim (fun hne => hne h.1) fun hne => hne h.2
  · simp only [not_or, not_not] at hj
    rw [hregion, if_pos hj.1, hj.2]
  · rcases hk with hi | hne
    · have hle := (L.objects.fits ho).fields_le
      exact S.elsewhere L (L.index_inside ho (b := o + 8) (by omega) (by omega) ▸ hi)
    · exact S.rest hne fun hp => L.shape_ne_status hp ho rfl
  · rcases hk with hi | hne
    · exact S.elsewhere L hi
    · exact S.rest hne (hb.not_published L)

theorem Settles.recycled (S : V.Settles W m i r) (I : V.Inv W .updated []) (hloose : W.loose = ∅) :
    V.Recycled W (V.settled m i r) i 1 where
  inv := S.inv I hloose
  frame := rfl
  left j hj := by
    replace hj : (if j = i then r else V.region j).state = .relocating := hj
    split at hj
    · exact absurd hj S.state.2
    · rename_i hne
      exact ⟨hj, by omega⟩
  others j hj := if_neg fun he => hj (by omega)
  freed j hj _ hk := by
    obtain rfl : j = i := by omega
    show (if j = j then r else V.region j).state = .empty
    rw [if_pos rfl]
    exact S.freed hk
  empty j hj := by
    show (if j = i then r else V.region j).state = .empty
    split
    · rename_i he
      rw [he, S.relocating] at hj
      cases hj
    · exact hj
  counted h j := by
    have h1 : (V.settled m i r).tlabCount j = V.tlabCount j := rfl
    have h2 := setRegion_congr (V := V) (·.activeTlabs) S.activeTlabs j
    exact (h2.trans (h j)).trans (by rw [h1])
  balanced := S.balanced I.layout
  tallied := (S.retains I.layout).tallied I.layout (S.layout I.layout)
  published := S.published
  sizes := S.size I.layout
  untouched {b} hb := by
    refine (S.untouched I.layout hb).imp_right fun h => ?_
    show (if V.index b = i then r else V.region (V.index b)).state = .empty
    rw [if_pos h.1, h.2]
  elsewhere {b} hb := S.elsewhere I.layout fun he => hb (by
    show (V.region (V.index b)).state = _
    rw [he, S.relocating])
  rest {b} hb := S.elsewhere I.layout fun he => hb (by omega)
  moved {o c} hm hj hp := by
    rw [published_settled, if_pos (by omega)] at hp
    exact S.stayed hp hm

theorem Recycled.trans (R : V.Recycled W V' i 1) (R' : V'.Recycled W V'' (i + 1) count) :
    V.Recycled W V'' i (count + 1) where
  inv := R'.inv
  frame := by rw [R'.frame, R.frame]
  left j hj := by
    obtain ⟨h1, h2⟩ := R'.left j hj
    obtain ⟨h3, h4⟩ := R.left j h1
    exact ⟨h3, by omega⟩
  others j hj := (R'.others j (by omega)).trans (R.others j (by omega))
  freed j hj hrel hk := by
    by_cases he : j = i
    · exact R'.empty j (R.freed j (by omega) hrel hk)
    · have hsame := R.others j (by omega)
      exact R'.freed j (by omega) (hsame ▸ hrel) (hsame ▸ hk)
  empty j hj := R'.empty j (R.empty j hj)
  counted h := R'.counted (R.counted h)
  balanced h := R'.balanced (R.balanced h)
  tallied h := R'.tallied (R.tallied h)
  published h := R.published (R'.published h)
  sizes h := (R'.sizes h).trans (R.sizes (R'.published h))
  untouched {b} h := by
    rcases R'.untouched h with h' | h'
    · refine (R.untouched h').imp_right fun he => ?_
      rw [regionOf, R'.index]
      exact R'.empty _ he
    · exact .inr h'
  elsewhere {b} hb := by
    refine (R'.elsewhere fun h => hb ?_).trans (R.elsewhere hb)
    rw [Relocating, regionOf, R.index] at h
    exact (R.left _ h).1
  rest {b} hb := (R'.rest fun h => hb (by rw [R.index] at h; omega)).trans
    (R.rest fun h => hb (by omega))
  moved {o c} hm hj hp := by
    have hp' := R'.published hp
    by_cases he : i ≤ V.index o ∧ V.index o < i + 1
    · exact R.moved hm he hp'
    · -- The region of the object is as before, and its turn comes later.
      have hregion : V'.regionOf o = V.regionOf o := by
        rw [regionOf, R.index, R.others _ he, regionOf]
      refine R'.moved ⟨hp', ?_, (R.rest he).trans hm.status, hm.mem, fun hc => hm.settled ?_,
        hm.name_eq⟩ (by rw [R.index]; omega) hp
      · rw [Relocating, hregion]
        exact hm.relocating
      · rw [Relocating, regionOf, R.index] at hc
        exact (R.left _ hc).1

/-- An object that has a copy elsewhere was moved there. -/
theorem Inv.moved_of_forwarded {st : Stage} {ts : List MarkTask} {o c : Nat} (I : V.Inv W st ts)
    (h : V.Forwarded o c) : V.Moved W o c := by
  obtain ⟨hp, hf, hne⟩ := h
  rcases I.faithful.status hp with h0 | ⟨-, -, -, hs⟩ | ⟨d, hm⟩
  · rw [Object.forwardee?_of_zero h0] at hf
    cases hf
  · rw [Object.forwardee?_of_tagged hs (I.layout.bounds hp).aligned] at hf
    exact absurd (Option.some.inj hf).symm hne
  · rw [Object.forwardee?_of_tagged hm.status
      (I.layout.bounds (I.faithful.published hm.mem)).aligned] at hf
    exact Option.some.inj hf ▸ hm

/-- When no region is relocated any more, the cycle is over. -/
theorem Faithful.toEnd (F : V.Faithful W .updated) (h : ∀ i, (V.region i).state ≠ .relocating) :
    V.Faithful W .idle :=
  { F with
    fields := fun ho hi => (F.fields ho hi).imp_left fun h => h.restage fun h => by cases h
    roots := fun hc hl => (F.roots hc hl).imp_left fun h => h.restage fun h => by cases h
    states := fun i => ⟨(F.states i).1, fun _ => h i⟩
    survivors := fun _ => F.survivors (by decide)
    live := fun h => by cases h
    copied := fun h => by simp at h
    unrecorded := fun _ => F.unrecorded (by simp) }

end

end HeapView

namespace RegionHeap

open HeapView

section
variable {h : RegionHeap} {W : World} {i count : Nat}

theorem ends_recycleFrom (I : h.view.Inv W .updated []) (hloose : W.loose = ∅)
    (hcount : i + count ≤ h.view.maxRegions) :
    Ends (recycleFrom i count) h fun _ h' => h.view.Recycled W h'.view i count := by
  induction count generalizing i h with
  | zero =>
    rw [recycleFrom, ends_pure]
    exact .of_not I (.inl rfl)
  | succ count ih =>
    have hi : i < h.view.maxRegions := by omega
    have hnext {h' : RegionHeap} (R : h.view.Recycled W h'.view i 1) :
        Ends (recycleFrom (i + 1) count) h' fun _ h'' =>
          h.view.Recycled W h''.view i (count + 1) := by
      have hmax : h'.view.maxRegions = h.view.maxRegions := by rw [R.frame]; rfl
      exact (ih R.inv (by omega)).mono fun _ h'' R' => R.trans R'
    simp only [recycleFrom, ends_bind]
    rw [ends_getRegion hi]
    simp only [ends_ite, ends_bind, ends_pure]
    refine ⟨fun hrel => ⟨fun hkept => ?_, fun hkept => ?_⟩, fun hrel => ?_⟩
    · refine (ends_onRegionAndMemory
        (p := fun _ r m => h.view.Settles W m i r ∧ r.top = (h.view.region i).top) hi
        (ends_recover I hrel hkept)).mono ?_
      rintro _ h₁ ⟨r, m, ⟨S, ht⟩, hv⟩
      rw [← settled_of_top ht] at hv
      exact hnext (hv ▸ S.recycled I hloose)
    · refine (ends_recycleRegion I hrel (Bool.eq_false_iff.2 hkept)).mono ?_
      rintro _ h₁ ⟨r, m, S, hv⟩
      exact hnext (hv ▸ S.recycled I hloose)
    · exact hnext (.of_not I (.inr ⟨rfl, hrel⟩))

/-- **The last step of a cycle** leaves no region that is relocated. -/
theorem ends_recycle (I : h.view.Inv W .updated []) (hloose : W.loose = ∅)
    (hs : h.view.InStage .updated) (hj : h.view.joined = 0) :
    Ends recycle h fun _ h' =>
      Emptied h.view h'.view ∧ h'.view.Inv W .idle [] ∧ h'.view.InStage .idle := by
  rw [recycle, ends_inPhase (p := .concurrentRelocate) hs rfl, ends_bind, ends_synchronize hj]
  simp only [setGcState, ends_modify, ends_bind, ends_get]
  let h₁ : RegionHeap := ({ h.stopped with gcState := .idle } : RegionHeap).resumed
  have hv₁ : h₁.view = { h.view with gcState := .idle, pending := false } := rfl
  have I₁ : h₁.view.Inv W .updated [] := by
    rw [hv₁]
    exact I.setControl
  refine (ends_recycleFrom (h := h₁) (i := 0) I₁ hloose ?_).mono fun _ h₂ R => ?_
  · rw [Nat.zero_add]
    exact I₁.layout.geometry.committed_le
  · simp only [modifyCycleStats, setPhase, ends_modify]
    refine ends_note fun h₃ hv₃ => ends_finishCycle.mono fun _ h₄ hv₄ => ?_
    have hv : h₄.view = { h₂.view with phase := .idle } := by
      rw [hv₄, hv₃]
      rfl
    have hnone (j : Nat) : (h₂.view.region j).state ≠ .relocating := fun hrel => by
      have hcom : h₂.view.committed = h₁.space.committed := by rw [R.frame]; rfl
      have hlt := R.inv.layout.committed_of_state (i := j) (by rw [hrel]; simp)
      rw [hcom] at hlt
      exact (R.left j hrel).2 ⟨Nat.zero_le _, (Nat.zero_add _).symm ▸ hlt⟩
    have hcommitted {j : Nat} (hrel : (h.view.region j).state = .relocating) :
        j < h.view.committed := I.layout.committed_of_state (by rw [hrel]; simp)
    have I₂ : h₂.view.Inv W .idle [] :=
      ⟨R.inv.layout, R.inv.faithful.toEnd hnone, fun h => by cases h⟩
    rw [hv]
    refine ⟨?_, I₂.setControl, ?_, rfl⟩
    · exact
        { options := by rw [R.frame]; rfl
          mutators := by rw [R.frame]; rfl
          joined := by rw [R.frame]; rfl
          pending := fun _ => by rw [R.frame]; rfl
          handles := fun hc _ => by rw [R.frame]; exact hc
          counted := R.counted
          balanced := R.balanced
          low := by rw [R.frame]; rfl
          boundary := by rw [R.frame]; rfl
          regionSize := by rw [R.frame]; rfl
          freed := fun j hrel hk => R.freed j
            ⟨Nat.zero_le _, (Nat.zero_add _).symm ▸ hcommitted hrel⟩ hrel hk
          calm := hnone
          tallied := fun X => { R.tallied { X with } with }
          published := R.published
          sizes := R.sizes
          untouched := R.untouched
          elsewhere := R.elsewhere
          moved := fun {o c} hf hp => by
            have hm := I₁.moved_of_forwarded (show h₁.view.Forwarded o c from hf)
            exact R.moved hm ⟨Nat.zero_le _, (Nat.zero_add _).symm ▸ hcommitted hm.relocating⟩ hp }
    · rw [R.frame]
      rfl

theorem keeps_failures_recycleFrom : Keeps SameFailures (recycleFrom i count) := by
  induction count generalizing i with
  | zero => exact keeps_pure
  | succ count ih =>
    refine keeps_getRegion.bind fun r => Keeps.ite (Keeps.ite ?_ ?_) ih
    · refine Keeps.bind (keeps_getRegion.bind fun _ => keeps_onPart fun _ _ => rfl) fun _ => ?_
      exact ih.bind fun _ => keeps_pure
    · exact Keeps.bind (keeps_onPart fun _ _ => rfl) fun _ => ih.bind fun _ => keeps_pure

/-- Recycling moves nothing. -/
theorem keeps_failures_recycle : Keeps SameFailures recycle := by
  refine keeps_get.bind fun h => Keeps.ite ?_ (keeps_failures_note.bind fun _ => keeps_pure)
  refine (keeps_failures_synchronize keeps_failures_setGcState).bind fun _ => keeps_get.bind fun _ => ?_
  refine keeps_failures_recycleFrom.bind fun x => keeps_modify_bind (fun _ => rfl) fun _ => ?_
  refine keeps_modify_bind (fun _ => rfl) fun _ => keeps_get.bind fun _ => ?_
  refine keeps_failures_note.bind fun _ => keeps_get_bind fun h => ?_
  simp only [updateUsage, after_bind, after_set, after_modify]
  rfl

end

end RegionHeap

end ManagedHeap
