/-
# Relocation of one object, and loads

While copies are made, an object of a region that is relocated is in one of two states.  Either it
was not looked at, and its status word is zero; or it is settled: it has a copy in a region that
stays, or it found no room and is its own copy.  This module shows that a barrier takes an object
from the first state to the second, and that the ideal heap does not notice.

* Section 1: objects whose contents are found at another address are the same objects.
* Section 2: the two ways to settle an object, on the level of views.
* Sections 3 to 5: the code.  `ends_loadBarrier` is what all accesses are built on: the reference
  that a barrier gives is current, and that of the same object.
-/
import ManagedHeap.Proofs.Calm
import ManagedHeap.Proofs.Stores

namespace ManagedHeap

namespace HeapView

/-! ## 1. Objects at other addresses -/

/-- The objects of `W'` are those of `W`; the one at `x` was at `src x`. -/
structure Relocated (V : HeapView) (W : World) (V' : HeapView) (W' : World) (src : Nat → Nat) :
    Prop where
  mem : ∀ {x}, x ∈ W'.objects → src x ∈ W.objects
  published : ∀ {x}, x ∈ W'.objects → V'.Published x
  name : ∀ {x}, x ∈ W'.objects → W'.name x = W.name (src x)
  inj : ∀ {x y}, x ∈ W'.objects → y ∈ W'.objects → src x = src y → x = y
  words : ∀ {x k}, x ∈ W'.objects → 1 ≤ k → 8 * k < Object.size V.memory (src x) →
    V'.memory.read (x + 8 * k) = V.memory.read (src x + 8 * k)
  live : ∀ {x}, x ∈ W'.objects → V.Live (src x) → V'.Live x
  loose : ∀ {x}, x ∈ W'.objects → src x ∈ W.loose → x ∈ W'.loose ∨ V'.Live x

section
variable {V V' : HeapView} {W W' : World} {src : Nat → Nat} {x i k : Nat}

theorem Relocated.layoutWord (R : Relocated V W V' W' src) (L : V.Layout) (F : V.Faithful W .chosen)
    (hx : x ∈ W'.objects) : V'.memory.read (x + 8) = V.memory.read (src x + 8) := by
  have hle := (L.objects.fits (F.published (R.mem hx))).fields_le
  have := R.words (k := 1) hx (by omega) (by omega)
  simpa using this

theorem Relocated.refCount (R : Relocated V W V' W' src) (L : V.Layout) (F : V.Faithful W .chosen)
    (hx : x ∈ W'.objects) : Object.refCount V'.memory x = Object.refCount V.memory (src x) := by
  simp only [Object.refCount, wordBytes, R.layoutWord L F hx]

theorem Relocated.payloadBytes (R : Relocated V W V' W' src) (L : V.Layout)
    (F : V.Faithful W .chosen) (hx : x ∈ W'.objects) :
    Object.payloadBytes V'.memory x = Object.payloadBytes V.memory (src x) := by
  simp only [Object.payloadBytes, Object.refCount, Object.size, wordBytes, R.layoutWord L F hx]

theorem Relocated.field (R : Relocated V W V' W' src) (L : V.Layout) (F : V.Faithful W .chosen)
    (hx : x ∈ W'.objects) (hi : i < Object.refCount V.memory (src x)) :
    V'.memory.read (Object.field x i) = V.memory.read (Object.field (src x) i) := by
  have hlt := (L.objects.fits (F.published (R.mem hx))).field_lt hi
  have he (o : Nat) : Object.field o i = o + 8 * (2 + i) := by
    simp only [Object.field]
    omega
  rw [he] at hlt
  rw [he, he]
  exact R.words hx (by omega) (by omega)

/-- **A heap whose objects were relocated holds the same objects.**  What is left to show is about
status words, regions and roots. -/
theorem Faithful.relocate (F : V.Faithful W .chosen) (L : V.Layout)
    (R : Relocated V W V' W' src) (E : V.Preserves W V' W') (hI : W'.ideal = W.ideal)
    (hname : ∀ v, v = 0 ∨ V.Published v → W'.name v = W.name v)
    (hroots : V'.roots = V.roots) (hslot : ∀ c ∈ V.roots.cells,
      V'.memory.read c.slot = V.memory.read c.slot)
    (hstatus : ∀ {o}, V'.Published o → V'.memory.read o = 0 ∨
      (V'.Relocating o ∧ V'.Kept o ∧ o ∈ W'.objects ∧ V'.memory.read o = Object.tagged o) ∨
      ∃ c, V'.Moved W' o c)
    (hexcused : ∀ {i}, (V'.region i).evacFailed = true →
      ∃ o ∈ W'.objects, V'.index o = i ∧ V'.memory.read o = Object.tagged o)
    (hstates : ∀ i, (V'.region i).state ≠ .marked)
    (hsurvivors : ∀ {o}, V'.Published o → V'.Live o → V'.Refers W' o)
    (hlive : ∀ {o}, o ∈ W'.objects → V'.Relocating o → V'.Live o)
    (hsatb : V'.satb = V.satb) : V'.Faithful W' .chosen := by
  have hval {v : Nat} (h : v = 0 ∨ V.Refers W v) : W'.name v = W.name v :=
    hname v (h.imp_right F.refers_published)
  refine ⟨R.published, hI ▸ F.count_pos, (hname 0 (.inl rfl)).trans F.name_zero, fun h => ?_, fun h => ?_,
    fun h h' he => ?_, fun h => ?_, fun h => ?_, fun {x i} h hi => ?_, fun {x k} h hk hle => ?_,
    fun {c} hc hl => ?_, ?_, hstatus, hexcused,
    fun i => ⟨hstates i, fun h => by simp [Stage.relocates] at h⟩,
    fun _ _ hp hl => hsurvivors hp hl, fun _ _ h hr => hlive h hr,
    fun hst => absurd hst (by simp), fun h v => ?_⟩
  · rw [R.name h]
    exact F.name_pos (R.mem h)
  · rw [R.name h, hI]
    exact F.name_lt (R.mem h)
  · rw [R.name h, R.name h'] at he
    exact R.inj h h' (F.name_inj (R.mem h) (R.mem h') he)
  · rw [R.refCount L F h, R.name h, hI]
    exact F.refs (R.mem h)
  · rw [R.payloadBytes L F h, R.name h, hI]
    exact F.bytes (R.mem h)
  · rw [R.refCount L F h] at hi
    rw [R.field L F h hi, R.name h, hI]
    obtain ⟨h1, h2⟩ := F.fields (R.mem h) hi
    rcases h1 with h1 | h1 | ⟨h1, h3⟩
    · exact ⟨.inl h1, (hval (.inl h1)).trans h2⟩
    · exact ⟨.inr (.inl (E.current h1)), (hval (.inr h1.refers)).trans h2⟩
    · refine ⟨.inr (.inr ⟨(E.refers h1).1, ?_⟩), (hval (.inr h1)).trans h2⟩
      rcases h3 with ⟨-, h3⟩ | h3
      · exact .inl ⟨rfl, R.live h h3⟩
      · rcases R.loose h h3 with h4 | h4
        · exact .inr h4
        · exact .inl ⟨rfl, h4⟩
  · rw [R.payloadBytes L F h] at hle
    rw [R.refCount L F h, R.name h, hI, ← F.words (R.mem h) hk hle]
    have hin := L.payload_inside (F.published (R.mem h)) hle
    have he (o : Nat) : o + 16 + 8 * Object.refCount V.memory (src x) + k =
        o + 8 * (2 + Object.refCount V.memory (src x) + k / 8) := by omega
    rw [he] at hin
    rw [he, he]
    exact R.words h (by omega) (by omega)
  · rw [hroots] at hc
    rw [hslot c hc, hI]
    obtain ⟨h1, h2⟩ := F.roots hc hl
    rcases h1 with h1 | h1 | ⟨-, h1⟩
    · exact ⟨.inl h1, (hval (.inl h1)).trans h2⟩
    · exact ⟨.inr (.inl (E.current h1)), (hval (.inr h1.refers)).trans h2⟩
    · exact ⟨.inr (.inr ⟨rfl, (E.refers h1).1⟩), (hval (.inr h1)).trans h2⟩
  · rw [hroots, hI]
    exact F.registered
  · rw [hsatb]
    exact F.unrecorded h v

end

/-! ## 2. The two ways to settle an object -/

/-- In `m'` there is a copy at `c` of the object of `n` bytes that `m` has at `o`. -/
structure Copied (m m' : Memory) (o c n : Nat) : Prop where
  status : m'.read c = 0
  words : ∀ k, 1 ≤ k → 8 * k < n → m'.read (c + 8 * k) = m.read (o + 8 * k)
  rest : ∀ b, b < c ∨ c + n ≤ b → m'.read b = m.read b

/-- The view in which an object was moved to the copy that `m` has of it. -/
def moveTo (V : HeapView) (m : Memory) (o c : Nat) : HeapView :=
  { V.withObject m c with memory := m.write o (Object.tagged c) }

/-- The view in which an object found no room. -/
def keep (V : HeapView) (o : Nat) : HeapView :=
  { V.setRegion (V.index o) { V.regionOf o with evacFailed := true } with
    memory := V.memory.write o (Object.tagged o) }

end HeapView

/-- The world in which a copy stands for an object. -/
def World.move (W : World) (o c : Nat) : World :=
  { W with
    objects := { x | x = c ∨ (x ∈ W.objects ∧ x ≠ o) }
    name := Function.update W.name c (W.name o) }

theorem World.move_name {W : World} {o c : Nat} : (W.move o c).name c = W.name o := by
  simp [World.move]

namespace HeapView

section
variable {V : HeapView} {W : World} {ts : List MarkTask} {m : Memory} {o c x b : Nat}

theorem Copied.shape {m' : Memory} {n : Nat} (K : Copied m m' o c n) (hn : 16 ≤ n) :
    m'.read (c + 8) = m.read (o + 8) := by
  have := K.words 1 (by omega) (by omega)
  simpa using this

/-- The copy of an object is one of its size. -/
theorem Copied.size (K : Copied V.memory m o c (Object.size V.memory o)) (L : V.Layout)
    (ho : V.Published o) : Object.size m c = Object.size V.memory o := by
  have hle := (L.objects.fits ho).fields_le
  simp only [Object.size, wordBytes, K.shape (by omega)]

theorem Copied.fits (K : Copied V.memory m o c (Object.size V.memory o)) (L : V.Layout)
    (ho : V.Published o) (C : V.Claim c (Object.size V.memory o)) : Object.Fits m c := by
  have hfit := L.objects.fits ho
  have hle := hfit.fields_le
  have hcount : Object.refCount m c = Object.refCount V.memory o := by
    simp only [Object.refCount, wordBytes, K.shape (by omega)]
  refine ⟨?_, C.aligned, ?_, ?_, ?_, ?_⟩
  · have := L.geometry.low_pos
    have := C.low_le
    omega
  · rw [K.size L ho]
    exact hfit.size_aligned
  · rw [K.size L ho, hcount]
    exact hle
  · rw [K.size L ho]
    exact hfit.size_le
  · have h1 := (L.claim_bounds C).2.2.2.2
    have h2 := C.pos
    have h3 : rootBase = 1 <<< 52 := rfl
    omega

/-- The status of an object is no layout word. -/
theorem Layout.shape_ne_status (L : V.Layout) (ho : V.Published o) (hx : V.Published x) :
    x + 8 ≠ o := fun he => by
  have := (L.objects.fits hx).fields_le
  rcases L.disjoint hx ho (by omega) with h | h <;> omega

/-- The words of an object are not in a claim. -/
theorem Copied.read {n : Nat} (K : Copied V.memory m o c n) (C : V.Claim c n) (hx : V.Published x)
    (h1 : x ≤ b) (h2 : b < x + Object.size V.memory x) : m.read b = V.memory.read b :=
  K.rest b (by rcases C.objects hx with h | h <;> omega)

theorem published_moveTo (L : V.Layout) {n : Nat} (C : V.Claim c n) :
    (V.moveTo m o c).Published x ↔ x = c ∨ V.Published x :=
  published_withObject (V := V) (m := m) L C

theorem live_moveTo : (V.moveTo m o c).Live x ↔ V.Live x :=
  live_setRegion (V := { V with memory := m }) rfl rfl

theorem relocating_moveTo : (V.moveTo m o c).Relocating x ↔ V.Relocating x :=
  relocating_setRegion (V := { V with memory := m }) rfl

theorem kept_moveTo : (V.moveTo m o c).Kept x ↔ V.Kept x :=
  kept_setRegion (V := { V with memory := m }) rfl

theorem evacFailed_moveTo {i : Nat} :
    ((V.moveTo m o c).region i).evacFailed = (V.region i).evacFailed :=
  setRegion_congr (V := { V with memory := m }) (i := V.index c)
    (r := { V.regionOf c with starts := (V.regionOf c).starts.adding c }) RegionView.evacFailed rfl i

theorem state_moveTo {i : Nat} : ((V.moveTo m o c).region i).state = (V.region i).state := by
  show ((V.withObject m c).region i).state = _
  simp only [withObject, setRegion_region]
  split
  · rename_i he
    rw [he]
    rfl
  · rfl

theorem published_keep : (V.keep o).Published x ↔ V.Published x := published_setRegion (V := V) rfl

theorem live_keep : (V.keep o).Live x ↔ V.Live x := live_setRegion (V := V) rfl rfl

theorem relocating_keep : (V.keep o).Relocating x ↔ V.Relocating x :=
  relocating_setRegion (V := V) rfl

theorem state_keep {i : Nat} : ((V.keep o).region i).state = (V.region i).state := by
  simp only [HeapView.keep, setRegion_region]
  split
  · rename_i he
    rw [he]
    rfl
  · rfl

theorem sameSpace_moveTo : SameSpace V (V.moveTo m o c) :=
  { SameSpace.setRegion (V := V) (i := V.index c)
      (r := { V.regionOf c with starts := (V.regionOf c).starts.adding c }) rfl rfl rfl rfl with }

theorem sameSpace_keep : SameSpace V (V.keep o) :=
  { SameSpace.setRegion (V := V) (i := V.index o)
      (r := { V.regionOf o with evacFailed := true }) rfl rfl rfl rfl with }

/-- **An object is moved.** -/
theorem Inv.move (I : V.Inv W .chosen ts) (ho : o ∈ W.objects) (hr : V.Relocating o)
    (h0 : V.memory.read o = 0) (C : V.Claim c (Object.size V.memory o))
    (ha : (V.regionOf c).markLimit ≤ c)
    (K : Copied V.memory m o c (Object.size V.memory o)) :
    (V.moveTo m o c).Inv (W.move o c) .chosen ts ∧
      V.Preserves W (V.moveTo m o c) (W.move o c) ∧
      (V.moveTo m o c).Moved (W.move o c) o c := by
  have L := I.layout
  have F := I.faithful
  have hpo := F.published ho
  have hle := (L.objects.fits hpo).fields_le
  have hcb := L.claim_bounds C
  have hco : c ≠ o := fun he => L.claim_not_published C (he ▸ hpo)
  have hnew {p : Nat} (h : V.Published p) : p ≠ c := fun he => L.claim_not_published C (he ▸ h)
  have hsize : Object.size m c = Object.size V.memory o := K.size L hpo
  have hpub {p : Nat} : (V.moveTo m o c).Published p ↔ p = c ∨ V.Published p :=
    published_moveTo L C
  have hmem {p b : Nat} (hp : V.Published p) (h1 : p ≤ b) (h2 : b < p + Object.size V.memory p)
      (hb : b ≠ o) : (V.moveTo m o c).memory.read b = V.memory.read b :=
    (Memory.read_write_of_ne _ (Ne.symm hb) _).trans (K.read C hp h1 h2)
  have hstat {p : Nat} (hp : V.Published p) (hb : p ≠ o) :
      (V.moveTo m o c).memory.read p = V.memory.read p := by
    have := (L.objects.fits hp).fields_le
    exact hmem hp (by omega) (by omega) hb
  have hname {v : Nat} (h : v = 0 ∨ V.Published v) : (W.move o c).name v = W.name v := by
    refine Function.update_of_ne ?_ _ _
    rcases h with rfl | h
    · have := L.geometry.low_pos
      have := C.low_le
      omega
    · exact hnew h
  have hcr : ¬ V.Relocating c := C.inUse.2
  have hmoved : (V.moveTo m o c).Moved (W.move o c) o c :=
    ⟨hpub.2 (.inr hpo), relocating_moveTo.2 hr, Memory.read_write_self _ _ _, .inl rfl,
      fun h => hcr (relocating_moveTo.1 h), (hname (.inr hpo)).trans World.move_name.symm⟩
  have hmove {v d : Nat} (h : V.Moved W v d) : (V.moveTo m o c).Moved (W.move o c) v d := by
    have hv : v ≠ o := fun he => Object.tagged_ne_zero (h.status.symm.trans (he ▸ h0))
    have hd : d ≠ o := fun he => h.settled (he ▸ hr)
    refine ⟨hpub.2 (.inr h.published), relocating_moveTo.2 h.relocating,
      (hstat h.published hv).trans h.status, .inr ⟨h.mem, hd⟩,
      fun hs => h.settled (relocating_moveTo.1 hs), ?_⟩
    rw [hname (.inr h.published), hname (.inr (F.published h.mem))]
    exact h.name_eq
  have hrefers {v : Nat} (h : V.Refers W v) : (V.moveTo m o c).Refers (W.move o c) v := by
    rcases h with h | ⟨d, h⟩
    · by_cases he : v = o
      · exact .inr ⟨c, he ▸ hmoved⟩
      · exact .inl (.inr ⟨h, he⟩)
    · exact .inr ⟨d, hmove h⟩
  have E : V.Preserves W (V.moveTo m o c) (W.move o c) := by
    refine ⟨fun h => ⟨hrefers h, hname (.inr (F.refers_published h))⟩, fun {v} h => ?_,
      fun h => hpub.2 (.inr h), fun {p} h => ?_, fun {p} h => ?_, fun {p} h => ?_, Nat.le_refl _,
      fun {p} h => ?_, sameSpace_moveTo.fills, sameSpace_moveTo.counted, rfl, rfl, rfl, rfl, rfl,
      rfl, rfl, rfl, fun h => h, fun _ => rfl, fun _ => relocating_moveTo⟩
    · have hv : v ≠ o := fun he => by
        have := h.2 (he ▸ hr)
        rw [he, h0] at this
        exact Object.tagged_ne_zero this.symm
      exact ⟨.inr ⟨h.1, hv⟩, fun hs =>
        (hstat (F.published h.1) hv).trans (h.2 (relocating_moveTo.1 hs))⟩
    · rcases hpub.1 h with rfl | h
      · exact .inr (.inl (.inl rfl))
      · exact .inl h
    · rcases h with rfl | ⟨h, -⟩
      · exact .inr (L.claim_not_published C)
      · exact .inl h
    · rcases h with rfl | ⟨h, -⟩
      · exact .inl ⟨o, ho, World.move_name.symm⟩
      · exact .inl ⟨p, h, (hname (.inr (F.published h))).symm⟩
    · have := (L.objects.fits h).fields_le
      exact hmem h (by omega) (by omega) (L.shape_ne_status hpo h)
  have R : Relocated V W (V.moveTo m o c) (W.move o c) (Function.update id c o) := by
    have hsrc {p : Nat} (h : p ≠ c) : Function.update id c o p = p := Function.update_of_ne h _ _
    refine ⟨fun {p} h => ?_, fun {p} h => ?_, fun {p} h => ?_, fun {p q} h h' he => ?_,
      fun {p k} h hk hlt => ?_, fun {p} h hl => ?_, fun {p} h hl => ?_⟩
    · rcases h with rfl | ⟨h, -⟩
      · rwa [Function.update_self]
      · rwa [hsrc (hnew (F.published h))]
    · rcases h with rfl | ⟨h, -⟩
      · exact hpub.2 (.inl rfl)
      · exact hpub.2 (.inr (F.published h))
    · rcases h with rfl | ⟨h, -⟩
      · rw [Function.update_self]
        exact World.move_name
      · rw [hsrc (hnew (F.published h)), hname (.inr (F.published h))]
    · rcases h with rfl | ⟨h, hne⟩ <;> rcases h' with rfl | ⟨h', hne'⟩
      · rfl
      · rw [Function.update_self, hsrc (hnew (F.published h'))] at he
        exact absurd he.symm hne'
      · rw [Function.update_self, hsrc (hnew (F.published h))] at he
        exact absurd he hne
      · rwa [hsrc (hnew (F.published h)), hsrc (hnew (F.published h'))] at he
    · rcases h with rfl | ⟨h, hne⟩
      · rw [Function.update_self] at hlt ⊢
        have hout : p + 8 * k ≠ o := by
          rcases C.objects hpo with h1 | h1 <;> omega
        exact (Memory.read_write_of_ne _ (Ne.symm hout) _).trans (K.words k hk hlt)
      · rw [hsrc (hnew (F.published h))] at hlt ⊢
        refine hmem (F.published h) (by omega) (by omega) fun he => ?_
        rcases L.disjoint (F.published h) hpo hne with h1 | h1 <;> omega
    · rcases h with rfl | ⟨h, -⟩
      · exact live_moveTo.2 (.inl ha)
      · rw [hsrc (hnew (F.published h))] at hl
        exact live_moveTo.2 hl
    · rcases h with rfl | ⟨h, -⟩
      · exact .inr (live_moveTo.2 (.inl ha))
      · rw [hsrc (hnew (F.published h))] at hl
        exact .inl hl
  have Lnew : (V.moveTo m o c).Layout := by
    have hsz : Object.size m o = Object.size V.memory o := by
      simp only [Object.size, wordBytes, K.read C hpo (b := o + 8) (by omega) (by omega)]
    refine (L.publish C (K.fits L hpo C) hsize K.rest).write_object (o := o) (b := o)
      ((published_withObject L C).2 (.inr hpo)) (Nat.le_refl _) ?_ (by omega)
    show o < o + Object.size m o
    omega
  refine ⟨⟨Lnew, F.relocate L R E rfl (fun v h => hname h) rfl (fun r hr' => ?_) (fun {p} h => ?_)
    (fun {i} hk => ?_) (fun i => ?_) (fun {p} h hl => ?_) (fun {p} h hs => ?_) rfl,
    fun h => by cases h⟩, E, hmoved⟩
  · have h1 := L.slot_ge hr'
    have h2 := L.inside_lt (a := o) hpo (by omega)
    refine (Memory.read_write_of_ne _ (by omega) _).trans (K.rest _ (.inr ?_))
    exact Nat.le_trans hcb.2.2.2.2 h1
  · rcases hpub.1 h with rfl | h
    · exact .inl ((Memory.read_write_of_ne _ (Ne.symm hco) _).trans K.status)
    · by_cases he : p = o
      · exact .inr (.inr ⟨c, he ▸ hmoved⟩)
      · rcases F.status h with h1 | ⟨h1, h2, h3, h4⟩ | ⟨d, h1⟩
        · exact .inl ((hstat h he).trans h1)
        · exact .inr (.inl ⟨relocating_moveTo.2 h1, kept_moveTo.2 h2, .inr ⟨h3, he⟩, (hstat h he).trans h4⟩)
        · exact .inr (.inr ⟨d, hmove h1⟩)
  · obtain ⟨p, hp, hi, hs⟩ := F.excused (evacFailed_moveTo ▸ hk)
    have hne : p ≠ o := fun he => Object.tagged_ne_zero (hs.symm.trans (he ▸ h0))
    exact ⟨p, .inr ⟨hp, hne⟩, hi, (hstat (F.published hp) hne).trans hs⟩
  · rw [state_moveTo]
    exact (F.states i).1
  · rcases hpub.1 h with rfl | h
    · exact .inl (.inl rfl)
    · exact hrefers (F.survivors (by decide) h (live_moveTo.1 hl))
  · rcases h with rfl | ⟨h, -⟩
    · exact absurd (relocating_moveTo.1 hs) hcr
    · exact live_moveTo.2 (F.live rfl h (relocating_moveTo.1 hs))

theorem Layout.keep (L : V.Layout) (hpo : V.Published o) (hr : V.Relocating o) :
    (V.keep o).Layout := by
  have hle := (L.objects.fits hpo).fields_le
  have hreg := L.regions (V.index o)
  have hcur (hc : (V.region (V.index o)).InUse) : False := hc.2 hr
  refine Layout.write_object (V := V.setRegion (V.index o) { V.regionOf o with evacFailed := true })
    (L.setRegion { hreg with
      empty := fun he => ?_
      kept := fun _ => hr } rfl (Nat.le_refl _) (L.tlabs.counted _) fun hc => ?_)
    (published_keep.2 hpo) (Nat.le_refl _) ?_ (by omega)
  · exact absurd (he.symm.trans hr) (by simp)
  · rcases hc with hc | hc
    · exact (hcur (L.mutatorRegion _ hc)).elim
    · exact (hcur (L.evacRegion _ hc)).elim
  · show o < o + Object.size V.memory o
    omega

/-- No mark is set where an object finds no room. -/
theorem Layout.retains_keep (L : V.Layout) (ho : V.Published o) :
    Retains (fun _ => True) V (V.keep o) := by
  have hsize := (L.objects.fits ho).size_pos
  have R : Retains (fun _ => True) V
      { V with memory := V.memory.write o (Object.tagged o) } :=
    .write (L.shape_ne_status ho ·) (.inr ⟨o, ho, Nat.le_refl o, by omega⟩)
  have T : SameTally V (V.keep o) :=
    { SameTally.setRegion (V := V) (i := V.index o)
        (r := { V.regionOf o with evacFailed := true }) rfl rfl rfl with }
  exact .of_tally T sameSpace_keep.fills (fun h => .inl (published_keep.1 h))
    (R.shape trivial) (R.lost · trivial)

/-- **An object finds no room** and becomes its own copy. -/
theorem Inv.keep (I : V.Inv W .chosen ts) (ho : o ∈ W.objects) (hr : V.Relocating o)
    (h0 : V.memory.read o = 0) :
    (V.keep o).Inv W .chosen ts ∧ V.Evolves W (V.keep o) W ∧ (V.keep o).Current W o := by
  have L := I.layout
  have F := I.faithful
  have hpo := F.published ho
  have hle := (L.objects.fits hpo).fields_le
  have hkept {p : Nat} (h : V.Kept p) : (V.keep o).Kept p := by
    show ((V.keep o).region (V.index p)).evacFailed = true
    simp only [HeapView.keep, setRegion_region]
    split
    · rfl
    · exact h
  have hself : (V.keep o).Kept o := by
    show ((V.keep o).region (V.index o)).evacFailed = true
    simp only [HeapView.keep, setRegion_region_self]
  have hstat : (V.keep o).memory.read o = Object.tagged o := Memory.read_write_self _ _ _
  have hmem {b : Nat} (hb : b ≠ o) : (V.keep o).memory.read b = V.memory.read b :=
    Memory.read_write_of_ne _ (Ne.symm hb) _
  have hmove {v d : Nat} (h : V.Moved W v d) : (V.keep o).Moved W v d := by
    have hv : v ≠ o := fun he => Object.tagged_ne_zero (h.status.symm.trans (he ▸ h0))
    exact ⟨published_keep.2 h.published, relocating_keep.2 h.relocating, (hmem hv).trans h.status, h.mem,
      fun hs => h.settled (relocating_keep.1 hs), h.name_eq⟩
  have hrefers {v : Nat} (h : V.Refers W v) : (V.keep o).Refers W v := by
    rcases h with h | ⟨d, h⟩
    · exact .inl h
    · exact .inr ⟨d, hmove h⟩
  have Lnew := L.keep hpo hr
  have E : V.Evolves W (V.keep o) W := by
    refine ⟨⟨⟨fun h => ⟨hrefers h, rfl⟩, fun {v} h => ⟨h.1, fun hs => ?_⟩, published_keep.2,
      fun h => .inl (published_keep.1 h), .inl, fun h => .inl ⟨_, h, rfl⟩, Nat.le_refl _,
      fun {p} h => ?_, sameSpace_keep.fills, sameSpace_keep.counted, rfl, rfl, rfl, rfl, rfl, rfl,
      rfl, rfl, fun h => h, fun _ => rfl, fun _ => relocating_keep⟩,
      .of_none fun {p c} h => ?_, (L.retains_keep hpo).tallied L Lnew⟩, fun h => h, fun h _ => h⟩
    · by_cases hv : v = o
      · rw [hv]
        exact hstat
      · exact (hmem hv).trans (h.2 (relocating_keep.1 hs))
    · exact hmem (L.shape_ne_status hpo h)
    · obtain ⟨hp, hf, hne⟩ := h
      by_cases he : p = o
      · rw [he, Object.forwardee?_of_tagged hstat (L.bounds hpo).aligned] at hf
        cases hf
        exact absurd he.symm hne
      · exact ⟨published_keep.1 hp, by rwa [← Object.forwardee?_congr (hmem he)], hne⟩
  have R : Relocated V W (V.keep o) W id := by
    refine ⟨fun h => h, fun h => published_keep.2 (F.published h), fun _ => rfl, fun _ _ he => he,
      fun {p k} h hk hlt => hmem fun he => ?_, fun _ hl => live_keep.2 hl, fun _ hl => .inl hl⟩
    simp only [id_eq] at hlt
    by_cases hp : p = o
    · omega
    · rcases L.disjoint (F.published h) hpo hp with h1 | h1 <;> omega
  refine ⟨⟨Lnew, F.relocate L R E.toPreserves rfl (fun v _ => rfl) rfl (fun r hr' => hmem ?_)
    (fun {p} h => ?_) (fun {i} hk => ?_) (fun i => ?_)
    (fun h hl => hrefers (F.survivors (by decide) (published_keep.1 h) (live_keep.1 hl)))
    (fun h hs => live_keep.2 (F.live rfl h (relocating_keep.1 hs))) rfl, fun h => by cases h⟩,
    E, ho, fun _ => hstat⟩
  · have h1 := L.slot_ge hr'
    have h2 := L.inside_lt (a := o) hpo (by omega)
    omega
  · by_cases he : p = o
    · rw [he]
      exact .inr (.inl ⟨relocating_keep.2 hr, hself, ho, hstat⟩)
    · rcases F.status (published_keep.1 h) with h1 | ⟨h1, h2, h3, h4⟩ | ⟨d, h1⟩
      · exact .inl ((hmem he).trans h1)
      · exact .inr (.inl ⟨relocating_keep.2 h1, hkept h2, h3, (hmem he).trans h4⟩)
      · exact .inr (.inr ⟨d, hmove h1⟩)
  · -- It is in the region that is kept for it, and the other regions are as before.
    by_cases hi : i = V.index o
    · exact ⟨o, ho, hi.symm, hstat⟩
    · rw [show (V.keep o).region i = V.region i from if_neg hi] at hk
      obtain ⟨p, hp, hi, hs⟩ := F.excused hk
      have hne : p ≠ o := fun he => Object.tagged_ne_zero (hs.symm.trans (he ▸ h0))
      exact ⟨p, hp, hi, (hmem hne).trans hs⟩
  · rw [state_keep]
    exact (F.states i).1

end

/-! ## 3. What the program does not notice -/

/-- Null, or a reference that the barriers would give back as it is. -/
def Clean (V : HeapView) (W : World) (v : Nat) : Prop := v = 0 ∨ V.Current W v

/-- An object that is to be moved, and was not looked at. -/
def Unsettled (V : HeapView) (W : World) (o : Nat) : Prop :=
  o ∈ W.objects ∧ V.Relocating o ∧ V.memory.read o = 0

/-- A step that the program does not notice. -/
structure Transparent (V : HeapView) (W : World) (V' : HeapView) (W' : World) (st : Stage)
    (ts : List MarkTask) : Prop where
  inv : V'.Inv W' st ts
  evolves : V.Evolves W V' W'
  ideal : W'.ideal = W.ideal
  mutators : V'.mutators = V.mutators
  joined : V'.joined = V.joined
  maxRegions : V'.maxRegions = V.maxRegions
  roots : V'.roots = V.roots
  fields : ∀ {o i}, V.Current W o → i < Object.refCount V.memory o →
    V'.memory.read (Object.field o i) = V.memory.read (Object.field o i) ∨
      V'.Clean W' (V'.memory.read (Object.field o i))
  unsettled : ∀ {p}, V'.Unsettled W' p → V.Unsettled W p

/-- A barrier gives `r` for `v`. -/
structure Resolved (V : HeapView) (W : World) (v : Nat) (V' : HeapView) (W' : World) (r : Nat)
    (st : Stage) (ts : List MarkTask) : Prop extends V.Transparent W V' W' st ts where
  result : V'.Clean W' r
  name : W'.name r = W.name v

section
variable {V V' V'' : HeapView} {W W' W'' : World} {st : Stage} {ts : List MarkTask}
  {v r o c n : Nat} {m : Memory}

theorem Clean.refers (h : V.Clean W v) (hv : v ≠ 0) : V.Refers W v := (h.resolve_left hv).refers

theorem Preserves.clean (E : V.Preserves W V' W') (h : V.Clean W v) : V'.Clean W' v :=
  h.imp_right E.current

theorem Transparent.refl (I : V.Inv W st ts) : V.Transparent W V W st ts :=
  ⟨I, Evolves.refl V W, rfl, rfl, rfl, rfl, rfl, fun _ _ => .inl rfl, fun h => h⟩

/-- The shape of an object that stays where it is does not change. -/
theorem Transparent.refCount (T : V.Transparent W V' W' st ts) (I : V.Inv W st ts)
    (ho : V.Current W o) : Object.refCount V'.memory o = Object.refCount V.memory o := by
  rw [T.inv.faithful.refs (T.evolves.current ho).1, I.faithful.refs ho.1, T.ideal,
    T.evolves.name ho.refers]

theorem Transparent.trans (T : V.Transparent W V' W' st ts)
    (T' : V'.Transparent W' V'' W'' st ts) (I : V.Inv W st ts) :
    V.Transparent W V'' W'' st ts where
  inv := T'.inv
  evolves := T.evolves.trans T'.evolves
  ideal := T'.ideal.trans T.ideal
  mutators := T'.mutators.trans T.mutators
  joined := T'.joined.trans T.joined
  maxRegions := T'.maxRegions.trans T.maxRegions
  roots := T'.roots.trans T.roots
  fields ho hi := by
    rcases T'.fields (T.evolves.current ho) (by rwa [T.refCount I ho]) with h' | h'
    · rcases T.fields ho hi with h | h
      · exact .inl (h'.trans h)
      · exact .inr (h' ▸ T'.evolves.clean h)
    · exact .inr h'
  unsettled h := T.unsettled (T'.unsettled h)

theorem Resolved.of_transparent (R : V'.Resolved W' v V'' W'' r st ts)
    (T : V.Transparent W V' W' st ts) (I : V.Inv W st ts) (hv : V.Refers W v) :
    V.Resolved W v V'' W'' r st ts :=
  ⟨T.trans R.toTransparent I, R.result, R.name.trans (T.evolves.name hv)⟩

theorem Resolved.refl (I : V.Inv W st ts) (hv : V.Clean W v) : V.Resolved W v V W v st ts :=
  ⟨Transparent.refl I, hv, rfl⟩

/-- Allocation is not noticed. -/
theorem Transparent.of_allocated {kind : AllocKind} {r : Option Nat} (I : V.Inv W st ts)
    (A : Allocated V n kind r V') (hk : kind ≠ .tlab) : V.Transparent W V' W st ts := by
  have G := A.grows
  obtain ⟨I', E⟩ := I.grows G A.layout A.fills fun h => by simpa [hk] using A.counted h
  refine ⟨I', E, rfl, A.mutators, by rw [G.frame], by rw [G.frame]; rfl, by rw [G.frame],
    fun _ _ => .inl (by rw [G.memory]), fun h => ?_⟩
  exact ⟨h.1, G.relocating.1 h.2.1, by rw [← G.memory]; exact h.2.2⟩

/-- A reference is to an object that was not looked at, or forwarded to the current copy. -/
theorem Faithful.forwardee (F : V.Faithful W st) (L : V.Layout) (hv : V.Refers W v) :
    (V.memory.read v = 0 ∧ Object.forwardee? V.memory v = none ∧ v ∈ W.objects) ∨
      ∃ c, V.memory.read v ≠ 0 ∧ Object.forwardee? V.memory v = some c ∧ V.Current W c ∧
        W.name c = W.name v := by
  have hp := F.refers_published hv
  rcases F.status hp with h | ⟨-, -, hm, h⟩ | ⟨c, h⟩
  · refine .inl ⟨h, Object.forwardee?_of_zero h, ?_⟩
    rcases hv with hv | ⟨c, hv⟩
    · exact hv
    · exact absurd (hv.status.symm.trans h) Object.tagged_ne_zero
  · exact .inr ⟨v, by rw [h]; exact Object.tagged_ne_zero,
      Object.forwardee?_of_tagged h (L.bounds hp).aligned, ⟨hm, fun _ => h⟩, rfl⟩
  · exact .inr ⟨c, by rw [h.status]; exact Object.tagged_ne_zero,
      Object.forwardee?_of_tagged h.status (L.bounds (F.published h.mem)).aligned, h.current,
      h.name_eq.symm⟩

/-- **One object more has a copy**, where memory was allocated for it. -/
theorem copies_moveTo (I : V'.Inv W .chosen ts)
    (A : Allocated V (Object.size V.memory o) .evacuation (some c) V') (ho : V'.Published o)
    (K : Copied V'.memory m o c (Object.size V'.memory o))
    (hs : Object.size (V'.moveTo m o c).memory o = Object.size V'.memory o) :
    V.Copies (V'.moveTo m o c) := by
  have L := I.layout
  have hmem : V'.memory = V.memory := A.grows.memory
  have hpos : 0 < Object.size V.memory o := hmem ▸ (L.objects.fits ho).size_pos
  have C : V'.Claim c (Object.size V'.memory o) := hmem ▸ (A.chunk c rfl hpos).1.toClaim
  have hco : c ≠ o := fun he => L.claim_not_published C (he ▸ ho)
  have hfwd {p d : Nat} (h : (V'.moveTo m o c).Forwarded p d) :
      (p = o ∧ d = c) ∨ V.Forwarded p d := by
    obtain ⟨hp, hf, hne⟩ := h
    rcases (published_moveTo L C).1 hp with rfl | hp
    · have hread : (V'.moveTo m o p).memory.read p = 0 :=
        (Memory.read_write_of_ne _ (Ne.symm hco) _).trans K.status
      rw [Object.forwardee?_of_zero hread] at hf
      cases hf
    · by_cases he : p = o
      · subst he
        have hread : (V'.moveTo m p c).memory.read p = Object.tagged c :=
          Memory.read_write_self _ _ _
        rw [Object.forwardee?_of_tagged hread C.aligned] at hf
        cases hf
        exact .inl ⟨rfl, rfl⟩
      · have hle := (L.objects.fits hp).fields_le
        have hread : (V'.moveTo m o c).memory.read p = V.memory.read p :=
          ((Memory.read_write_of_ne _ (Ne.symm he) _).trans
            (K.read C hp (Nat.le_refl _) (by omega))).trans (by rw [hmem])
        exact .inr ⟨A.grows.published.1 hp, by rwa [← Object.forwardee?_congr hread], hne⟩
  refine ⟨fun h => ?_, fun h hn h' hn' hne => ?_⟩
  · rcases hfwd h with ⟨rfl, rfl⟩ | h
    · right
      rw [hs, sameSpace_moveTo.arena, hmem]
      exact A.fresh _ rfl hpos
    · exact .inl h
  · exact absurd (((hfwd h).resolve_right hn).1.trans ((hfwd h').resolve_right hn').1.symm) hne

/-- No mark is set where an object is moved, and memory was allocated for it. -/
theorem tallied_moveTo (L : V.Layout) (A : Allocated V (Object.size V.memory o) .evacuation (some c) V')
    (ho : V'.Published o) (K : Copied V'.memory m o c (Object.size V'.memory o)) (X : V.Tallied) :
    (V'.moveTo m o c).Tallied := by
  have hmem : V'.memory = V.memory := A.grows.memory
  have hpos : 0 < Object.size V.memory o := hmem ▸ (A.layout.objects.fits ho).size_pos
  have C : V'.Claim c (Object.size V'.memory o) := hmem ▸ (A.chunk c rfl hpos).1.toClaim
  have hoffers : V.arena.Offers c (Object.size V'.memory o) :=
    hmem ▸ .inl (A.fresh c rfl hpos).unused
  have hsize := K.size A.layout ho
  have Lc := A.layout.publish C (K.fits A.layout ho C) hsize K.rest
  have Xc := (A.grows.retains_withObject A.fills A.layout C hsize hoffers K.rest).tallied L Lc X
  have hpo : (V'.withObject m c).Published o := (published_withObject A.layout C).2 (.inr ho)
  have hle := (Lc.objects.fits hpo).size_pos
  exact Lc.tallied_write hpo (Nat.le_refl o) (by omega) (Lc.shape_ne_status hpo ·) Xc

/-- **Moving an object is not noticed.** -/
theorem Resolved.move (I : V.Inv W .chosen ts)
    (A : Allocated V (Object.size V.memory o) .evacuation (some c) V') (ho : o ∈ W.objects)
    (hr : V'.Relocating o) (h0 : V'.memory.read o = 0)
    (K : Copied V'.memory m o c (Object.size V'.memory o)) :
    V.Resolved W o (V'.moveTo m o c) (W.move o c) c .chosen ts := by
  have T := Transparent.of_allocated I A (by decide)
  have hpos := (I.layout.objects.fits (I.faithful.published ho)).size_pos
  have C : V'.Claim c (Object.size V'.memory o) := A.grows.memory ▸ (A.chunk c rfl hpos).1.toClaim
  obtain ⟨I', P, hmoved⟩ := T.inv.move ho hr h0 C (A.chunk c rfl hpos).1.above K
  have L := T.inv.layout
  have F := T.inv.faithful
  have hpo := F.published ho
  refine ⟨⟨I', T.evolves.place P (copies_moveTo T.inv A hpo K (P.sizes hpo))
      (tallied_moveTo I.layout A hpo K) rfl rfl, T.ideal, T.mutators, T.joined, T.maxRegions,
      T.roots, fun {p i} hp hi => ?_, fun {p} h => ?_⟩,
    .inr hmoved.current, World.move_name⟩
  · have hp' := T.evolves.current hp
    have hi' : i < Object.refCount V'.memory p := by rwa [T.refCount I hp]
    have hpub := F.published hp'.1
    have hin := L.field_inside hpub hi'
    have hsame : (V'.moveTo m o c).memory.read (Object.field p i) =
        V'.memory.read (Object.field p i) :=
      (Memory.read_write_of_ne _ (L.field_ne_header hpub hi' hpo).1 _).trans
        (K.read C hpub (by omega) (by omega))
    rw [hsame]
    rcases T.fields hp hi with h | h
    · exact .inl h
    · exact .inr (P.clean h)
  · have hrel : V'.Relocating p := relocating_moveTo.1 h.2.1
    rcases h.1 with rfl | ⟨hm, hne⟩
    · exact absurd hrel C.inUse.2
    · have := L.objects.fits (F.published hm) |>.fields_le
      refine T.unsettled ⟨hm, hrel, (K.read C (F.published hm) (Nat.le_refl _) (by omega)).symm.trans ?_⟩
      exact (Memory.read_write_of_ne _ (Ne.symm hne) _).symm.trans h.2.2

/-- **Keeping an object is not noticed.** -/
theorem Resolved.keep (I : V.Inv W .chosen ts) (ho : o ∈ W.objects) (hr : V.Relocating o)
    (h0 : V.memory.read o = 0) : V.Resolved W o (V.keep o) W o .chosen ts := by
  obtain ⟨I', E, hcur⟩ := I.keep ho hr h0
  refine ⟨⟨I', E, rfl, rfl, rfl, rfl, rfl, fun {p i} hp hi => .inl ?_, fun {p} h => ?_⟩, .inr hcur, rfl⟩
  · exact Memory.read_write_of_ne _ (I.layout.field_ne_header (I.faithful.published hp.1) hi
      (I.faithful.published ho)).1 _
  · have hne : p ≠ o := fun he => Object.tagged_ne_zero
      ((Memory.read_write_self _ _ _).symm.trans (he ▸ h.2.2))
    exact ⟨h.1, relocating_keep.1 h.2.1,
      (Memory.read_write_of_ne _ (Ne.symm hne) _).symm.trans h.2.2⟩

end

end HeapView

/-! ## 4. Evacuation of an object -/

namespace RegionHeap

open HeapView

/-- How many objects found no room. -/
def failures (h : RegionHeap) : Nat := h.cycleStats.evacuationFailures

/-- While every object finds room, no region is kept that was not. -/
structure Roomy (h h' : RegionHeap) : Prop where
  failures_le : h.failures ≤ h'.failures
  kept : h'.failures = h.failures →
    ∀ i, (h'.view.region i).evacFailed = (h.view.region i).evacFailed

/-- The count of the objects that found no room is as before. -/
def SameFailures (h h' : RegionHeap) : Prop := h'.failures = h.failures

instance : IsPreorder RegionHeap SameFailures where
  refl _ := rfl
  trans _ _ _ S S' := Eq.trans S' S

section
variable {α : Type} {h h' h'' : RegionHeap} {i : Nat}

theorem Roomy.refl (h : RegionHeap) : Roomy h h := ⟨Nat.le_refl _, fun _ _ => rfl⟩

theorem Roomy.trans (R : Roomy h h') (R' : Roomy h' h'') : Roomy h h'' := by
  refine ⟨Nat.le_trans R.failures_le R'.failures_le, fun he i => ?_⟩
  have h1 := R.failures_le
  have h2 := R'.failures_le
  exact (R'.kept (by omega) i).trans (R.kept (by omega) i)

/-- No region was kept, and nothing else can have failed. -/
theorem SameFailures.roomy (S : SameFailures h h')
    (hk : ∀ i, (h'.view.region i).evacFailed = (h.view.region i).evacFailed) : Roomy h h' :=
  ⟨Nat.le_of_eq S.symm, fun _ => hk⟩

theorem keeps_failures_onMemory {act : Action Memory α} : Keeps SameFailures (onMemory act) :=
  keeps_onPart fun _ _ => rfl

theorem keeps_failures_onSpace {act : Action RegionSpace α} : Keeps SameFailures (onSpace act) :=
  keeps_onPart fun _ _ => rfl

/-- Where an object is moved to is not counted as a failure. -/
theorem keeps_failures_evacuateTo {o dst size : Nat} : Keeps SameFailures (evacuateTo o dst size) := by
  refine keeps_failures_onMemory.bind fun copy => keeps_regionOfObject.bind fun i => ?_
  refine keeps_failures_onSpace.bind fun _ => keeps_failures_onMemory.bind fun r => ?_
  cases r with
  | error winner => exact keeps_failures_onSpace.bind fun _ => keeps_pure
  | ok x => exact keeps_modify_bind (fun _ => rfl) fun _ => keeps_pure

end

variable {h : RegionHeap} {W : World} {st : Stage} {ts : List MarkTask} {o c v n : Nat}

/-- A reference into the heap has its region. -/
theorem ends_regionOfPublished {post : Nat → RegionHeap → Prop} (L : h.view.Layout)
    (hp : h.view.Published o) :
    Ends (regionOfObject o) h post ↔ post (h.view.index o) h := by
  have hB := L.bounds hp
  exact ends_regionOfObject hB.low_le hB.lt_high hB.lt_max hB.state

theorem ends_selfForward (L : h.view.Layout) (hp : h.view.Published o)
    (h0 : h.view.memory.read o = 0) :
    Ends (selfForward o) h fun r h' => r = o ∧ h'.view = h.view.keep o ∧
      h'.failures = h.failures + 1 := by
  simp only [selfForward, ends_bind]
  rw [ends_regionOfPublished L hp]
  refine ((ends_onRegion (L.bounds hp).lt_max Region.acts_setEvacFailed).and_after
    (keeps_failures_onSpace h)).mono fun _ h₁ h₁' => ?_
  obtain ⟨⟨r, rfl, hv⟩, hf⟩ := h₁'
  have h0' : (HasMemory.memory h₁).read o = 0 := by
    show h₁.view.memory.read o = 0
    rw [hv]
    exact h0
  rw [ends_onMemory, Object.ends_install h0']
  simp only [ends_bind, modifyCycleStats, note, noteAll, ends_modify, ends_pure]
  refine ⟨trivial, ?_, congrArg (· + 1) hf⟩
  show { h₁.view with memory := h₁.view.memory.write o (Object.tagged o) } = h.view.keep o
  rw [hv]
  rfl

theorem ends_evacuateTo (L : h.view.Layout) (hp : h.view.Published o)
    (h0 : h.view.memory.read o = 0) (hn : n = Object.size h.view.memory o)
    (C : h.view.Claim c n) :
    Ends (evacuateTo o c n) h fun r h' => r = c ∧
      ∃ m, Copied h.view.memory m o c n ∧ h'.view = h.view.moveTo m o c := by
  subst hn
  have hfit := L.objects.fits hp
  have hle := hfit.fields_le
  have hdis := C.objects hp
  have hcb := L.claim_bounds C
  have hmax := Nat.lt_of_lt_of_le hcb.2.2.1 L.geometry.committed_le
  simp only [evacuateTo, ends_bind, ends_onMemory]
  refine (Object.ends_copy hfit C.aligned hdis).mono fun r m hm => ?_
  obtain ⟨rfl, hm0, hmk, hmr⟩ := hm
  have K : Copied h.view.memory m o r (Object.size h.view.memory o) := ⟨hm0, hmk, hmr⟩
  obtain ⟨h₁, hh₁⟩ : ∃ h₁ : RegionHeap, h₁ = HasMemory.setMemory m h := ⟨_, rfl⟩
  have hv₁ : h₁.view = { h.view with memory := m } := by
    rw [hh₁]
    rfl
  rw [← hh₁, ends_regionOfObject (by rw [hv₁]; exact C.low_le)
    (by rw [hv₁]; exact hcb.2.2.2.1) (by rw [hv₁]; exact hmax) (by rw [hv₁]; exact C.inUse.1)]
  have hidx : h₁.view.index r = h.view.index r := by rw [hv₁]; rfl
  have hreg : h₁.view.region (h.view.index r) = h.view.regionOf r := by rw [hv₁]; rfl
  have hcheck : (h.view.regionOf r).starts.checkIndex r = .ok () := by
    have hr := L.regions (h.view.index r)
    have h1 := hr.limit_eq
    have h2 := C.pos
    simp only [regionOf] at hcb ⊢
    exact hr.starts.checkIndex_eq hcb.1 (by omega) C.aligned L.geometry.size_aligned
  rw [hidx]
  refine (ends_onRegion (by rw [hv₁]; exact hmax)
    (Region.acts_setStart (by rw [hreg]; exact hcheck))).mono fun _ h₂ h₂' => ?_
  obtain ⟨x, rfl, hv₂⟩ := h₂'
  have h0' : (HasMemory.memory h₂).read o = 0 := by
    show h₂.view.memory.read o = 0
    rw [hv₂, hv₁]
    exact (K.read C hp (Nat.le_refl _) (by omega)).trans h0
  rw [Object.ends_install h0']
  simp only [ends_bind, modifyCycleStats, ends_modify, ends_pure]
  refine ⟨trivial, m, K, ?_⟩
  show { h₂.view with memory := h₂.view.memory.write o (Object.tagged r) } = h.view.moveTo m o r
  rw [hv₂, hreg, hv₁]
  rfl

/-- **Evacuation of an object.**  It gives the current copy, whether that was there before, is new,
or is the object itself, which found no room. -/
theorem ends_evacuateObject (I : h.view.Inv W .chosen ts) (hv : h.view.Refers W v)
    (hr : h.view.Relocating v) :
    Ends (evacuateObject v) h fun r h' => Roomy h h' ∧
      ∃ W', h.view.Resolved W v h'.view W' r .chosen ts ∧ ¬ h'.view.Unsettled W' v := by
  have L := I.layout
  have F := I.faithful
  have hp := F.refers_published hv
  have hmem : (HasMemory.memory h : Memory) = h.view.memory := rfl
  simp only [evacuateObject, ends_bind, ends_getMemory, hmem]
  rcases F.forwardee L hv with ⟨h0, hf, hm⟩ | ⟨c, h0, hf, hc, hn⟩
  · rw [hf]
    simp only [ends_bind]
    have hfit := L.objects.fits hp
    have hle := hfit.fields_le
    refine ((ends_allocateIn L hfit.size_aligned fun hk => by cases hk).and_after
      (keeps_failures_onSpace h)).mono fun r h₁ h₁' => ?_
    obtain ⟨A, hf₁⟩ := h₁'
    have N : Roomy h h₁ := hf₁.roomy A.grows.kept
    have T := Transparent.of_allocated I A (by decide)
    have hp₁ := A.grows.published.2 hp
    have hr₁ := A.grows.relocating.2 hr
    have hm₁ : h₁.view.memory = h.view.memory := A.grows.memory
    have h0₁ : h₁.view.memory.read v = 0 := by rw [hm₁]; exact h0
    cases r with
    | none =>
      refine (ends_selfForward A.layout hp₁ h0₁).mono fun r h₂ h₂' => ?_
      obtain ⟨rfl, hv₂, hf₂⟩ := h₂'
      have R := Resolved.keep T.inv hm hr₁ h0₁
      rw [← hv₂] at R
      have N₂ : Roomy h₁ h₂ := ⟨by omega, fun he => absurd he (by omega)⟩
      refine ⟨N.trans N₂, W, R.of_transparent T I hv, fun hu => ?_⟩
      rw [hv₂] at hu
      exact Object.tagged_ne_zero ((Memory.read_write_self _ _ _).symm.trans hu.2.2)
    | some c =>
      obtain ⟨C, -, -⟩ := A.chunk c rfl hfit.size_pos
      have hsize : Object.size h.view.memory v = Object.size h₁.view.memory v := by rw [hm₁]
      refine ((ends_evacuateTo A.layout hp₁ h0₁ hsize C.toClaim).and_after
        (keeps_failures_evacuateTo h₁)).mono fun r h₂ h₂' => ?_
      obtain ⟨⟨rfl, m, K, hv₂⟩, hf₂⟩ := h₂'
      have N₂ : Roomy h₁ h₂ := hf₂.roomy fun i => by
        rw [hv₂]
        exact evacFailed_moveTo
      have R := Resolved.move I A hm hr₁ h0₁ (hsize ▸ K)
      rw [← hv₂] at R
      refine ⟨N.trans N₂, W.move v r, R, fun hu => ?_⟩
      rw [hv₂] at hu
      exact Object.tagged_ne_zero ((Memory.read_write_self _ _ _).symm.trans hu.2.2)
  · rw [hf]
    exact ends_pure.2 ⟨.refl h, W, ⟨Transparent.refl I, .inr hc, hn⟩, fun hu => h0 hu.2.2⟩

end RegionHeap

/-! ## 5. Loads -/

namespace HeapView

/-- A slot: a field of an object, also of one that is not in use any more, or a word outside of the
heap, as roots are. -/
def HasSlot (V : HeapView) (a : Nat) : Prop :=
  (∃ o i, V.Published o ∧ i < Object.refCount V.memory o ∧ a = Object.field o i) ∨ rootBase ≤ a

/-- A slot of the program: a field of an object, or a root. -/
def IsSlot (V : HeapView) (W : World) (a : Nat) : Prop :=
  (∃ o i, V.Current W o ∧ i < Object.refCount V.memory o ∧ a = Object.field o i) ∨
    ∃ c ∈ V.roots.cells, c.live = true ∧ c.slot = a

section
variable {V V' : HeapView} {W W' : World} {st : Stage} {ts : List MarkTask} {a r : Nat}

theorem Inv.hasSlot (I : V.Inv W st ts) (h : V.IsSlot W a) : V.HasSlot a := by
  rcases h with ⟨o, i, ho, hi, rfl⟩ | ⟨c, hc, -, rfl⟩
  · exact .inl ⟨o, i, I.faithful.published ho.1, hi, rfl⟩
  · exact .inr (I.layout.slot_ge hc)

theorem Preserves.hasSlot (E : V.Preserves W V' W') (h : V.HasSlot a) : V'.HasSlot a := by
  refine h.imp_left ?_
  rintro ⟨o, i, ho, hi, rfl⟩
  refine ⟨o, i, E.published ho, ?_, rfl⟩
  rwa [Object.refCount, wordBytes, E.shape ho]

/-- What a slot holds is null or a reference. -/
theorem Inv.slot_refers (I : V.Inv W st ts) (h : V.IsSlot W a) :
    V.memory.read a = 0 ∨ V.Refers W (V.memory.read a) := by
  by_cases h0 : V.memory.read a = 0
  · exact .inl h0
  · right
    rcases h with ⟨o, i, ho, hi, rfl⟩ | ⟨c, hc, hl, rfl⟩
    · exact (I.faithful.fields ho.1 hi).1.refers h0
    · exact (I.faithful.roots hc hl).1.refers h0

/-- A slot is no word of a header. -/
theorem HasSlot.ne_header (h : V.HasSlot a) (L : V.Layout) {p : Nat} (hp : V.Published p) :
    p ≠ a ∧ p + 8 ≠ a := by
  rcases h with ⟨o, i, ho, hi, rfl⟩ | ha
  · exact L.field_ne_header ho hi hp
  · have h1 := (L.objects.fits hp).fields_le
    have h2 := L.inside_lt (a := p + 8) hp (by omega)
    omega

/-- **Healing a slot is not noticed.** -/
theorem Transparent.heal (I : V.Inv W st ts) (hst : st ≠ .marking) (ha : V.HasSlot a)
    (hr : V.Current W r) (hn : W.name r = W.name (V.memory.read a)) :
    V.Transparent W { V with memory := V.memory.write a r } W st ts := by
  have L := I.layout
  have F := I.faithful
  have hhead (p : Nat) (hp : V.Published p) := ha.ne_header L hp
  have key : ({ V with memory := V.memory.write a r }).Inv W st ts →
      V.Evolves W { V with memory := V.memory.write a r } W →
      V.Transparent W { V with memory := V.memory.write a r } W st ts := by
    intro I' E
    refine ⟨I', E, rfl, rfl, rfl, rfl, rfl, fun {p j} hp hj => ?_, fun {p} h => ?_⟩
    · show (V.memory.write a r).read _ = _ ∨ Clean _ _ ((V.memory.write a r).read _)
      by_cases he : a = Object.field p j
      · rw [← he, Memory.read_write_self]
        exact .inr (.inr (E.current hr))
      · exact .inl (Memory.read_write_of_ne _ he _)
    · exact ⟨h.1, h.2.1, (Memory.read_write_of_ne _ (hhead p (F.published h.1)).1.symm _).symm.trans
        h.2.2⟩
  rcases ha with ⟨o, i, hp, hi, rfl⟩ | ha
  · by_cases ho : o ∈ W.objects
    · have I' := I.storeField ho hi (Set.Subset.refl W.loose)
        (.inr (.inl (hr.same (SameObjects.refl V).1 F.published rfl))) fun h => absurd h hst
      have E := Evolves.storeField (x := r) I ho hi
      rw [hn, (F.fields ho hi).2, IdealHeap.setField_self] at I' E
      exact key I' E
    · -- The field is that of an older copy, or of an object that is not in use.
      have hin := L.field_inside hp hi
      obtain ⟨I', E⟩ := I.storeAside (x := r) hst
        (L.write_object hp (by omega) (by omega) (hhead o hp).2.symm) hhead
        (fun p hm => by
          rcases L.disjoint hp (F.published hm) (fun he => ho (he ▸ hm)) with h | h <;> omega)
        (fun c hc _ => by
          have h1 := L.slot_ge hc
          have h2 := L.inside_lt (a := Object.field o i) hp (by omega)
          omega)
        (L.tallied_write hp (by omega) (by omega) fun h => (hhead _ h).2)
      exact key I' E
  · by_cases hc : ∃ c ∈ V.roots.cells, c.live = true ∧ c.slot = a
    · obtain ⟨c, hc, hl, rfl⟩ := hc
      obtain ⟨I', E⟩ := I.storeRoot ha (.inr hr)
      rw [hn, (F.roots hc hl).2, IdealHeap.setRoot_self] at I' E
      exact key I' E
    · obtain ⟨I', E⟩ := I.storeAside (x := r) hst (L.write_root ha) hhead
        (fun p hm => .inr (Nat.le_trans (L.bounds (F.published hm)).end_le ha))
        (fun c hm hl he => hc ⟨c, hm, hl, he⟩) (L.tallied_write_root ha)
      exact key I' E

end

end HeapView

namespace RegionHeap

open HeapView

variable {h : RegionHeap} {W : World} {st : Stage} {ts : List MarkTask} {slot : Option Nat} {v r : Nat}

theorem ends_heal (I : h.view.Inv W st ts) (hst : st ≠ .marking) (hr : h.view.Current W r)
    (hn : W.name r = W.name v) (hslot : ∀ a, slot = some a → h.view.HasSlot a) :
    Ends (heal slot v r) h fun _ h' => h.view.Transparent W h'.view W st ts := by
  simp only [heal, ends_bind, ends_get, ends_ite]
  refine ⟨fun _ => ?_, fun _ => ends_pure.2 (Transparent.refl I)⟩
  cases slot with
  | none => exact ends_pure.2 (Transparent.refl I)
  | some a =>
    simp only [ends_bind]
    refine ends_exchangeSlot.2 ⟨fun he => ?_, fun _ => ends_pure.2 (Transparent.refl I)⟩
    simp only [modifyBarrierStats, ends_modify]
    have he' : h.view.memory.read a = v := he
    exact Transparent.heal I hst (hslot a rfl) hr (by rw [he']; exact hn)

/-- The copy that the program may access. -/
theorem ends_currentCopy (I : h.view.Inv W st ts) (hs : h.view.InStage st)
    (hst : st.relocates = true) (hv : h.view.Refers W v) :
    Ends (currentCopy v) h fun r h' => ∃ W', h.view.Resolved W v h'.view W' r st ts := by
  have L := I.layout
  have F := I.faithful
  have hp := F.refers_published hv
  have hmem : (HasMemory.memory h : Memory) = h.view.memory := rfl
  simp only [currentCopy, ends_bind, ends_getMemory, hmem]
  rcases F.forwardee L hv with ⟨h0, hf, hm⟩ | ⟨c, h0, hf, hc, hn⟩
  · rw [hf]
    simp only [ends_bind]
    rw [ends_regionOfPublished L hp, ends_getRegion (L.bounds hp).lt_max, ends_ite]
    refine ⟨fun hr => ?_, fun hr => ends_pure.2 ⟨W, Resolved.refl I (.inr ⟨hm, fun h => ?_⟩)⟩⟩
    · have hr' : h.view.Relocating v := hr
      have hchosen : st = .chosen := by
        cases st with
        | idle | marking => cases hst
        | chosen => rfl
        | copied =>
          exact absurd ((F.copied (.inl rfl) hm hr').symm.trans h0) Object.tagged_ne_zero
        | updated =>
          exact absurd ((F.copied (.inr rfl) hm hr').symm.trans h0) Object.tagged_ne_zero
      subst hchosen
      have hflag : h.gcState.evacuation = true := by
        have := hs.1
        have hg : h.gcState = GcState.duringEvacuation := this
        rw [hg]
        rfl
      simp only [ends_bind, ends_get, hflag, if_true]
      exact (ends_evacuateObject I hv hr').mono fun r h' hr => hr.2.imp fun W' hW => hW.1
    · exact absurd h hr
  · rw [hf]
    exact ends_pure.2 ⟨W, Transparent.refl I, .inr hc, hn⟩

/-- **The load-reference barrier.**  What it gives is the current copy of the same object, and
null for null.  Outside of a relocation it does nothing. -/
theorem ends_loadBarrier (I : h.view.Inv W st ts) (hs : h.view.InStage st)
    (hv : v = 0 ∨ h.view.Refers W v) (hslot : ∀ a, slot = some a → h.view.HasSlot a) :
    Ends (loadBarrier slot v) h fun r h' => ∃ W', h.view.Resolved W v h'.view W' r st ts ∧
      (st.relocates = false → h' = h ∧ W' = W) := by
  have hfwd : h.gcState.hasForwarded = st.relocates := by
    have hg : h.gcState = st.flags := hs.1
    rw [hg]
    cases st <;> rfl
  simp only [loadBarrier, ends_bind, ends_get, ends_ite, ends_pure, hfwd]
  refine ⟨fun hc => ⟨W, Resolved.refl I ?_, fun _ => ⟨trivial, rfl⟩⟩, fun hc => ?_⟩
  · rcases hv with rfl | hv
    · exact .inl rfl
    · rcases hc with rfl | hc
      · exact .inl rfl
      · exact .inr (I.faithful.current_of_calm (by simpa using hc) hv)
  · simp only [not_or, Bool.not_eq_eq_eq_not, Bool.not_true, Bool.not_eq_false] at hc
    obtain ⟨hv0, hst⟩ := hc
    have hv := hv.resolve_left hv0
    simp only [modifyBarrierStats, ends_modify]
    refine (ends_currentCopy (h := { h with barrierStats := { h.barrierStats with
      lrbSlowPaths := h.barrierStats.lrbSlowPaths + 1 } }) I hs hst hv).mono fun r h₁ hR => ?_
    obtain ⟨W₁, R⟩ := hR
    have hr0 : r ≠ 0 := fun he => by
      have h1 := R.name
      rw [he, R.inv.faithful.name_zero] at h1
      exact Nat.ne_of_gt (I.faithful.name_refers_pos hv) h1.symm
    have hnm : st ≠ .marking := fun he => by rw [he] at hst; cases hst
    refine (ends_heal R.inv hnm (R.result.resolve_left hr0)
      (R.name.trans (R.evolves.name hv).symm)
      fun a ha => R.evolves.hasSlot (hslot a ha)).mono fun _ h₂ T => ?_
    refine ⟨W₁, ⟨R.toTransparent.trans T I, T.evolves.clean R.result, R.name⟩, fun he => ?_⟩
    rw [hst] at he
    cases he

end RegionHeap

end ManagedHeap
