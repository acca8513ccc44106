/-
# New objects, and new mutators

A claim becomes an object of the program when it has a header and its start is set; while marking
runs it is marked as well, unless it is above the snapshot.  `Inv.addObject` says that this adds one
object to the heap and to the ideal heap, whatever its fields hold, if the references in them are
current.  An allocation is that with null fields, and a clone with those of its source, which the
clone barrier has resolved.

Mutators come and go; the ideal heap knows nothing of them.
-/
import ManagedHeap.Proofs.Accesses

namespace ManagedHeap

/-! ## 1. An object more -/

/-- The ideal heap `J` is `I` and one object more. -/
structure IdealHeap.Adds (I J : IdealHeap) : Prop where
  count : J.count = I.count + 1
  refs : ∀ n, n ≠ I.count → J.refs n = I.refs n
  bytes : ∀ n, n ≠ I.count → J.bytes n = I.bytes n
  field : ∀ n, n ≠ I.count → J.field n = I.field n
  word : ∀ n, n ≠ I.count → J.word n = I.word n
  root : J.root = I.root
  registered : J.registered = I.registered

theorem IdealHeap.adds_alloc (I : IdealHeap) (refs bytes : Nat) : I.Adds (I.alloc refs bytes) := by
  constructor <;> simp +contextual [IdealHeap.alloc]

theorem IdealHeap.adds_clone (I : IdealHeap) (src : Nat) : I.Adds (I.clone src) := by
  constructor <;> simp +contextual [IdealHeap.clone]

/-- The world with one object more. -/
def World.add (W : World) (a : Nat) (J : IdealHeap) : World :=
  { W with
    objects := { x | x = a ∨ x ∈ W.objects }
    name := Function.update W.name a W.ideal.count
    ideal := J }

@[simp] theorem World.add_name {W : World} {a : Nat} {J : IdealHeap} :
    (W.add a J).name a = W.ideal.count := by
  simp [World.add]

theorem World.add_name_of_ne {W : World} {a v : Nat} {J : IdealHeap} (h : v ≠ a) :
    (W.add a J).name v = W.name v := Function.update_of_ne h _ _

namespace HeapView

/-- The view with an object more, in a claim, and `q` for the marks of its region, of `k` bytes. -/
def withNew (V : HeapView) (m : Memory) (a : Nat) (q : AddressSet) (k : Nat) : HeapView :=
  ({ V with memory := m }).setRegion (V.index a)
    { V.regionOf a with starts := (V.regionOf a).starts.adding a, marks := q, markedBytes := k }

section
variable {V : HeapView} {W : World} {st : Stage} {ts : List MarkTask} {m : Memory} {q : AddressSet}
  {a n k x i : Nat} {J : IdealHeap}

theorem published_withNew (L : V.Layout) (C : V.Claim a n) :
    (V.withNew m a q k).Published x ↔ x = a ∨ V.Published x := by
  have h := published_withObject (V := V) (m := m) (o := x) L C
  rw [← h]
  have hs : (V.withNew m a q k) = (V.withObject m a).setRegion (V.index a)
      { V.regionOf a with starts := (V.regionOf a).starts.adding a, marks := q, markedBytes := k } :=
    setRegion_setRegion.symm
  rw [hs]
  refine published_setRegion ?_
  simp only [withObject, setRegion_region_self]

/-- The marks of a region and the bytes that it counts, before and after a new object of it was
announced. -/
def MarksFor (V : HeapView) (m : Memory) (a : Nat) (q : AddressSet) (k : Nat) : Prop :=
  (q = (V.regionOf a).marks ∧ k = (V.regionOf a).markedBytes) ∨
    (a < (V.regionOf a).markLimit ∧ q = (V.regionOf a).marks.adding a ∧
      k = (V.regionOf a).markedBytes + if V.isNew a then Object.size m a else 0)

theorem live_withNew (L : V.Layout) (C : V.Claim a n) (hq : V.MarksFor m a q k) (hx : x ≠ a) :
    (V.withNew m a q k).Live x ↔ V.Live x := by
  have hb := L.claim_bounds C
  have hr := L.regions (V.index a)
  have hreg : (V.withNew m a q k).regionOf x = if V.index x = V.index a then
      { V.regionOf a with starts := (V.regionOf a).starts.adding a, marks := q, markedBytes := k }
      else V.regionOf x := rfl
  simp only [Live, hreg]
  split
  · rename_i he
    have hmarks : q.Has x ↔ (V.regionOf a).marks.Has x := by
      rcases hq with ⟨rfl, -⟩ | ⟨-, rfl, -⟩
      · rfl
      · simp only [regionOf]
        rw [hr.marks.has_adding hb.1 C.aligned]
        simp [hx]
    simp only [hmarks, regionOf, he]
  · rfl

theorem relocating_withNew : (V.withNew m a q k).Relocating x ↔ V.Relocating x :=
  relocating_setRegion (V := { V with memory := m }) rfl

theorem evacFailed_withNew {i : Nat} :
    ((V.withNew m a q k).region i).evacFailed = (V.region i).evacFailed := by
  simp only [withNew, setRegion_region]
  split
  · rename_i he
    rw [he]
    rfl
  · rfl

theorem kept_withNew : (V.withNew m a q k).Kept x ↔ V.Kept x :=
  kept_setRegion (V := { V with memory := m }) rfl

theorem state_withNew : ((V.withNew m a q k).region i).state = (V.region i).state := by
  simp only [withNew, setRegion_region]
  split
  · rename_i he
    rw [he]
    rfl
  · rfl

theorem layout_withNew (L : V.Layout) (C : V.Claim a n) (hq : V.MarksFor m a q k)
    (hfit : Object.Fits m a) (hsize : Object.size m a = n)
    (hrest : ∀ b, b < a ∨ a + n ≤ b → m.read b = V.memory.read b) :
    (V.withNew m a q k).Layout := by
  have hb := L.claim_bounds C
  have hr := L.regions (V.index a)
  have L₁ := L.publish C hfit hsize hrest
  have hr₁ := L₁.regions (V.index a)
  have hreg : (V.withObject m a).region (V.index a) =
      { V.regionOf a with starts := (V.regionOf a).starts.adding a } := setRegion_region_self
  have hmarks : q.Fits (V.regionOf a).bottom V.regionSize := by
    rcases hq with ⟨rfl, -⟩ | ⟨-, rfl, -⟩
    · exact hr.marks
    · refine hr.marks.adding hb.1 ?_ C.aligned L.geometry.size_aligned
      have h1 := hr.limit_eq
      have h2 := C.pos
      simp only [regionOf] at hb h1 ⊢
      omega
  have hs : (V.withNew m a q k) = (V.withObject m a).setRegion (V.index a)
      { V.regionOf a with starts := (V.regionOf a).starts.adding a, marks := q, markedBytes := k } :=
    setRegion_setRegion.symm
  rw [hs]
  rw [hreg] at hr₁
  refine L₁.setRegion
    { hr₁ with marks := hmarks, unmarked := fun h => absurd h C.inUse.1 } ?_ ?_
    (L.tlabs.counted (V.index a))
    fun _ => C.inUse
  · rw [hreg]
  · rw [hreg]

/-- **A new object is counted** where it is marked, in memory that was allocated for it. -/
theorem tallied_withNew {V₀ : HeapView} (L₀ : V₀.Layout) (G : Grows V₀ V) (F : Fills V₀ V)
    (L : V.Layout) (C : V.Claim a n) (hq : V.MarksFor m a q k) (hfit : Object.Fits m a)
    (hsize : Object.size m a = n) (hrest : ∀ b, b < a ∨ a + n ≤ b → m.read b = V.memory.read b)
    (ho : V₀.arena.Offers a n) (X : V₀.Tallied) : (V.withNew m a q k).Tallied := by
  have L₁ := L.publish C hfit hsize hrest
  have X₁ := (G.retains_withObject F L C hsize ho hrest).tallied L₀ L₁ X
  rcases hq with ⟨rfl, rfl⟩ | ⟨hlt, rfl, rfl⟩
  · exact X₁
  · have hreg : (V.withObject m a).regionOf a =
        { V.regionOf a with starts := (V.regionOf a).starts.adding a } := setRegion_region_self
    have hnew : (V.withObject m a).setRegion (V.index a) ((V.withObject m a).withMark a) =
        V.withNew m a ((V.regionOf a).marks.adding a)
          ((V.regionOf a).markedBytes + if V.isNew a then Object.size m a else 0) := by
      rw [withMark, isNew, hreg]
      exact setRegion_setRegion
    rw [← hnew]
    exact X₁.mark L₁ ((published_withObject L C).2 (.inl rfl)) (by rw [hreg]; exact hlt)

theorem sameSpace_withNew : SameSpace V (V.withNew m a q k) :=
  { SameSpace.setRegion (V := V) (i := V.index a)
      (r := { V.regionOf a with starts := (V.regionOf a).starts.adding a, marks := q, markedBytes := k })
      rfl rfl rfl rfl with }

/-- A new object has no copy. -/
theorem forwarded_withNew (L : V.Layout) (C : V.Claim a n)
    (hrest : ∀ b, b < a ∨ a + n ≤ b → m.read b = V.memory.read b) (hstatus : m.read a = 0)
    {p c : Nat} (h : (V.withNew m a q k).Forwarded p c) : V.Forwarded p c := by
  obtain ⟨hp, hf, hne⟩ := h
  rcases (published_withNew L C).1 hp with rfl | hp
  · rw [Object.forwardee?_of_zero (show (V.withNew m p q k).memory.read p = 0 from hstatus)] at hf
    cases hf
  · have hle := (L.objects.fits hp).fields_le
    have hread : (V.withNew m a q k).memory.read p = V.memory.read p :=
      hrest p (by rcases C.objects hp with h | h <;> omega)
    exact ⟨hp, by rwa [← Object.forwardee?_congr hread], hne⟩

/-- **An object more.**  Its fields hold current references, and it is live if marking runs. -/
theorem Inv.addObject (I : V.Inv W st ts) (C : V.Claim a n) (hq : V.MarksFor m a q k)
    (hlive : st = .marking → (V.withNew m a q k).Live a)
    (hfit : Object.Fits m a) (hsize : Object.size m a = n)
    (hrest : ∀ b, b < a ∨ a + n ≤ b → m.read b = V.memory.read b) (hstatus : m.read a = 0)
    (hJ : W.ideal.Adds J) (hrefs : Object.refCount m a = J.refs W.ideal.count)
    (hbytes : Object.payloadBytes m a = J.bytes W.ideal.count)
    (hfields : ∀ i < Object.refCount m a, V.Clean W (m.read (Object.field a i)) ∧
      W.name (m.read (Object.field a i)) = J.field W.ideal.count i)
    (hwords : ∀ k, 8 ∣ k → k + 8 ≤ Object.payloadBytes m a →
      m.read (a + 16 + 8 * Object.refCount m a + k) = J.word W.ideal.count k) :
    (V.withNew m a q k).Inv (W.add a J) st ts ∧
      V.Preserves W (V.withNew m a q k) (W.add a J) ∧ V.Copies (V.withNew m a q k) := by
  have L := I.layout
  have F := I.faithful
  have hpub {p : Nat} : (V.withNew m a q k).Published p ↔ p = a ∨ V.Published p :=
    published_withNew L C
  have hnew {p : Nat} (h : V.Published p) : p ≠ a := fun he => L.claim_not_published C (he ▸ h)
  have hmem {p b : Nat} (hp : V.Published p) (h1 : p ≤ b) (h2 : b < p + Object.size V.memory p) :
      m.read b = V.memory.read b :=
    hrest b (by rcases C.objects hp with h | h <;> omega)
  have hhead {p : Nat} (hp : V.Published p) :
      m.read p = V.memory.read p ∧ m.read (p + 8) = V.memory.read (p + 8) := by
    have := (L.objects.fits hp).fields_le
    exact ⟨hmem hp (by omega) (by omega), hmem hp (by omega) (by omega)⟩
  have hcount {p : Nat} (hp : V.Published p) :
      Object.refCount m p = Object.refCount V.memory p := by
    simp only [Object.refCount, wordBytes, (hhead hp).2]
  have hpay {p : Nat} (hp : V.Published p) :
      Object.payloadBytes m p = Object.payloadBytes V.memory p := by
    simp only [Object.payloadBytes, Object.refCount, Object.size, wordBytes, (hhead hp).2]
  have hfield {p i : Nat} (hp : V.Published p) (hi : i < Object.refCount V.memory p) :
      m.read (Object.field p i) = V.memory.read (Object.field p i) := by
    have := L.field_inside hp hi
    exact hmem hp (by omega) (by omega)
  have hname {v : Nat} (h : v = 0 ∨ V.Published v) : (W.add a J).name v = W.name v := by
    refine World.add_name_of_ne ?_
    rcases h with rfl | h
    · have := L.geometry.low_pos
      have := C.low_le
      omega
    · exact hnew h
  have hval {v : Nat} (h : v = 0 ∨ V.Refers W v) : (W.add a J).name v = W.name v :=
    hname (h.imp_right F.refers_published)
  have hid {p : Nat} (hp : p ∈ W.objects) : W.name p ≠ W.ideal.count :=
    Nat.ne_of_lt (F.name_lt hp)
  have hmove {v d : Nat} (h : V.Moved W v d) : (V.withNew m a q k).Moved (W.add a J) v d := by
    refine ⟨hpub.2 (.inr h.published), relocating_withNew.2 h.relocating,
      (hhead h.published).1.trans h.status, .inr h.mem,
      fun hs => h.settled (relocating_withNew.1 hs), ?_⟩
    rw [hname (.inr h.published), hname (.inr (F.published h.mem))]
    exact h.name_eq
  have hrefers {v : Nat} (h : V.Refers W v) : (V.withNew m a q k).Refers (W.add a J) v := by
    rcases h with h | ⟨d, h⟩
    · exact .inl (.inr h)
    · exact .inr ⟨d, hmove h⟩
  have hcur {v : Nat} (h : V.Current W v) : (V.withNew m a q k).Current (W.add a J) v :=
    ⟨.inr h.1, fun hs => (hhead (F.published h.1)).1.trans (h.2 (relocating_withNew.1 hs))⟩
  have E : V.Preserves W (V.withNew m a q k) (W.add a J) := by
    refine ⟨fun h => ⟨hrefers h, hval (.inr h)⟩, hcur, fun h => hpub.2 (.inr h), fun {p} h => ?_,
      fun {p} h => ?_, fun {p} h => ?_, ?_, fun {p} h => ?_, sameSpace_withNew.fills,
      sameSpace_withNew.counted, rfl, rfl, rfl, rfl, rfl, rfl, rfl, rfl, fun h => h, fun _ => rfl,
      fun _ => relocating_withNew⟩
    · rcases hpub.1 h with rfl | h
      · exact .inr (.inl (.inl rfl))
      · exact .inl h
    · rcases h with rfl | h
      · exact .inr (L.claim_not_published C)
      · exact .inl h
    · rcases h with rfl | h
      · exact .inr (by rw [World.add_name])
      · exact .inl ⟨p, h, (hname (.inr (F.published h))).symm⟩
    · show _ ≤ J.count
      rw [hJ.count]
      exact Nat.le_succ _
    · exact (hhead h).2
  have F' : (V.withNew m a q k).Faithful (W.add a J) st := by
    have hpos : 0 < (W.add a J).ideal.count := by
      rw [show (W.add a J).ideal = J from rfl, hJ.count]
      omega
    refine ⟨fun {p} h => ?_, hpos, (hname (.inl rfl)).trans F.name_zero,
      fun {p} h => ?_, fun {p} h => ?_,
      fun {p p'} h h' he => ?_, fun {p} h => ?_, fun {p} h => ?_, fun {p i} h hi => ?_,
      fun {p k} h hk hle => ?_, fun {c} hc hl => ?_, F.registered.trans hJ.registered.symm,
      fun {p} h => ?_, fun {i} hk => ?_, fun i => ?_, fun hst p h hl => ?_, fun hst p h hr => ?_,
      fun hst p h hr => ?_, F.unrecorded⟩
    · rcases h with rfl | h
      · exact hpub.2 (.inl rfl)
      · exact hpub.2 (.inr (F.published h))
    · rcases h with rfl | h
      · rw [World.add_name]
        exact F.count_pos
      · rw [hname (.inr (F.published h))]
        exact F.name_pos h
    · show _ < J.count
      rw [hJ.count]
      rcases h with rfl | h
      · rw [World.add_name]
        exact Nat.lt_succ_self _
      · rw [hname (.inr (F.published h))]
        exact Nat.lt_succ_of_lt (F.name_lt h)
    · rcases h with rfl | h <;> rcases h' with rfl | h'
      · rfl
      · rw [World.add_name, hname (.inr (F.published h'))] at he
        exact absurd he.symm (hid h')
      · rw [World.add_name, hname (.inr (F.published h))] at he
        exact absurd he (hid h)
      · rw [hname (.inr (F.published h)), hname (.inr (F.published h'))] at he
        exact F.name_inj h h' he
    · rcases h with rfl | h
      · rw [World.add_name]
        exact hrefs
      · rw [hname (.inr (F.published h))]
        exact (hcount (F.published h)).trans ((F.refs h).trans (hJ.refs _ (hid h)).symm)
    · rcases h with rfl | h
      · rw [World.add_name]
        exact hbytes
      · rw [hname (.inr (F.published h))]
        exact (hpay (F.published h)).trans ((F.bytes h).trans (hJ.bytes _ (hid h)).symm)
    · rcases h with rfl | h
      · obtain ⟨h1, h2⟩ := hfields i hi
        refine ⟨(E.clean h1).imp_right .inl, ?_⟩
        rw [World.add_name]
        exact (hval (h1.imp_right Current.refers)).trans h2
      · have hp := F.published h
        have hi' : i < Object.refCount V.memory p := by rwa [← hcount hp]
        obtain ⟨h1, h2⟩ := F.fields h hi'
        have hr : (V.withNew m a q k).memory.read (Object.field p i) =
            V.memory.read (Object.field p i) := hfield hp hi'
        rw [hr, hname (.inr hp)]
        show _ ∧ _ = J.field (W.name p) i
        rw [hJ.field _ (hid h)]
        rcases h1 with h1 | h1 | ⟨h1, h3⟩
        · exact ⟨.inl h1, (hval (.inl h1)).trans h2⟩
        · exact ⟨.inr (.inl (hcur h1)), (hval (.inr h1.refers)).trans h2⟩
        · refine ⟨.inr (.inr ⟨hrefers h1, h3.imp (fun h4 => ⟨h4.1, ?_⟩) fun h4 => h4⟩),
            (hval (.inr h1)).trans h2⟩
          exact (live_withNew L C hq (hnew hp)).2 h4.2
    · rcases h with rfl | h
      · rw [World.add_name]
        exact hwords k hk hle
      · have hp := F.published h
        have hle' : k + 8 ≤ Object.payloadBytes V.memory p := by rwa [← hpay hp]
        have hin := L.payload_inside hp hle'
        rw [hname (.inr hp)]
        show m.read (p + 16 + 8 * Object.refCount m p + k) = J.word (W.name p) k
        rw [hJ.word _ (hid h), hcount hp, hmem hp (by omega) (by omega)]
        exact F.words h hk hle'
    · have hge := L.slot_ge hc
      have hb := (L.claim_bounds C).2.2.2.2
      have hr : (V.withNew m a q k).memory.read c.slot = V.memory.read c.slot :=
        hrest _ (.inr (Nat.le_trans hb hge))
      obtain ⟨h1, h2⟩ := F.roots hc hl
      rw [hr]
      show _ ∧ _ = J.root c.slot
      rw [hJ.root]
      rcases h1 with h1 | h1 | ⟨h1, h3⟩
      · exact ⟨.inl h1, (hval (.inl h1)).trans h2⟩
      · exact ⟨.inr (.inl (hcur h1)), (hval (.inr h1.refers)).trans h2⟩
      · exact ⟨.inr (.inr ⟨h1, hrefers h3⟩), (hval (.inr h3)).trans h2⟩
    · rcases hpub.1 h with rfl | h
      · exact .inl hstatus
      · have hs : (V.withNew m a q k).memory.read p = V.memory.read p := (hhead h).1
        rw [hs]
        rcases F.status h with h1 | ⟨h1, h2, h3, h4⟩ | ⟨d, h1⟩
        · exact .inl h1
        · exact .inr (.inl ⟨relocating_withNew.2 h1, kept_withNew.2 h2, .inr h3, h4⟩)
        · exact .inr (.inr ⟨d, hmove h1⟩)
    · obtain ⟨p, hp, hi, hs⟩ := F.excused (evacFailed_withNew ▸ hk)
      exact ⟨p, .inr hp, hi, (hhead (F.published hp)).1.trans hs⟩
    · rw [state_withNew]
      exact F.states i
    · rcases hpub.1 h with rfl | h
      · exact .inl (.inl rfl)
      · exact hrefers (F.survivors hst h ((live_withNew L C hq (hnew h)).1 hl))
    · rcases h with rfl | h
      · exact absurd (relocating_withNew.1 hr) C.inUse.2
      · exact (live_withNew L C hq (hnew (F.published h))).2
          (F.live hst h (relocating_withNew.1 hr))
    · rcases h with rfl | h
      · exact absurd (relocating_withNew.1 hr) C.inUse.2
      · exact (hhead (F.published h)).1.trans (F.copied hst h (relocating_withNew.1 hr))
  refine ⟨⟨layout_withNew L C hq hfit hsize hrest, F', fun hst => ?_⟩, E,
    .of_none (forwarded_withNew L C hrest hstatus)⟩
  have X := I.snapshot hst
  have hacc {v : Nat} (hv : v ∈ W.objects) (h : V.Accounted ts v) :
      (V.withNew m a q k).Accounted ts v := by
    rcases h with h | h | h
    · exact .inl ((live_withNew L C hq (hnew (F.published hv))).2 h)
    · exact .inr (.inl h)
    · exact .inr (.inr h)
  refine ⟨fun h => .inr (X.base_mem h), fun {p} h => ?_, fun {p} h hl => ?_, fun {p} h hb => ?_,
    fun {v} h => ?_, fun {p i} h hi => ?_, fun h => .inr (X.recorded h), fun h => .inr (X.grey h),
    fun {t} h => ?_⟩
  · exact (X.shape h).trans (hhead (F.published (X.base_mem h))).2.symm
  · rcases hpub.1 h with rfl | h
    · exact .inl rfl
    · exact .inr (X.live_mem h ((live_withNew L C hq (hnew h)).1 hl))
  · rcases h with rfl | h
    · exact hlive hst
    · exact (live_withNew L C hq (hnew (F.published h))).2 (X.new_live h hb)
  · by_cases h0 : v = 0
    · exact .inl h0
    · exact .inr (hacc (X.base_mem (.root h h0)) ((X.roots h).resolve_left h0))
  · have hm := X.base_mem h
    have hp := F.published hm
    have hi' : i < Object.refCount V.memory p := by rwa [← hcount hp]
    have hr : (V.withNew m a q k).memory.read (Object.field p i) =
        V.memory.read (Object.field p i) := hfield hp hi'
    by_cases h0 : W.snapshot.read (Object.field p i) = 0
    · exact .inl h0
    · right
      rcases (X.traced h hi').resolve_left h0 with h1 | ⟨h1, h2⟩
      · have hcount' : i < Object.refCount W.snapshot p := by
          simp only [Object.refCount, wordBytes, X.shape h] at hi' ⊢
          exact hi'
        exact .inl (hacc (X.base_mem (.field h hcount' h0)) h1)
      · refine .inr ⟨h1.imp_left fun hl => ?_, hr.trans h2⟩
        exact fun hl' => hl ((live_withNew L C hq (hnew hp)).1 hl')
  · have ht := X.tasks h
    cases t with
    | slot b =>
      obtain ⟨p, hp, i, hi, he⟩ := ht
      exact ⟨p, .inr hp, i, by rwa [show (V.withNew m a q k).memory = m from rfl,
        hcount (F.published hp)], he⟩
    | entry v => exact ht.imp_right .inr
    | push p => exact .inr ht

end

end HeapView

/-! ## 2. Allocation of objects -/

namespace RegionHeap

open HeapView

variable {h : RegionHeap} {st : Stage} {m : Memory} {a n : Nat}

/-- **A new object is announced**, and is live if marking runs. -/
theorem ends_postAlloc {V : HeapView} (hv : h.view = { V with memory := m }) (L : V.Layout)
    (C : V.Claim a n) (hs : V.InStage st) :
    Ends (postAlloc a) h fun _ h' => ∃ q k, V.MarksFor m a q k ∧
      (st = .marking → (V.withNew m a q k).Live a) ∧ h'.view = V.withNew m a q k := by
  have hcb := L.claim_bounds C
  have hr := L.regions (V.index a)
  have hmax := Nat.lt_of_lt_of_le hcb.2.2.1 L.geometry.committed_le
  have hidx : h.view.index a = V.index a := by rw [hv]; rfl
  have hreg : h.view.region (V.index a) = V.regionOf a := by rw [hv]; rfl
  have hlimit : a < (V.regionOf a).bottom + V.regionSize := by
    have h1 := hr.limit_eq
    have h2 := C.pos
    simp only [regionOf] at hcb ⊢
    omega
  simp only [postAlloc, ends_bind]
  rw [ends_regionOfObject (by rw [hv]; exact C.low_le) (by rw [hv]; exact hcb.2.2.2.1)
    (by rw [hv]; exact hmax) (by rw [hv]; exact C.inUse.1), hidx]
  refine (ends_onRegion (by rw [hv]; exact hmax) (Region.acts_setStart (by
    rw [hreg]
    exact hr.starts.checkIndex_eq hcb.1 hlimit C.aligned L.geometry.size_aligned))).mono
    fun _ h₁ hR => ?_
  obtain ⟨r, rfl, hv₁⟩ := hR
  rw [hreg] at hv₁
  have hreg₁ : h₁.view.region (V.index a) =
      { V.regionOf a with starts := (V.regionOf a).starts.adding a } := by
    rw [hv₁, setRegion_region_self]
  have hself : (V.withNew m a (V.regionOf a).marks (V.regionOf a).markedBytes) = h₁.view := by
    rw [hv₁, hv]
    rfl
  have hmark : h₁.gcState.marking = decide (st = .marking) := by
    refine marking_eq (h := h₁) ?_
    rw [← hself]
    exact hs
  have hnew (q : AddressSet) (k : Nat) : (V.withNew m a q k).regionOf a =
      { V.regionOf a with starts := (V.regionOf a).starts.adding a, marks := q, markedBytes := k } :=
    setRegion_region_self
  simp only [ends_get, ends_ite, hmark, decide_eq_true_eq, ends_bind, ends_getMemory, ends_pure]
  refine ⟨fun hst => ?_,
    fun hst => ⟨_, _, .inl ⟨rfl, rfl⟩, fun h => absurd h hst, hself.symm⟩⟩
  refine (ends_onRegion (by rw [hv₁, hv]; exact hmax) (Region.acts_mark (by
    rw [hreg₁]
    exact hr.marks.checkIndex_eq hcb.1 hlimit C.aligned L.geometry.size_aligned))).mono
    fun b h₂ hR => ?_
  have hmem : HasMemory.memory h₁ = m := by
    show h₁.view.memory = m
    rw [← hself]
    rfl
  obtain ⟨r, ⟨hle, -, rfl⟩ | ⟨hlt, rfl, rfl⟩, hv₂⟩ := hR
  · rw [setRegion_self] at hv₂
    rw [hreg₁] at hle
    exact ⟨_, _, .inl ⟨rfl, rfl⟩, fun _ => .inl (by rw [hnew]; exact hle), hv₂.trans hself.symm⟩
  · rw [hreg₁] at hlt hv₂
    refine ⟨_, _, .inr ⟨hlt, rfl, rfl⟩, fun _ => .inr ?_, ?_⟩
    · rw [hnew]
      exact (hr.marks.has_adding hcb.1 C.aligned).2 (.inl rfl)
    · rw [hv₂, hv₁, setRegion_setRegion, hv, hmem]
      rfl

end RegionHeap

namespace Mutator

open HeapView RegionHeap

variable {h : RegionHeap} {W : World} {st : Stage} {ts : List MarkTask} {m src n : Nat} {t : Mutator}

/-- A request for a whole object is not rounded. -/
theorem roundedSize_self (h : 8 ∣ n) (hpos : 16 ≤ n) (hmax : n ≤ Object.maxSize) :
    roundedSize n = n := by
  rw [roundedSize_eq hmax]
  omega

/-- What an allocation by the mutator `m` gives: nothing, or a reference to the new object. -/
def Allocates (V : HeapView) (W : World) (st : Stage) (ts : List MarkTask) (J : IdealHeap) (m : Nat)
    (r : Option Nat) (V' : HeapView) : Prop :=
  match r with
  | none => ∃ W', V.Simulates W V' W' st ts W.ideal
  | some o => ∃ W', V.Simulates W V' W' st ts J ∧ V'.Current W' o ∧ W'.name o = W.ideal.count ∧
      V.Gives V' m o (Object.size V'.memory o)

/-- **Allocation of an object** with null fields and a payload of zeros. -/
theorem ends_allocateObject {refs payload : Nat} (I : h.view.Inv W st ts) (hs : h.view.InStage st)
    (hm : h.view.mutator? m = some t) :
    Ends (allocateObject m refs payload) h fun r h' =>
      Allocates h.view W st ts (W.ideal.alloc refs ((payload + 7) / 8 * 8)) m r h'.view := by
  have hnone : Allocates h.view W st ts (W.ideal.alloc refs ((payload + 7) / 8 * 8)) m none h.view :=
    ⟨W, I, Evolves.refl _ _, rfl⟩
  simp only [allocateObject]
  cases hsize : Object.sizeFor refs payload with
  | none => exact ends_pure.2 hnone
  | some n =>
    obtain ⟨hn, hmax⟩ := Object.sizeFor_eq_some hsize
    simp only [ends_bind]
    refine (ends_allocate I.layout hm).mono fun r h₁ hO => ?_
    obtain ⟨O, -⟩ := hO
    obtain ⟨I₁, E₁⟩ := I.grows O.grows O.layout O.fills O.counted
    rw [roundedSize_self (by omega) (by omega) hmax] at O
    cases r with
    | none => exact ends_pure.2 ⟨W, I₁, E₁, rfl⟩
    | some a =>
      have C := O.claim a rfl
      have L₁ := O.layout
      have hcb := L₁.claim_bounds C
      have hwrite : 16 + 8 * refs ≤ n := by omega
      simp only [publish, ends_bind, ends_onMemory]
      rw [Object.ends_writeHeader hwrite hmax C.aligned]
      obtain ⟨mem, hmem⟩ : ∃ mem, mem = Object.withHeader h₁.view.memory a n refs := ⟨_, rfl⟩
      have hmem' : Object.withHeader (HasMemory.memory h₁) a n refs = mem := hmem.symm
      rw [hmem']
      have hlay : mem.read (a + 8) = Object.layoutWord n refs := by
        rw [hmem, Object.read_withHeader_layout]
      have hsz := Object.size_of_layout hlay hmax
      have hrc := Object.refCount_of_layout hlay hmax
      have hzero {b : Nat} (h1 : a + 16 ≤ b) (h2 : b < a + n) : mem.read b = 0 := by
        rw [hmem, Object.read_withHeader_of_ne (by omega) (by omega)]
        exact C.zero b (by omega) h2
      have hfit : Object.Fits mem a := by
        have h1 := L₁.geometry.low_pos
        have h2 := C.low_le
        have h3 : rootBase = 1 <<< 52 := rfl
        have h4 := hcb.2.2.2.2
        have h5 := C.pos
        exact ⟨by omega, C.aligned, by omega, by omega, by omega, by omega⟩
      refine (ends_postAlloc (h := HasMemory.setMemory mem h₁) (V := h₁.view) (m := mem) rfl L₁ C
        (E₁.inStage hs)).mono fun _ h₂ hP => ?_
      obtain ⟨q, k, hq, hlive, hv₂⟩ := hP
      have hrest (b : Nat) (hb : b < a ∨ a + n ≤ b) : mem.read b = h₁.view.memory.read b := by
        rw [hmem, Object.read_withHeader_of_ne (by omega) (by omega)]
      have hstatus : mem.read a = 0 := by rw [hmem, Object.read_withHeader_status]
      obtain ⟨I₂, P₂, C₂⟩ := I₁.addObject (J := W.ideal.alloc refs ((payload + 7) / 8 * 8)) C hq hlive
        hfit hsz hrest hstatus (IdealHeap.adds_alloc _ _ _)
        (by rw [hrc]; simp [IdealHeap.alloc])
        (by
          rw [Object.payloadBytes, hsz, hrc]
          simp only [IdealHeap.alloc, Function.update_self]
          omega)
        (fun i hi => by
          rw [hzero (by simp only [Object.field]; omega) (by simp only [Object.field]; omega)]
          exact ⟨.inl rfl, by simp [IdealHeap.alloc, I.faithful.name_zero]⟩)
        (fun k hk hle => by
          rw [Object.payloadBytes, hsz, hrc] at hle
          rw [hrc, hzero (by omega) (by omega)]
          simp [IdealHeap.alloc])
      have E := E₁.place P₂ (E₁.copies.trans C₂ E₁.fills P₂.fills P₂.sizes)
        (tallied_withNew I.layout O.grows O.fills L₁ C hq hfit hsz hrest (O.served a rfl).offers)
        rfl rfl
      refine ends_pure.2 (ends_pure.2 ?_)
      have hsame : Object.size (h₁.view.withNew mem a q k).memory a = n := hsz
      rw [hv₂]
      refine ⟨_, ⟨I₂, E, rfl⟩,
        ⟨.inl rfl, fun hr => absurd (relocating_withNew.1 hr) C.inUse.2⟩, World.add_name, ?_⟩
      have hsame₁ : SamePlaces h.view h₁.view := O.grows.sameObjects.toSamePlaces
      refine Gives.of_serves (.of_none id) (Fills.refl _) (O.fills.trans sameSpace_withNew.fills) ?_
        (fun h => hsame₁.forwarded.1 (forwarded_withNew L₁ C hrest hstatus h))
        E.sizes
      rw [hsame, sameSpace_withNew.arena]
      exact O.served a rfl

/-! ## 3. Clones -/

/-- One field of a source is resolved in place. -/
def resolveField (slot : Nat) : Action RegionHeap Unit := do
  let value ← loadSlot slot
  let resolved ← loadBarrier none value
  if resolved ≠ value then
    let _ ← exchangeSlot slot value resolved

theorem ends_resolveField {k : Nat} (I : h.view.Inv W st ts) (hs : h.view.InStage st)
    (hst : st ≠ .marking) (ho : h.view.Current W src) (hk : k < Object.refCount h.view.memory src) :
    Ends (resolveField (Object.field src k)) h fun _ h' => ∃ W',
      h.view.Transparent W h'.view W' st ts ∧
        h'.view.Clean W' (h'.view.memory.read (Object.field src k)) := by
  have hslot : h.view.IsSlot W (Object.field src k) := .inl ⟨src, k, ho, hk, rfl⟩
  obtain ⟨v, hv⟩ : ∃ v, v = h.view.memory.read (Object.field src k) := ⟨_, rfl⟩
  have hload : (HasMemory.memory h).read (Object.field src k) = v := hv.symm
  simp only [resolveField, ends_bind, ends_loadSlot, hload]
  refine (ends_loadBarrier I hs (hv ▸ I.slot_refers hslot) fun _ ha => by cases ha).mono
    fun r h₁ hR => ?_
  obtain ⟨W₁, R, -⟩ := hR
  have hread : h₁.view.memory.read (Object.field src k) = v ∨
      h₁.view.Clean W₁ (h₁.view.memory.read (Object.field src k)) := hv ▸ R.fields ho hk
  rw [ends_ite]
  refine ⟨fun hne => ?_, fun heq => ends_pure.2 ⟨W₁, R.toTransparent, ?_⟩⟩
  · rw [ends_bind]
    refine ends_exchangeSlot.2 ⟨fun hval => ends_pure.2 ?_,
      fun hval => ends_pure.2 ⟨W₁, R.toTransparent, hread.resolve_left hval⟩⟩
    have hval : h₁.view.memory.read (Object.field src k) = v := hval
    have h0 : v ≠ 0 := fun h0 => by
      rcases R.result with hr | hr
      · exact hne (hr.trans h0.symm)
      · have h1 := R.inv.faithful.name_pos hr.1
        have h2 := R.name
        rw [h0, I.faithful.name_zero] at h2
        omega
    have href : h.view.Refers W v := by
      rw [hv] at h0 ⊢
      exact (I.slot_refers hslot).resolve_left h0
    have T := Transparent.heal R.inv hst (R.evolves.hasSlot (I.hasSlot hslot))
      (R.current I.faithful href) (by rw [hval, R.name]; exact (R.evolves.name href).symm)
    refine ⟨W₁, R.toTransparent.trans T I, ?_⟩
    show Clean _ _ ((h₁.view.memory.write _ r).read _)
    rw [Memory.read_write_self]
    exact T.evolves.clean R.result
  · rcases hread with he | he
    · rw [he]
      have hr : r = v := Decidable.not_not.1 heq
      exact hr ▸ R.result
    · exact he

/-- **Before a clone the fields of its source are resolved.** -/
theorem ends_clonePre (I : h.view.Inv W st ts) (hs : h.view.InStage st)
    (ho : h.view.Current W src) :
    Ends (clonePre src) h fun _ h' => ∃ W', h.view.Transparent W h'.view W' st ts ∧
      ∀ i < Object.refCount h'.view.memory src,
        h'.view.Clean W' (h'.view.memory.read (Object.field src i)) := by
  have hfwd : h.gcState.hasForwarded = st.relocates := by
    have hg : h.gcState = st.flags := hs.1
    rw [hg]
    cases st <;> rfl
  simp only [clonePre, ends_bind, ends_get, ends_ite, ends_pure, hfwd]
  refine ⟨fun hst => ?_, fun hst => ⟨W, Transparent.refl I, fun i hi => ?_⟩⟩
  · have hnm : st ≠ .marking := fun he => by rw [he] at hst; cases hst
    have hrc {h' : RegionHeap} {W' : World} (T : h.view.Transparent W h'.view W' st ts) :
        Object.refCount h'.view.memory src = Object.refCount h.view.memory src := T.refCount I ho
    refine (Object.ends_eachSlot (g := (HasMemory.memory (σ := RegionHeap))) (o := src)
      (f := resolveField) (s := h) (fun k h' => ∃ W', h.view.Transparent W h'.view W' st ts ∧
        ∀ i < k, h'.view.Clean W' (h'.view.memory.read (Object.field src i)))
      (I.layout.bounds (I.faithful.published ho.1)).aligned
      ⟨W, Transparent.refl I, fun i hi => absurd hi (Nat.not_lt_zero i)⟩
      (fun k h' hT => hrc hT.choose_spec.1) fun k h₁ hk hT => ?_).mono fun _ h₁ hT => ?_
    · obtain ⟨W₁, T, hclean⟩ := hT
      have ho₁ := T.evolves.current ho
      have hk : k < Object.refCount h.view.memory src := hk
      refine (ends_resolveField T.inv (T.evolves.inStage hs) hnm ho₁ (by rw [hrc T]; exact hk)).mono
        fun _ h₂ hT' => ?_
      obtain ⟨W₂, T', hk'⟩ := hT'
      refine ⟨W₂, T.trans T' I, fun i hi => ?_⟩
      by_cases hik : i = k
      · rw [hik]
        exact hk'
      · rcases T'.fields ho₁ (i := i) (by rw [hrc T]; omega) with he | he
        · rw [he]
          exact T'.evolves.clean (hclean i (by omega))
        · exact he
    · obtain ⟨W₁, T, hclean⟩ := hT
      refine ⟨W₁, T, fun i hi => hclean i ?_⟩
      rwa [hrc T] at hi
  · rcases (I.faithful.fields ho.1 hi).1 with h1 | h1 | ⟨h1, -⟩
    · exact .inl h1
    · exact .inr h1
    · exact .inr (I.faithful.current_of_calm (by simpa using hst) h1)

/-- **A clone** has what its source has. -/
theorem ends_cloneObject (I : h.view.Inv W st ts) (hs : h.view.InStage st)
    (hm : h.view.mutator? m = some t) (hsrc : h.view.Refers W src) :
    Ends (cloneObject m src) h fun r h' =>
      Allocates h.view W st ts (W.ideal.clone (W.name src)) m r h'.view := by
  simp only [cloneObject, ends_bind]
  refine (ends_resolve I hs (.inr hsrc)).mono fun o h₁ hR => ?_
  obtain ⟨W₁, R, -⟩ := hR
  have ho₁ := R.current I.faithful hsrc
  refine (ends_clonePre R.inv (R.evolves.inStage hs) ho₁).mono fun _ h₂ hT => ?_
  obtain ⟨W₂, T₂, hclean⟩ := hT
  have T := R.toTransparent.trans T₂ I
  have ho₂ := T₂.evolves.current ho₁
  have hname : W₂.name o = W.name src := (T₂.evolves.name ho₁.refers).trans R.name
  have F₂ := T.inv.faithful
  have hfit := T.inv.layout.objects.fits (F₂.published ho₂.1)
  have hle := hfit.fields_le
  have hm₂ : h₂.view.mutator? m = some t := by
    unfold HeapView.mutator?
    rw [T.mutators]
    exact hm
  have hmem : (HasMemory.memory h₂ : Memory) = h₂.view.memory := rfl
  simp only [ends_getMemory, hmem]
  refine (ends_allocate T.inv.layout hm₂).mono fun r h₃ hO => ?_
  obtain ⟨O, -⟩ := hO
  obtain ⟨I₃, E₃⟩ := T.inv.grows O.grows O.layout O.fills O.counted
  rw [roundedSize_self hfit.size_aligned (by omega) hfit.size_le] at O
  cases r with
  | none => exact ends_pure.2 ⟨W₂, I₃, T.evolves.trans E₃, T.ideal⟩
  | some a =>
    have C := O.claim a rfl
    have L₃ := O.layout
    have hmem₃ : h₃.view.memory = h₂.view.memory := O.grows.memory
    have hoffers := (O.served a rfl).offers
    rw [← hmem₃] at hfit hle C hoffers
    have ho₃ := E₃.current ho₂
    have F₃ := I₃.faithful
    have hdis := C.objects (F₃.published ho₃.1)
    simp only [ends_bind, ends_onMemory]
    refine (Object.ends_copy hfit C.aligned hdis).mono fun r mem hK => ?_
    obtain ⟨rfl, hstatus, hwords, hrest⟩ := hK
    have hword {k : Nat} (h1 : 1 ≤ k) (h2 : 8 * k < Object.size h₃.view.memory o) :
        mem.read (r + 8 * k) = h₃.view.memory.read (o + 8 * k) := hwords k h1 h2
    have hshape : mem.read (r + 8) = h₃.view.memory.read (o + 8) := by
      have := hword (k := 1) (by omega) (by omega)
      simpa using this
    have hsz : Object.size mem r = Object.size h₃.view.memory o := by
      simp only [Object.size, wordBytes, hshape]
    have hrc : Object.refCount mem r = Object.refCount h₃.view.memory o := by
      simp only [Object.refCount, wordBytes, hshape]
    have hpb : Object.payloadBytes mem r = Object.payloadBytes h₃.view.memory o := by
      simp only [Object.payloadBytes, hsz, hrc]
    have hfield {i : Nat} (hi : i < Object.refCount h₃.view.memory o) :
        mem.read (Object.field r i) = h₃.view.memory.read (Object.field o i) := by
      have hlt := hfit.field_lt hi
      have he (p : Nat) : Object.field p i = p + 8 * (2 + i) := by
        simp only [Object.field]
        omega
      rw [he] at hlt
      rw [he, he]
      exact hword (by omega) (by omega)
    have hfitr : Object.Fits mem r := by
      have h1 := L₃.geometry.low_pos
      have h2 := C.low_le
      have h3 : rootBase = 1 <<< 52 := rfl
      have h4 := (L₃.claim_bounds C).2.2.2.2
      exact ⟨by omega, C.aligned, by rw [hsz]; exact hfit.size_aligned,
        by rw [hsz, hrc]; exact hle, by rw [hsz]; exact hfit.size_le, by omega⟩
    have hs₃ := (T.evolves.trans E₃).inStage hs
    refine (ends_postAlloc (h := HasMemory.setMemory mem h₃) (V := h₃.view) (m := mem) rfl L₃ C
      hs₃).mono fun _ h₄ hP => ?_
    obtain ⟨q, k, hq, hlive, hv₄⟩ := hP
    obtain ⟨I₄, P₄, C₄⟩ := I₃.addObject (J := W₂.ideal.clone (W₂.name o)) C hq hlive hfitr hsz hrest
      hstatus (IdealHeap.adds_clone _ _)
      (by
        rw [hrc, F₃.refs ho₃.1]
        simp [IdealHeap.clone])
      (by
        rw [hpb, F₃.bytes ho₃.1]
        simp [IdealHeap.clone])
      (fun i hi => by
        rw [hrc] at hi
        rw [hfield hi, (F₃.fields ho₃.1 hi).2]
        refine ⟨?_, by simp [IdealHeap.clone]⟩
        rw [hmem₃] at hi ⊢
        exact E₃.clean (hclean i hi))
      (fun k hk hkle => by
        rw [hpb] at hkle
        have hin := L₃.payload_inside (F₃.published ho₃.1) hkle
        have he (p : Nat) : p + 16 + 8 * Object.refCount h₃.view.memory o + k =
            p + 8 * (2 + Object.refCount h₃.view.memory o + k / 8) := by omega
        have hval := F₃.words ho₃.1 hk hkle
        rw [he] at hin hval
        rw [hrc, he, hword (by omega) (by omega), hval]
        simp [IdealHeap.clone])
    have E₄ := E₃.place P₄ (E₃.copies.trans C₄ E₃.fills P₄.fills P₄.sizes)
      (tallied_withNew T.inv.layout O.grows O.fills L₃ C hq hfitr hsz hrest hoffers) rfl rfl
    refine ends_pure.2 ?_
    have hsame : Object.size (h₃.view.withNew mem r q k).memory r =
        Object.size h₂.view.memory o := by
      rw [← hmem₃]
      exact hsz
    rw [hv₄]
    rw [hname, T.ideal] at I₄ E₄
    refine ⟨_, ⟨I₄, T.evolves.trans E₄, rfl⟩,
      ⟨.inl rfl, fun hr => absurd (relocating_withNew.1 hr) C.inUse.2⟩, ?_, ?_⟩
    · rw [World.add_name, T.ideal]
    · have hsame₃ : SamePlaces h₂.view h₃.view :=
        O.grows.sameObjects.toSamePlaces
      refine Gives.of_serves T.evolves.copies T.evolves.fills
        (O.fills.trans sameSpace_withNew.fills) ?_
        (fun h => hsame₃.forwarded.1 (forwarded_withNew L₃ C hrest hstatus h))
        E₄.sizes
      rw [hsame, sameSpace_withNew.arena]
      exact O.served r rfl

/-- An allocation without an object: memory is lost, and nothing else changes. -/
theorem ends_allocate_simulates {k : Nat} (I : h.view.Inv W st ts)
    (hm : h.view.mutator? m = some t) :
    Ends (allocate m k) h fun r h' => h.view.Simulates W h'.view W st ts W.ideal ∧
      ∀ a, r = some a → h'.view.Claim a (roundedSize k) ∧
        h.view.Gives h'.view m a (roundedSize k) :=
  (ends_allocate I.layout hm).mono fun _ _ hO => by
    obtain ⟨O, -⟩ := hO
    obtain ⟨I', E⟩ := I.grows O.grows O.layout O.fills O.counted
    exact ⟨⟨I', E, rfl⟩, fun a ha => ⟨O.claim a ha, Gives.of_serves (.of_none id) (Fills.refl _)
      O.fills (O.served a ha) O.grows.sameObjects.forwarded.1 E.sizes⟩⟩

end Mutator

/-! ## 4. The mutators and their buffers -/

namespace HeapView

section
variable {V : HeapView} {W : World} {st : Stage} {ts : List MarkTask} {m : Nat} {t : Mutator}

/-- Which mutators there are is nothing to the objects. -/
theorem Inv.reassign {M : Array (Option Mutator)} {q : SatbQueues} {j : Nat} (I : V.Inv W st ts)
    (L' : ({ V with mutators := M, satb := q, joined := j }).Layout)
    (hf : Fills V { V with mutators := M, satb := q, joined := j })
    (hc : V.Counted none → ({ V with mutators := M, satb := q, joined := j }).Counted none)
    (hrec : ∀ v, q.Recorded v ↔ V.satb.Recorded v)
    (hj : V.joined = V.count → j = M.toList.countP (·.isSome)) :
    ({ V with mutators := M, satb := q, joined := j }).Inv W st ts ∧
      V.Persists W { V with mutators := M, satb := q, joined := j } W := by
  have F := I.faithful
  have S : SameObjects V { V with mutators := M, satb := q, joined := j } :=
    SameObjects.of_eq rfl rfl rfl rfl
  have R : Retains (fun _ => True) V { V with mutators := M, satb := q, joined := j } :=
    .of_same ⟨fun _ => rfl, fun _ => rfl, fun _ => rfl⟩ hf id rfl
  refine ⟨⟨L', F.sameMemory S.1 (fun _ => S.live) rfl (fun h => h) rfl F.states
    fun hst v h => F.unrecorded hst v ((hrec v).1 h), fun hst => ?_⟩,
    Persists.of_same F S.1 rfl rfl rfl rfl rfl rfl hf hc rfl rfl rfl rfl rfl hj (fun _ => rfl)
      (R.tallied I.layout L')⟩
  · exact (I.snapshot hst).change S F rfl rfl rfl rfl (fun v h => (hrec v).2 h)
      (fun v h => (I.snapshot hst).recorded ((hrec v).1 h)) fun _ _ => .inl rfl

theorem mutator?_push {x : Option Mutator} {m' : Nat} {u : Mutator}
    (h : ({ V with mutators := V.mutators.push x }).mutator? m' = some u) :
    V.mutator? m' = some u ∨ (m' = V.mutators.size ∧ x = some u) := by
  simp only [mutator?, Array.getElem?_push] at h
  split at h
  · exact .inr ⟨‹_›, by simpa using h⟩
  · exact .inl h

/-- A new mutator has no buffer. -/
theorem fills_push {x : Mutator} (hx : x.tlab.limit = 0) {q : SatbQueues} {j : Nat} :
    Fills V { V with mutators := V.mutators.push (some x), satb := q, joined := j } :=
  Fills.of_buffers ⟨rfl, rfl, rfl⟩ rfl (fun hm hlt =>
    (mutator?_push (V := V) hm).resolve_right fun h => by
      cases h.2
      exact absurd (hx ▸ hlt) (Nat.not_lt_zero _)) id

theorem counted_push {x : Mutator} (hx : x.tlab.start = 0) {q : SatbQueues} {j : Nat}
    (h : V.Counted none) :
    ({ V with mutators := V.mutators.push (some x), satb := q, joined := j }).Counted none := by
  intro i
  have hcount : (V.mutators.push (some x)).toList.countP (V.hasTlabIn i) = V.tlabCount i := by
    simp [tlabCount, hasTlabIn, hx]
  exact (h i).trans (congrArg (· + _) hcount.symm)

/-- **A mutator more**, with a buffer of its own for what it records. -/
theorem Layout.addMutator (L : V.Layout) {j : Nat} :
    ({ V with mutators := V.mutators.push (some { buffer := V.satb.registered }),
              satb := V.satb.register, joined := j }).Layout := by
  have hget {m' : Nat} {u : Mutator}
      (h : ({ V with mutators := V.mutators.push (some { buffer := V.satb.registered }),
                     satb := V.satb.register, joined := j }).mutator? m' = some u) :
      V.mutator? m' = some u ∨ (m' = V.mutators.size ∧ u = { buffer := V.satb.registered }) := by
    refine (mutator?_push (V := V) h).imp_right fun h => ⟨h.1, ?_⟩
    exact (Option.some.inj h.2).symm
  have hbuf {m' : Nat} {u : Mutator} (h : V.mutator? m' = some u) : u.buffer ≠ V.satb.registered := by
    obtain ⟨b, hb, he⟩ := L.buffers.registered h
    exact he ▸ Nat.ne_of_lt (L.buffers.lt b hb)
  refine { L with
    geometry := { L.geometry with }
    regions := fun i => { L.regions i with }
    objects := { L.objects with }
    tlabs := ⟨?_, ?_, ?_, ?_, ?_, fun i => ?_⟩
    spare := fun b hb => L.spare b ?_
    buffers := ⟨Nat.succ_pos _, ?_, ?_, ?_, ?_, ?_, ?_⟩ }
  · intro m' u h h0
    rcases hget h with h | ⟨-, rfl⟩
    · exact { L.tlabs.ok h h0 with }
    · exact absurd rfl h0
  · intro m' u h h0
    rcases hget h with h | ⟨-, rfl⟩
    · exact L.tlabs.none h h0
    · exact ⟨rfl, rfl⟩
  · intro m' u o h ho
    rcases hget h with h | ⟨-, rfl⟩
    · exact L.tlabs.objects h ho
    · exact .inr (.inl (Nat.zero_le _))
  · intro m₁ m₂ u₁ u₂ hne h₁ h₂
    rcases hget h₁ with h₁ | ⟨-, rfl⟩ <;> rcases hget h₂ with h₂ | ⟨-, rfl⟩
    · exact L.tlabs.apart hne h₁ h₂
    · exact .inr (Nat.zero_le _)
    · exact .inl (Nat.zero_le _)
    · exact .inl (Nat.zero_le _)
  · intro m' u h
    rcases hget h with h | ⟨-, rfl⟩
    · exact L.tlabs.sizing h
    · exact Nat.zero_le _
  · have hcount : (V.mutators.push (some { buffer := V.satb.registered })).toList.countP
        (V.hasTlabIn i) = V.tlabCount i := by
      simp [tlabCount, hasTlabIn]
    exact Nat.le_trans (Nat.le_of_eq hcount) (L.tlabs.counted i)
  · rcases hb with hb | ⟨m', u, h, hc, hl⟩
    · exact .inl hb
    · rcases hget h with h | ⟨-, rfl⟩
      · exact .inr ⟨m', u, h, hc, hl⟩
      · exact absurd hl (Nat.not_lt_zero b)
  · simp only [SatbQueues.register, List.map_append, List.map_cons, List.map_nil]
    refine List.nodup_append.2 ⟨L.buffers.nodup, by simp, fun x hx y hy => ?_⟩
    simp only [List.mem_singleton] at hy
    subst hy
    obtain ⟨b, hb, rfl⟩ := List.mem_map.1 hx
    exact Nat.ne_of_lt (L.buffers.lt b hb)
  · intro b hb
    simp only [SatbQueues.register, List.mem_append, List.mem_singleton] at hb ⊢
    rcases hb with hb | rfl
    · exact Nat.lt_succ_of_lt (L.buffers.lt b hb)
    · exact Nat.lt_succ_self _
  · obtain ⟨b, hb, he⟩ := L.buffers.shared
    exact ⟨b, List.mem_append_left _ hb, he⟩
  · intro m' u h
    simp only [SatbQueues.register, List.mem_append, List.mem_singleton]
    rcases hget h with h | ⟨-, rfl⟩
    · obtain ⟨b, hb, he⟩ := L.buffers.registered h
      exact ⟨b, .inl hb, he⟩
    · exact ⟨_, .inr rfl, rfl⟩
  · intro m' u h
    rcases hget h with h | ⟨-, rfl⟩
    · exact L.buffers.not_shared h
    · exact Nat.ne_of_gt L.buffers.pos
  · intro m₁ m₂ u₁ u₂ hne h₁ h₂
    rcases hget h₁ with h₁ | ⟨e₁, rfl⟩ <;> rcases hget h₂ with h₂ | ⟨e₂, rfl⟩
    · exact L.buffers.own hne h₁ h₂
    · exact hbuf h₁
    · exact (hbuf h₂).symm
    · exact absurd (e₁.trans e₂.symm) hne

/-- **A mutator less**, which has given up its buffers. -/
theorem Layout.removeMutator (L : V.Layout) (hm : V.mutator? m = some t) {j : Nat} :
    ({ V with mutators := V.mutators.setIfInBounds m none, satb := V.satb.drop t.buffer,
              joined := j }).Layout := by
  have hget {m' : Nat} {u : Mutator}
      (h : ({ V with mutators := V.mutators.setIfInBounds m none, satb := V.satb.drop t.buffer,
                     joined := j }).mutator? m' = some u) : m' ≠ m ∧ V.mutator? m' = some u := by
    have h : (V.setMutator m none).mutator? m' = some u := h
    rw [mutator?_setMutator hm] at h
    split at h
    · cases h
    · exact ⟨‹_›, h⟩
  refine { L with
    geometry := { L.geometry with }
    regions := fun i => { L.regions i with }
    objects := { L.objects with }
    tlabs := ⟨fun h h0 => { L.tlabs.ok (hget h).2 h0 with }, fun h => L.tlabs.none (hget h).2,
      fun h => L.tlabs.objects (hget h).2, fun hne h₁ h₂ => L.tlabs.apart hne (hget h₁).2 (hget h₂).2,
      fun h => L.tlabs.sizing (hget h).2, fun i => ?_⟩
    spare := fun b hb => L.spare b ?_
    buffers := ⟨L.buffers.pos, ?_, ?_, ?_, ?_, fun h => L.buffers.not_shared (hget h).2,
      fun hne h₁ h₂ => L.buffers.own hne (hget h₁).2 (hget h₂).2⟩ }
  · have hcount := tlabCount_setMutator (i := i) (x := none) hm
    have h1 := L.tlabs.counted i
    have h2 : V.hasTlabIn i none = false := rfl
    rw [h2] at hcount
    show (V.setMutator m none).tlabCount i ≤ (V.region i).activeTlabs
    simp only [Bool.false_eq_true, if_false] at hcount
    omega
  · rcases hb with hb | ⟨m', u, h, hc, hl⟩
    · exact .inl hb
    · exact .inr ⟨m', u, (hget h).2, hc, hl⟩
  · exact L.buffers.nodup.sublist (List.filter_sublist.map _)
  · intro b hb
    exact L.buffers.lt b (List.mem_filter.1 hb).1
  · obtain ⟨b, hb, he⟩ := L.buffers.shared
    exact ⟨b, List.mem_filter.2 ⟨hb, by simp [he]⟩, he⟩
  · intro m' u h
    obtain ⟨hne, h⟩ := hget h
    obtain ⟨b, hb, he⟩ := L.buffers.registered h
    refine ⟨b, List.mem_filter.2 ⟨hb, ?_⟩, he⟩
    have := L.buffers.own hne h hm
    simp only [Bool.or_eq_true, decide_eq_true_eq]
    exact .inr (he ▸ this)

/-- Nothing is handed out when a mutator ends. -/
theorem fills_remove (hm : V.mutator? m = some t) {q : SatbQueues} {j : Nat} :
    Fills V { V with mutators := V.mutators.setIfInBounds m none, satb := q, joined := j } := by
  refine Fills.of_buffers ⟨rfl, rfl, rfl⟩ rfl (fun {m' u} hu _ => ?_) id
  have hu : (V.setMutator m none).mutator? m' = some u := hu
  rw [mutator?_setMutator hm] at hu
  split at hu
  · cases hu
  · exact hu

theorem counted_remove (hm : V.mutator? m = some t) (h0 : t.tlab.start = 0) {q : SatbQueues}
    {j : Nat} (h : V.Counted none) :
    ({ V with mutators := V.mutators.setIfInBounds m none, satb := q, joined := j }).Counted
      none := by
  intro i
  have hcount := tlabCount_setMutator (i := i) (x := none) hm
  have h1 : V.hasTlabIn i (some t) = false := by simp [hasTlabIn, h0]
  have h2 : V.hasTlabIn i none = false := rfl
  rw [h1, h2] at hcount
  have hcount : (V.setMutator m none).tlabCount i = V.tlabCount i := by simpa using hcount
  exact (h i).trans (congrArg (· + _) hcount.symm)

end

end HeapView

namespace Mutator

open HeapView RegionHeap

variable {h : RegionHeap} {W : World} {st : Stage} {ts : List MarkTask} {m : Nat} {t : Mutator}

/-- **A mutator retires its buffer.** -/
theorem ends_retireTlab_simulates (I : h.view.Inv W st ts) (hm : h.view.mutator? m = some t) :
    Ends (retireTlab m) h fun _ h' => h.view.Simulates W h'.view W st ts W.ideal ∧
      h'.view.mutator? m = some { t with tlab := {} } :=
  (ends_retireTlab I.layout hm).mono fun _ _ R => by
    obtain ⟨I', E⟩ := I.grows R.grows R.layout R.fills R.counted
    exact ⟨⟨I', E, rfl⟩, R.mutator⟩

/-- **A mutator hands over what it recorded.** -/
theorem ends_flush (I : h.view.Inv W st ts) (hm : h.view.mutator? m = some t) :
    Ends (flush m) h fun _ h' => h.view.Simulates W h'.view W st ts W.ideal ∧
      h'.view.mutators = h.view.mutators ∧ h'.view.roots = h.view.roots ∧
      (h'.view.satb.entries t.buffer).toList = [] := by
  simp only [flush, ends_bind]
  rw [ends_getState hm]
  have hid := I.layout.buffer_mem hm
  have hn : h.view.satb.ids.Nodup := I.layout.buffers.nodup
  have hiff {v : Nat} := SatbQueues.recorded_flush (v := v) hn hid
  obtain ⟨I', E⟩ := I.setSatb (q := h.view.satb.flush t.buffer) (by simp) (by simp)
    (fun v hv => hiff.2 hv) fun v hv => .inl (hiff.1 hv)
  show Ends (modifySatb (·.flush t.buffer)) h _
  simp only [modifySatb, ends_modify]
  refine ⟨⟨I', E, rfl⟩, rfl, rfl, ?_⟩
  exact SatbQueues.entries_flush hn hid

/-- **A new mutator.** -/
theorem ends_create (I : h.view.Inv W st ts) (hp : h.view.pending = false) :
    Ends (create (H := RegionHeap)) h fun k h' => (h'.view.mutator? k).isSome = true ∧
      h.view.Simulates W h'.view W st ts W.ideal := by
  obtain ⟨I', E⟩ := I.reassign (j := h.view.joined + 1) I.layout.addMutator (fills_push rfl)
    (counted_push rfl) (fun _ => SatbQueues.recorded_register) fun hj => by
      rw [hj]
      simp [HeapView.count]
  have hreg : Heap.registerBuffer = registerBuffer := rfl
  simp only [create, hreg, registerBuffer, modifySatb, Heap.onSafepoint, Heap.modifyCore, ends_bind,
    ends_get, ends_modify, ends_pure]
  show Ends (Action.onPart _ _ Safepoint.join) _ _
  simp only [ends_onPart, Safepoint.join, ends_bind, ends_get, ends_ite, ends_set]
  refine ⟨fun hc => ?_, fun _ => ⟨?_, I', ⟨E, fun {m} hm => ?_, fun hc _ => hc⟩, rfl⟩⟩
  · rw [show h.safepoint.pending = false from hp] at hc
    cases hc
  · show ((h.view.mutators.push _)[h.view.mutators.size]?.join).isSome = true
    rw [Array.getElem?_push, if_pos rfl]
    rfl
  · show ((h.view.mutators.push _)[m]?.join).isSome = true
    have hlt : m < h.view.mutators.size := by
      by_contra hge
      rw [mutator?, Array.getElem?_eq_none (Nat.le_of_not_lt hge)] at hm
      cases hm
    rw [Array.getElem?_push, if_neg (Nat.ne_of_lt hlt)]
    exact hm

/-- **The end of a mutator.**  What it recorded is handed over, and its buffers are given up. -/
theorem ends_destroy (I : h.view.Inv W st ts) (hm : h.view.mutator? m = some t)
    (hj : h.view.joined = h.view.count) :
    Ends (destroy m) h fun _ h' => h'.view.Inv W st ts ∧ h.view.Persists W h'.view W ∧
      h'.view.roots = h.view.roots ∧
      ∀ {k}, k ≠ m → (h.view.mutator? k).isSome = true → (h'.view.mutator? k).isSome = true := by
  simp only [destroy, ends_bind]
  rw [ends_getState hm]
  refine (ends_flush I hm).mono fun _ h₁ hF => ?_
  obtain ⟨S₁, hmut, hroots, hempty⟩ := hF
  have hm₁ : h₁.view.mutator? m = some t := by
    unfold HeapView.mutator?
    rw [hmut]
    exact hm
  refine (ends_retireTlab S₁.inv.layout hm₁).mono fun _ h₂ R => ?_
  have L₂ := R.layout
  have G₂ := R.grows
  have hm₂ := R.mutator
  obtain ⟨I₂, E₂⟩ := S₁.inv.grows G₂ L₂ R.fills R.counted
  have E := S₁.evolves.trans E₂
  have hsatb : h₂.view.satb = h₁.view.satb := by rw [G₂.frame]
  have hj₂ := E.joined hj
  have hcount : (h₂.view.setMutator m none).count + 1 = h₂.view.count := by
    simpa [HeapView.count] using countP_setMutator (p := (·.isSome)) (x := none) hm₂
  have hpos : 0 < h₂.safepoint.joined := by
    show 0 < h₂.view.joined
    omega
  obtain ⟨I₃, E₃⟩ := I₂.reassign (j := h₂.view.joined - 1) (L₂.removeMutator hm₂)
    (fills_remove hm₂) (counted_remove hm₂ rfl) (fun v => by
      rw [show ({ t with tlab := {} } : Mutator).buffer = t.buffer from rfl]
      exact SatbQueues.recorded_drop L₂.buffers.nodup (hsatb ▸ hempty))
    fun hj => by
      show h₂.view.joined - 1 = (h₂.view.setMutator m none).count
      omega
  simp only [Heap.onSafepoint, ends_bind, ends_get]
  show Ends (Action.onPart _ _ Safepoint.leave) _ _
  simp only [ends_onPart, Safepoint.leave, ends_bind, ends_get, ends_lift, require_eq_ok, hpos,
    ends_set]
  refine ⟨(), trivial, ?_⟩
  show Ends (modifySatb (·.drop t.buffer)) _ _
  simp only [modifySatb, ends_modify]
  refine ends_setState fun h₅ hv₅ => ?_
  rw [hv₅]
  refine ⟨I₃, E.toPersists.trans E₃, ?_, fun {k} hk hb => ?_⟩
  · show h₂.view.roots = _
    rw [G₂.frame, hroots]
  · show ((h₂.view.setMutator m none).mutator? k).isSome = true
    rw [mutator?_setMutator hm₂, if_neg hk]
    exact E.bound hb

end Mutator

end ManagedHeap
