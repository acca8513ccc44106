/-
# The update of references

When the live objects of the chosen regions were moved, the roots and the fields of the objects that
are left are made to refer to the new copies.  An object that was moved is skipped, since its fields
are those of a copy that nothing refers to any more; an object that could not be moved is not.

* Section 1: the slots that are updated, told from the heap alone (`Updatable`), are those that the
  invariant speaks of (`updatable_iff`).
* Section 2: one update.  A slot is given what its old content resolves to (`Redirected`).
* Section 3: an update after which another one changes nothing, at any point of a program.

That a second update changes nothing needs no other walk over the heap: what a clean slot holds is
the only clean reference to its object (`Clean.eq_of_name`).
-/
import ManagedHeap.Proofs.LoadBarrier

namespace ManagedHeap

namespace HeapView

/-! ## 1. The slots that are updated -/

/-- An object of a region that is relocated which was moved: another copy has its place. -/
def Replaced (V : HeapView) (o : Nat) : Prop := V.Relocating o ∧ ∃ c, V.Forwarded o c

/-- A slot that is updated: that of a root, or a field of a live object that has its place. -/
def Updatable (V : HeapView) (a : Nat) : Prop :=
  (∃ c ∈ V.roots.cells, c.live = true ∧ c.slot = a) ∨
    ∃ o, V.Published o ∧ V.Live o ∧ ¬ V.Replaced o ∧
      ∃ i < Object.refCount V.memory o, a = Object.field o i

/-- All slots that are updated were given what they resolve to, and nothing else was written. -/
structure Redirected (V V' : HeapView) : Prop where
  slots : ∀ {a}, V'.Updatable a ↔ V.Updatable a
  /-- A slot is null or refers to an object that has its place. -/
  settled : ∀ {a}, V.Updatable a → V'.memory.read a = null ∨ (V'.Published (V'.memory.read a) ∧
    ¬ V'.Replaced (V'.memory.read a) ∧
    Object.resolve V'.memory (V'.memory.read a) = V'.memory.read a)
  /-- It is the same object as before. -/
  same : ∀ {a}, V.Updatable a →
    V'.memory.read a = Object.resolve V.memory (V.memory.read a)
  other : ∀ {a}, ¬ V.Updatable a → V'.memory.read a = V.memory.read a
  published : ∀ {o}, V'.Published o ↔ V.Published o
  status : ∀ {o}, V.Published o → V'.memory.read o = V.memory.read o
  layoutWord : ∀ {o}, V.Published o → V'.memory.read (o + 8) = V.memory.read (o + 8)
  payload : ∀ {o k}, V.Published o → k + 8 ≤ Object.payloadBytes V.memory o →
    V'.memory.read (o + 16 + 8 * Object.refCount V.memory o + k) =
      V.memory.read (o + 16 + 8 * Object.refCount V.memory o + k)

section
variable {V V' : HeapView} {W : World} {st : Stage} {S : Set Nat} {o v a k : Nat}

/-- A live object is one of the program exactly if it has its place. -/
theorem Inv.not_replaced_iff (I : V.Inv W st []) (hst : st ≠ .marking) (hp : V.Published o)
    (hl : V.Live o) : ¬ V.Replaced o ↔ o ∈ W.objects := by
  have F := I.faithful
  constructor
  · intro hn
    refine (F.survivors hst hp hl).resolve_right ?_
    rintro ⟨c, hm⟩
    have hfwd : Object.forwardee? V.memory o = some c :=
      Object.forwardee?_of_tagged hm.status (I.layout.bounds (F.published hm.mem)).aligned
    exact hn ⟨hm.relocating, c, hp, hfwd, fun he => hm.settled (he ▸ hm.relocating)⟩
  · rintro ho ⟨-, c, hf⟩
    exact F.not_moved ho (I.moved_of_forwarded hf)

/-- The slots that are updated are the roots and the fields of the live objects. -/
theorem Inv.updatable_iff (I : V.Inv W st []) (hst : st ≠ .marking) :
    V.Updatable a ↔ a ∈ V.rootSlots ∪ V.liveFields W V.committed := by
  have F := I.faithful
  refine or_congr Iff.rfl ⟨?_, ?_⟩
  · rintro ⟨o, hp, hl, hn, hf⟩
    exact ⟨o, (I.not_replaced_iff hst hp hl).1 hn, hl, (I.layout.bounds hp).committed, hf⟩
  · rintro ⟨o, ho, hl, -, hf⟩
    have hp := F.published ho
    exact ⟨o, hp, hl, (I.not_replaced_iff hst hp hl).2 ho, hf⟩

/-- What was updated may be updated again: to hold no stale reference is more than the update asks
for. -/
theorem Inv.toCopied (I : V.Inv W .updated []) : V.Inv W .copied [] :=
  have F := I.faithful
  { layout := I.layout
    snapshot := fun h => by cases h
    faithful :=
      { F with
        fields := fun ho hi => (F.fields ho hi).imp_left fun h => h.restage fun h => by cases h
        roots := fun hc hl => (F.roots hc hl).imp_left fun h => h.restage fun h => by cases h
        states := fun i => ⟨(F.states i).1, fun h => by cases h⟩
        survivors := fun _ => F.survivors (by decide)
        live := fun _ => F.live rfl
        copied := fun _ => F.copied (.inr rfl)
        unrecorded := fun _ => F.unrecorded (by decide) } }

/-- Once everything was moved, a reference resolves to a clean one. -/
theorem Inv.clean_resolve (I : V.Inv W .copied []) (h : v = 0 ∨ V.Refers W v) :
    V.Clean W (Object.resolve V.memory v) ∧ W.name (Object.resolve V.memory v) = W.name v := by
  rcases h with rfl | h
  · exact ⟨.inl rfl, rfl⟩
  · obtain ⟨hmem, hname⟩ := I.faithful.resolve_refers I.layout h
    exact ⟨.inr (I.faithful.current_of_mem hmem), hname⟩

/-! ## 2. One update -/

/-- The fields of the live objects are slots of the program. -/
theorem Inv.isSlot (I : V.Inv W .copied []) (h : V.Updatable a) : V.IsSlot W a := by
  refine h.symm.imp ?_ id
  rintro ⟨o, hp, hl, hn, i, hi, rfl⟩
  have ho := (I.not_replaced_iff (by decide) hp hl).1 hn
  exact ⟨o, i, I.faithful.current_of_mem ho, hi, rfl⟩

/-- A slot keeps the identity of what it holds. -/
theorem Updated.name (U : V.Updated W V' S) (I : V.Inv W .copied []) (h : V.IsSlot W a) :
    W.name (V'.memory.read a) = W.name (V.memory.read a) := by
  have F := I.faithful
  have F' := U.inv.faithful
  rcases h with ⟨o, i, ho, hi, rfl⟩ | ⟨c, hc, hl, rfl⟩
  · have hi' : i < Object.refCount V'.memory o := by rwa [U.refCount F ho.1]
    rw [(F'.fields ho.1 hi').2, (F.fields ho.1 hi).2]
  · have hc' : c ∈ V'.roots.cells := by rwa [U.frame]
    rw [(F'.roots hc' hl).2, (F.roots hc hl).2]

/-- A slot that was updated holds what its old content resolves to. -/
theorem Updated.resolved (U : V.Updated W V' S) (I : V.Inv W .copied []) (h : V.IsSlot W a)
    (ha : a ∈ S) : V'.memory.read a = Object.resolve V.memory (V.memory.read a) := by
  obtain ⟨hclean, hname⟩ := I.clean_resolve (I.slot_refers h)
  exact (U.clean ha).eq_of_name (U.evolves.clean hclean) U.inv.faithful
    ((U.name I h).trans hname.symm)

/-- **The slots are updated**, and every object is what it was but for them. -/
theorem Updated.redirected (U : V.Updated W V' (V.rootSlots ∪ V.liveFields W V.committed))
    (I : V.Inv W .copied []) : V.Redirected V' := by
  have L := I.layout
  have F := I.faithful
  have hslot {a : Nat} : a ∈ V.rootSlots ∪ V.liveFields W V.committed ↔ V.Updatable a :=
    (I.updatable_iff (by decide)).symm
  have hother {a : Nat} (h : ¬ V.Updatable a) : V'.memory.read a = V.memory.read a :=
    U.other (mt hslot.1 h)
  have hhead {o : Nat} (hp : V.Published o) : ¬ V.Updatable o ∧ ¬ V.Updatable (o + 8) :=
    ⟨fun h => ((I.hasSlot (I.isSlot h)).ne_header L hp).1 rfl,
      fun h => ((I.hasSlot (I.isSlot h)).ne_header L hp).2 rfl⟩
  have hpub {o : Nat} : V'.Published o ↔ V.Published o := by
    rw [U.frame]
    exact Iff.rfl
  refine ⟨fun {a} => ?_, fun {a} ha => ?_, fun ha => U.resolved I (I.isSlot ha) (hslot.2 ha),
    hother, hpub, fun hp => hother (hhead hp).1, fun hp => hother (hhead hp).2,
    fun {o k} hp hk => hother fun h => ?_⟩
  · rw [U.inv.updatable_iff (by decide), ← hslot]
    have hfields : V'.liveFields W V'.committed = V.liveFields W V.committed := by
      ext b
      constructor
      · rintro ⟨o, ho, hl, hx, i, hi, rfl⟩
        rw [U.frame] at hl hx
        exact ⟨o, ho, hl, hx, i, by rwa [U.refCount F ho] at hi, rfl⟩
      · rintro ⟨o, ho, hl, hx, i, hi, rfl⟩
        refine ⟨o, ho, ?_, ?_, i, by rwa [U.refCount F ho], rfl⟩
        · rw [U.frame]
          exact hl
        · rw [U.frame]
          exact hx
    have hroots : V'.rootSlots = V.rootSlots := by
      rw [U.frame]
      rfl
    rw [hfields, hroots]
  · refine (U.clean (hslot.2 ha)).imp_right fun hc => ?_
    have hp := U.inv.faithful.published hc.1
    refine ⟨hp, fun hr => ?_, U.inv.faithful.resolve_current U.inv.layout hc⟩
    exact (U.inv.not_replaced_iff (by decide) hp (U.inv.faithful.live rfl hc.1 hr.1)).2 hc.1 hr
  · rcases h with ⟨c, hc, -, he⟩ | ⟨p, hpp, -, -, i, hi, he⟩
    · have h1 := L.slot_ge hc
      have h2 := L.payload_inside hp hk
      have h3 := L.inside_lt (a := o + 16 + 8 * Object.refCount V.memory o + k) hp (by omega)
      omega
    · exact L.field_ne_payload hpp hi hp hk he

/-- Roots that were dropped are no slots. -/
theorem updatable_prune : ({ V with roots := V.roots.prune }).Updatable a ↔ V.Updatable a :=
  or_congr_left (Set.ext_iff.1 (rootSlots_prune (V := V)) a)

/-- That roots were dropped is nothing to an update. -/
theorem Redirected.of_prune (R : ({ V with roots := V.roots.prune }).Redirected V') :
    V.Redirected V' where
  slots := R.slots.trans updatable_prune
  settled h := R.settled (updatable_prune.2 h)
  same h := R.same (updatable_prune.2 h)
  other h := R.other (mt updatable_prune.1 h)
  published := R.published
  status h := R.status h
  layoutWord h := R.layoutWord h
  payload h hk := R.payload h hk

/-- **What was updated is not changed by an update.** -/
theorem Redirected.fixed {V'' : HeapView} (R : V.Redirected V') (R' : V'.Redirected V'') (a : Nat) :
    V''.memory.read a = V'.memory.read a := by
  by_cases ha : V'.Updatable a
  · rw [R'.same ha]
    rcases R.settled (R.slots.1 ha) with h0 | ⟨-, -, h⟩
    · rw [h0]
      rfl
    · exact h
  · exact R'.other ha

end

end HeapView

/-! ## 3. Updates at any point of a program -/

namespace RegionHeap

open HeapView

variable {h : RegionHeap} {W : World}

/-- An update of references, when all objects were moved, and again after it. -/
theorem ends_redirect (I : h.view.Inv W .copied []) (hs : h.view.InStage .copied) :
    Ends updateRefs h fun _ h' => h.view.Redirected h'.view ∧ h'.view.Inv W .copied [] ∧
      h'.view.InStage .copied := by
  refine (ends_updateSlots I hs).mono fun _ h' U => ⟨?_, U.inv, U.evolves.inStage hs⟩
  have U' := U.congr (T := ({ h.view with roots := h.view.roots.prune }).rootSlots ∪
    h.view.liveFields W h.view.committed) fun b => by rw [rootSlots_prune]
  exact (U'.redirected I.prune).of_prune

end RegionHeap

namespace Session

open HeapView

variable {place : Place} {o : Options} {h : RegionHeap} {cs : List Command} {s : Session} {W : World}

/-- From the end of the evacuation on, a session has the invariant that an update needs. -/
theorem Ready.copied (S : s.Ready W) (hst : s.stage = .copied ∨ s.stage = .updated) :
    s.heap.view.Inv W .copied [] ∧ s.heap.view.InStage .copied := by
  rcases hst with hst | hst
  · exact ⟨hst ▸ S.inv, hst ▸ S.inStage⟩
  · exact ⟨(hst ▸ S.inv : s.heap.view.Inv W .updated []).toCopied, (hst ▸ S.inStage :)⟩

/-- **References are updated completely, to the objects that they were to, and once and for all.**
After any permitted program, from the end of the evacuation until the regions are recycled: an update
gives each root, and each field of a live object that has its place, what its content resolves to;
it writes nothing else; and another update changes no word of memory. -/
theorem updates_references (hb : AnyHeap.build place o = .ok (.ok (.region h)))
    (hp : Permitted execute Allows cs (start h)) :
    ∃ as s, Action.runAll execute cs (start h) = .ok as s ∧
      (s.stage = .copied ∨ s.stage = .updated → ∃ h₁ h₂,
        RegionHeap.updateRefs s.heap = .ok () h₁ ∧ RegionHeap.updateRefs h₁ = .ok () h₂ ∧
        s.heap.view.Redirected h₁.view ∧
        ∀ a, h₂.core.memory.read a = h₁.core.memory.read a) := by
  obtain ⟨as, s, hrun, W, S, -⟩ := ends_program hb hp
  refine ⟨as, s, hrun, fun hst => ?_⟩
  obtain ⟨I, hs⟩ := S.copied hst
  obtain ⟨_, h₁, hu₁, R₁, I₁, hs₁⟩ := RegionHeap.ends_redirect I hs
  obtain ⟨_, h₂, hu₂, R₂, -⟩ := RegionHeap.ends_redirect I₁ hs₁
  exact ⟨h₁, h₂, hu₁, hu₂, R₁, R₁.fixed R₂⟩

/-- The object in use was moved, and the root still refers to where it was. -/
theorem updates_references_relocation : ∃ h as s h₁ h₂,
    AnyHeap.build Place.first smallHeap = .ok (.ok (.region h)) ∧
    Permitted execute Allows (relocation.take 15) (start h) ∧
    Action.runAll execute (relocation.take 15) (start h) = .ok as s ∧ s.stage = .copied ∧
    RegionHeap.updateRefs s.heap = .ok () h₁ ∧ RegionHeap.updateRefs h₁ = .ok () h₂ ∧
    s.heap.view.Redirected h₁.view ∧
    ∀ a, h₂.core.memory.read a = h₁.core.memory.read a := by
  obtain ⟨h, hb, hc⟩ := builds_iff.1 (show builds Place.first smallHeap (fun h =>
    decide (Permitted execute Allows (relocation.take 15) (start h)) &&
    decide (Ends (Action.runAll execute (relocation.take 15)) (start h) fun _ s =>
      s.stage = .copied)) = true by decide +kernel)
  rw [Bool.and_eq_true, decide_eq_true_eq, decide_eq_true_eq] at hc
  obtain ⟨hp, hends⟩ := hc
  obtain ⟨as, s, hrun, hall⟩ := updates_references hb hp
  have hst : s.stage = .copied := hends.of_ok hrun
  obtain ⟨h₁, h₂, hu⟩ := hall (.inl hst)
  exact ⟨h, as, s, h₁, h₂, hb, hp, hrun, hst, hu⟩

end Session

end ManagedHeap
