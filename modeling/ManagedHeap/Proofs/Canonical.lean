/-
# What mutators see of an object

While a cycle relocates, an object has one copy that mutators may use.  A reference to it is
*canonical*: it has no other copy, and none is about to be made of it.  The load barrier gives a
canonical reference back and does nothing but count.

Whatever an operation hands out, or is read from a slot with its barrier, is canonical in the state
after it, with one exception.  A compare-and-swap that fails tells what it found in the field, as it
is, and a field may hold an older copy until references are updated (`stale_witness`).
-/
import ManagedHeap.Proofs.Sessions

namespace ManagedHeap

/-! ## 1. Canonical references -/

namespace RegionHeap

open HeapView

/-- The object is not forwarded to another, and if its region is relocated it is forwarded to
itself. -/
def Canonical (h : RegionHeap) (v : Nat) : Prop :=
  Object.resolve h.core.memory v = v ∧
    (h.view.Relocating v → Object.isSelfForwarded h.core.memory v = true)

instance (h : RegionHeap) (v : Nat) : Decidable (h.Canonical v) := by
  unfold Canonical Relocating
  infer_instance

section
variable {h : RegionHeap} {W : World} {st : Stage} {ts : List MarkTask} {slot : Option Nat} {v : Nat}

/-- **For references to objects, to be canonical is to be current.** -/
theorem canonical_iff (I : h.view.Inv W st ts) (hv : h.view.Refers W v) :
    h.Canonical v ↔ h.view.Current W v := by
  have F := I.faithful
  have hpos : v ≠ null := Nat.ne_of_gt (I.layout.bounds (F.refers_published hv)).pos
  have hmem : h.core.memory = h.view.memory := rfl
  rw [Canonical, hmem]
  rcases F.forwardee I.layout hv with ⟨h0, hf, hm⟩ | ⟨c, -, hf, hc, -⟩
  · -- It has no copy, so it is canonical if none is to be made.
    have hself : Object.isSelfForwarded h.view.memory v = false := by simp [Object.isSelfForwarded, hf]
    have hres : Object.resolve h.view.memory v = v := Object.resolve_of_zero h0
    constructor
    · rintro ⟨-, hr⟩
      exact ⟨hm, fun hrel => absurd (hr hrel) (by simp [hself])⟩
    · rintro ⟨-, hr⟩
      exact ⟨hres, fun hrel => absurd (h0.symm.trans (hr hrel)) Object.tagged_ne_zero.symm⟩
  · have hres : Object.resolve h.view.memory v = c := by simp [Object.resolve, hpos, hf]
    constructor
    · rintro ⟨he, -⟩
      exact (hres.symm.trans he) ▸ hc
    · intro hcur
      have he : c = v := hres.symm.trans (F.resolve_current I.layout hcur)
      exact ⟨hres.trans he, fun _ => by simp [Object.isSelfForwarded, hf, he]⟩

/-- **The load barrier leaves a canonical reference alone.** -/
theorem ends_loadBarrier_canonical (slot : Option Nat) (I : h.view.Inv W st ts)
    (hv : h.view.Refers W v) (hc : h.Canonical v) :
    Ends (loadBarrier slot v) h fun r h' => r = v ∧ ∃ n, h' = { h with barrierStats := n } := by
  have hcur := (canonical_iff I hv).1 hc
  have hp := I.faithful.published hcur.1
  simp only [loadBarrier, ends_bind, ends_get, ends_ite, ends_pure]
  refine ⟨fun _ => ⟨trivial, h.barrierStats, rfl⟩, fun _ => ?_⟩
  simp only [modifyBarrierStats, ends_modify]
  obtain ⟨h₁, hh₁⟩ : ∃ h₁ : RegionHeap, h₁ = { h with barrierStats :=
    { h.barrierStats with lrbSlowPaths := h.barrierStats.lrbSlowPaths + 1 } } := ⟨_, rfl⟩
  have hview : h₁.view = h.view := by rw [hh₁]; rfl
  rw [← hh₁]
  have hcopy : Ends (currentCopy v) h₁ fun r h' => r = v ∧ h' = h₁ := by
    have hmem : (HasMemory.memory h₁ : Memory) = h.view.memory := by rw [hh₁]; rfl
    simp only [currentCopy, ends_bind, ends_getMemory, hmem]
    rcases I.faithful.forwardee I.layout hv with ⟨h0, hf, -⟩ | ⟨c, -, hf, -⟩
    · rw [hf]
      simp only [ends_bind]
      rw [ends_regionOfPublished (hview ▸ I.layout) (hview ▸ hp), hview,
        ends_getRegion (by rw [hview]; exact (I.layout.bounds hp).lt_max), ends_ite]
      refine ⟨fun hr => ?_, fun _ => ends_pure.2 ⟨rfl, rfl⟩⟩
      have hrel : h.view.Relocating v := by rw [hh₁] at hr; exact hr
      exact absurd ((hcur.2 hrel).symm.trans h0) Object.tagged_ne_zero
    · have he : c = v := by
        have hpos : v ≠ null := Nat.ne_of_gt (I.layout.bounds hp).pos
        have := I.faithful.resolve_current I.layout hcur
        simpa [Object.resolve, hpos, hf] using this
      rw [hf, he]
      exact ends_pure.2 ⟨rfl, rfl⟩
  refine hcopy.mono ?_
  rintro _ _ ⟨rfl, rfl⟩
  simp only [heal, ends_bind, ends_get, ends_ite, ends_pure]
  exact ⟨fun hne => absurd rfl hne.1, fun _ => ⟨trivial, _, hh₁⟩⟩

/-- A current reference is canonical, and the load barrier gives it back. -/
theorem canonical_of_current (I : h.view.Inv W st ts) (hv : h.view.Current W v) :
    h.Canonical v ∧
      ∀ slot, ∃ n, loadBarrier slot v h = .ok v { h with barrierStats := n } := by
  have hcan : h.Canonical v := (canonical_iff I hv.refers).2 hv
  refine ⟨hcan, fun slot => ?_⟩
  obtain ⟨_, _, hok, rfl, n, rfl⟩ := ends_loadBarrier_canonical slot I hv.refers hcan
  exact ⟨n, hok⟩

end

end RegionHeap

/-! ## 2. What operations hand out -/

namespace Session

open HeapView

variable {place : Place} {o : Options} {h : RegionHeap} {cs : List Command} {op : Operation}

/-- A slot that the program may read by itself: that of one of its roots, or of a field of an object
that it has a reference to, in the copy that it may use. -/
def ReadsSlot (s : Session) (x : Nat) : Prop :=
  x ∈ s.handles ∨ ∃ k i, s.HasFields k i 1 ∧ s.heap.Canonical (s.object k) ∧
    x = Object.field (s.object k) i

/-- Such a slot is one of the objects and roots. -/
theorem Ready.isSlot {s : Session} {W : World} {x : Nat} (S : s.Ready W) (h : s.ReadsSlot x) :
    s.heap.view.IsSlot W x := by
  rcases h with h | ⟨k, i, ⟨hk, hi⟩, hcan, rfl⟩
  · exact .inr (S.handles x h)
  · have hm := (S.inv.faithful.resolve_refers S.inv.layout (S.refers hk)).1
    exact .inl ⟨_, i, (RegionHeap.canonical_iff S.inv (.inl hm)).1 hcan, hi, rfl⟩

/-- **Mutators only ever see canonical copies**, but for what a failed compare-and-swap found: any
other reference that an operation hands out, and any that is read from a slot with its barrier, is
canonical in the state after it, so the load barrier gives it back as it is, and if its region is
relocated it is forwarded to itself. -/
theorem hands_out_canonical (hb : AnyHeap.build place o = .ok (.ok (.region h)))
    (hp : Permitted execute Allows (cs ++ [.operation op]) (start h)) :
    ∃ as s a s', Action.runAll execute cs (start h) = .ok as s ∧
      execute (.operation op) s = .ok a s' ∧
      (∀ v ∈ a.references, v ≠ null → a ≠ .swap (some v) → s'.heap.Canonical v ∧
        ∀ slot, ∃ n, RegionHeap.loadBarrier slot v s'.heap =
          .ok v { s'.heap with barrierStats := n }) ∧
      ∀ x, s.ReadsSlot x → ∃ v h', RegionHeap.barriers.read x s.heap = .ok v h' ∧
        (v ≠ null → h'.Canonical v ∧
          ∀ slot, ∃ n, RegionHeap.loadBarrier slot v h' = .ok v { h' with barrierStats := n }) := by
  obtain ⟨hcs, hlast⟩ := hp.snoc
  obtain ⟨as, s, hrun, W, S, -⟩ := ends_program hb hcs
  obtain ⟨a, s', hs', h', W', b, I, rfl, -, P⟩ := S.ends_perform (hlast hrun)
  refine ⟨as, s, a, _, hrun, hs', fun v hv h0 hne => ?_, fun x hx => ?_⟩
  · exact RegionHeap.canonical_of_current P.inv (((P.clean v hv).resolve_left hne).resolve_left h0)
  · obtain ⟨v, h₁, hread, W₁, R, -⟩ := Mutator.ends_read S.inv S.inStage (S.isSlot hx)
    exact ⟨v, h₁, hread, fun h0 => RegionHeap.canonical_of_current R.inv (R.result.resolve_left h0)⟩

theorem hands_out_canonical_relocation :
    ∃ h, AnyHeap.build Place.first smallHeap = .ok (.ok (.region h)) ∧
      Permitted execute Allows (relocation.take 12 ++ [.operation (.loadRoot rootBase)]) (start h) ∧
      ∃ as s a s', Action.runAll execute (relocation.take 12) (start h) = .ok as s ∧
        execute (.operation (.loadRoot rootBase)) s = .ok a s' ∧
        (∀ v ∈ a.references, v ≠ null → a ≠ .swap (some v) → s'.heap.Canonical v ∧
          ∀ slot, ∃ n, RegionHeap.loadBarrier slot v s'.heap =
            .ok v { s'.heap with barrierStats := n }) ∧
        ∀ x, s.ReadsSlot x → ∃ v h', RegionHeap.barriers.read x s.heap = .ok v h' ∧
          (v ≠ null → h'.Canonical v ∧
            ∀ slot, ∃ n, RegionHeap.loadBarrier slot v h' =
              .ok v { h' with barrierStats := n }) := by
  obtain ⟨h, hb, hp⟩ := permits_iff.1 (show permits Place.first smallHeap
    (relocation.take 12 ++ [.operation (.loadRoot rootBase)]) = true by decide +kernel)
  exact ⟨h, hb, hp, hands_out_canonical hb hp⟩

/-- An object that refers to itself is moved.  A compare-and-swap finds that its field is not null, and
what it found is resolved. -/
def failedSwap : List Command := [
  .operation .create, .operation (.alloc 0 0 3000), .operation (.alloc 0 2 800),
  .operation (.newRoot 1), .operation (.storeRef 0 1 0 1), .operation (.alloc 0 0 3000),
  .step .initMark, .step .concurrentMark, .step .finalMark, .step .evacuate,
  .operation (.loadRoot rootBase), .operation (.casRef 0 0 0 1 0), .operation (.resolve 1)]

/-- Whether a compare-and-swap was the last but one, and what it found is not what that resolves to. -/
def foundStale (as : List Answer) : Bool :=
  match as.reverse with
  | .reference v :: .swap (some w) :: _ => decide (w ≠ null ∧ v ≠ w)
  | _ => false

theorem foundStale_iff {as : List Answer} :
    foundStale as = true ↔ ∃ bs w v, as = bs ++ [.swap (some w), .reference v] ∧ w ≠ null ∧ v ≠ w := by
  unfold foundStale
  constructor
  · intro hf
    split at hf
    · rename_i v w rest has
      refine ⟨rest.reverse, w, v, ?_, of_decide_eq_true hf⟩
      rw [← List.reverse_reverse as, has]
      simp
    · cases hf
  · rintro ⟨bs, w, v, rfl, h⟩
    simpa using h

/-- **What a failed compare-and-swap found need not be canonical**: the load barrier gives something
else for it, while references are still to be updated. -/
theorem stale_witness : ∃ h, AnyHeap.build Place.first smallHeap = .ok (.ok (.region h)) ∧
    Permitted execute Allows failedSwap (start h) ∧
    ∃ as s w v, Action.runAll execute failedSwap (start h) =
        .ok (as ++ [.swap (some w), .reference v]) s ∧
      s.heap.gcState.hasForwarded = true ∧ w ≠ null ∧ v ≠ w := by
  obtain ⟨h, hb, hd⟩ := builds_iff.1 (show builds Place.first smallHeap (fun h =>
    decide (Permitted execute Allows failedSwap (start h)) &&
      match Action.runAll execute failedSwap (start h) with
      | .ok as s => s.heap.gcState.hasForwarded && foundStale as
      | .error _ _ => false) = true by decide +kernel)
  simp only [Bool.and_eq_true, decide_eq_true_eq] at hd
  obtain ⟨hp, hd⟩ := hd
  refine ⟨h, hb, hp, ?_⟩
  split at hd
  · rename_i as s hrun
    obtain ⟨hf, hs⟩ := (Bool.and_eq_true _ _ ▸ hd : _ ∧ _)
    obtain ⟨bs, w, v, rfl, hw, hv⟩ := foundStale_iff.1 hs
    exact ⟨bs, s, w, v, hrun, hf, hw, hv⟩
  · cases hd

end Session

end ManagedHeap
