/-
# What a cycle may empty

A region is chosen for relocation from outside: by its state, by whether it is allocated from, and by
its count of buffers.  That the choice never takes memory in which a mutator still allocates rests on
the counts, which are kept by four operations in three places.  Along every run they are exact, and
so the last step of a cycle finds no buffer in what it empties.
-/
import ManagedHeap.Proofs.Sessions

namespace ManagedHeap

namespace HeapView

variable {V V' : HeapView} {m b : Nat} {t : Mutator}

/-- The memory of a buffer is in no region that is relocated. -/
theorem Layout.tlab_not_relocating (L : V.Layout) (hm : V.mutator? m = some t)
    (hb : t.tlab.start ≤ b) (hlt : b < t.tlab.limit) : ¬ V.Relocating b := by
  have h0 : t.tlab.start ≠ 0 := fun h0 => by
    have := (L.tlabs.none hm h0).2
    omega
  rw [Relocating, regionOf, L.tlab_index hm h0 hb hlt]
  exact (L.tlab_region hm h0).2.2

/-- The end of a cycle clears no memory of a buffer. -/
theorem Emptied.tlab (E : Emptied V V') (L : V.Layout) (hm : V.mutator? m = some t)
    (hb : t.tlab.start ≤ b) (hlt : b < t.tlab.limit) :
    V'.memory.read b = V.memory.read b :=
  E.elsewhere (L.tlab_not_relocating hm hb hlt)

/-- A region that takes part in a cycle is none that is allocated from. -/
theorem Layout.not_current (L : V.Layout) {i : Nat} (h : (V.region i).state = .relocating) :
    V.mutatorRegion ≠ some i ∧ V.evacRegion ≠ some i :=
  ⟨fun hc => (L.mutatorRegion i hc).2 h, fun hc => (L.evacRegion i hc).2 h⟩

end HeapView

namespace Session

open HeapView

variable {s : Session} {W : World} {place : Place} {o : Options} {h : RegionHeap} {cs : List Command}

/-- The last step of a cycle, in its turn. -/
theorem Sound.ends_recycle_tlab (S : s.Sound W) (ha : s.Allows (.step .recycle)) :
    Ends (execute (.step .recycle)) s fun _ s' => ∀ m t b, s.heap.view.mutator? m = some t →
      t.tlab.start ≤ b → b < t.tlab.limit →
      s'.heap.view.memory.read b = s.heap.view.memory.read b := by
  have hst : s.stage = .updated := ha
  have I : (Mutator.withJoined s.heap 0).view.Inv W .updated [] := hst ▸ S.inv.setControl
  simp only [execute, advance, onHeap, ends_bind, ends_onPart, ends_modify, ends_pure]
  refine Mutator.ends_allParked S.joined ?_
  simp only [CycleStep.run, ends_bind, ends_pure]
  refine (RegionHeap.ends_recycle I S.loose (hst ▸ S.inStage) rfl).mono ?_
  rintro _ h' ⟨E, _⟩
  exact ⟨E.joined, E.pending S.pending, fun m t b hm hb hlt => E.tlab I.layout hm hb hlt⟩

/-- **A cycle never empties what is allocated in.**  After any program that is permitted, the count
of each region is the number of the mutators that have a buffer in it.  A region that takes part in
a cycle is not allocated from, and if it is relocated, it has no buffer.  So every command that is
allowed next ends, and the end of a cycle clears no memory of a buffer. -/
theorem buffers_exact (hb : AnyHeap.build place o = .ok (.ok (.region h)))
    (hp : Permitted execute Allows cs (start h)) :
    ∃ as s, Action.runAll execute cs (start h) = .ok as s ∧
      (∀ i, (s.heap.view.region i).activeTlabs = s.heap.view.tlabCount i) ∧
      (∀ i, (s.heap.view.region i).state = .marked ∨ (s.heap.view.region i).state = .relocating →
        s.heap.view.mutatorRegion ≠ some i ∧ s.heap.view.evacRegion ≠ some i) ∧
      (∀ i, (s.heap.view.region i).state = .relocating →
        (s.heap.view.region i).activeTlabs = 0) ∧
      ∀ c, s.Allows c → ∃ a s', execute c s = .ok a s' ∧ (c = .step .recycle →
        ∀ m t b, s.heap.view.mutator? m = some t → t.tlab.start ≤ b → b < t.tlab.limit →
          s'.heap.view.memory.read b = s.heap.view.memory.read b) := by
  obtain ⟨as, s, hrun, W, S, -⟩ := ends_program hb hp
  have L := S.inv.layout
  refine ⟨as, s, hrun, S.counted, fun i hi => L.not_current (hi.resolve_left ?_),
    fun i hi => (L.regions i).relocating hi, fun c ha => ?_⟩
  · exact (S.inv.faithful.states i).1
  · by_cases hc : c = .step .recycle
    · subst hc
      obtain ⟨a, s', he, hclear⟩ := S.ends_recycle_tlab ha
      exact ⟨a, s', he, fun _ => hclear⟩
    · obtain ⟨a, s', he, -⟩ := S.ends_execute ha
      exact ⟨a, s', he, fun h => absurd h hc⟩

/-- Before the end of a cycle in which one mutator has a buffer. -/
theorem buffers_exact_relocation :
    ∃ h, AnyHeap.build Place.first smallHeap = .ok (.ok (.region h)) ∧
      Permitted execute Allows relocation (start h) ∧
      ∃ as s, Action.runAll execute relocation (start h) = .ok as s ∧
        (∀ i, (s.heap.view.region i).activeTlabs = s.heap.view.tlabCount i) ∧
        (∀ i, (s.heap.view.region i).state = .marked ∨
          (s.heap.view.region i).state = .relocating →
          s.heap.view.mutatorRegion ≠ some i ∧ s.heap.view.evacRegion ≠ some i) ∧
        (∀ i, (s.heap.view.region i).state = .relocating →
          (s.heap.view.region i).activeTlabs = 0) ∧
        ∀ c, s.Allows c → ∃ a s', execute c s = .ok a s' ∧ (c = .step .recycle →
          ∀ m t b, s.heap.view.mutator? m = some t → t.tlab.start ≤ b → b < t.tlab.limit →
            s'.heap.view.memory.read b = s.heap.view.memory.read b) := by
  obtain ⟨h, hb, hp⟩ := permits_iff.1 (show permits Place.first smallHeap relocation = true by
    decide +kernel)
  exact ⟨h, hb, hp, buffers_exact hb hp⟩

end Session

end ManagedHeap
