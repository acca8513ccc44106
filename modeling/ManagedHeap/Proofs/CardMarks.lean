/-
# Card marks

The card barrier marks the region of a slot that was written.  Of what the heap does only two things
take a mark away: `takeDirty`, which gives the marked regions, and the recycling of a region, which
forgets its mark along with its objects (`Session.after_execute_marked`).

So a mark is not lost as long as its region is in use: after a store into an object the region of the
copy that the program may access is marked (`Mutator.ends_storeRef` and the like), and any commands
later it still is, unless it was emptied meanwhile (`Session.marks_kept`).  That region is where the
object is until it is moved.  An object that is moved does not take the mark along: its new region
need not be marked, and the old one is not any more when it was recycled (`Session.moved_unmarked`).
-/
import ManagedHeap.Proofs.Regions

namespace ManagedHeap

/-! ## 1. Marks of regions -/

namespace RegionSpace

variable {s : RegionSpace} {i j n : Nat} {kind : AllocKind} {α : Type} {act : Action Region α}

/-- The region with an index is committed, and marked as written. -/
def MarkedAt (s : RegionSpace) (i : Nat) : Prop := i < s.committed ∧ s.isDirtyAt i = true

instance : Decidable (s.MarkedAt i) := inferInstanceAs (Decidable (_ ∧ _))

theorem markedAt_putRegion {r : Region} (hi : i < s.maxRegions) :
    (s.putRegion i r).MarkedAt j ↔
      j < s.committed ∧ (if j = i then r.dirty else s.isDirtyAt j) = true := by
  rw [MarkedAt, committed_putRegion, isDirtyAt_putRegion hi]

/-- No mark is taken away. -/
def Marked (s s' : RegionSpace) : Prop := ∀ i, s.MarkedAt i → s'.MarkedAt i

instance : IsPreorder RegionSpace Marked where
  refl _ := fun _ h => h
  trans _ _ _ M M' := fun i h => M' i (M i h)

/-- An action on a region that does not clean it. -/
theorem marked_onRegion (h : Keeps (fun r r' : Region => r.dirty = true → r'.dirty = true) act) :
    Keeps Marked (onRegion i act) := by
  intro s
  refine after_onRegion fun hi => (h _).mono fun _ r hr j hj => ?_
  rw [markedAt_putRegion hi]
  refine ⟨hj.1, ?_⟩
  split
  · rename_i he
    subst he
    exact hr (dirty_getD.trans hj.2)
  · exact hj.2

/-- A change that is none of the regions. -/
theorem marked_modify {f : RegionSpace → RegionSpace}
    (h : ∀ s, (f s).changed = s.changed ∧ s.committed ≤ (f s).committed) : Keeps Marked (modify f) :=
  keeps_modify fun s i hi => by
    rw [MarkedAt, isDirtyAt, (h s).1]
    exact ⟨Nat.lt_of_lt_of_le hi.1 (h s).2, hi.2⟩

theorem marked_report {e : Event} : Keeps Marked (report e) :=
  marked_modify fun _ => ⟨rfl, Nat.le_refl _⟩

theorem marked_setCurrent : Keeps Marked (setCurrent kind i) :=
  marked_modify fun s => by cases kind <;> exact ⟨rfl, Nat.le_refl _⟩

theorem marked_commitNext : Keeps Marked commitNext := by
  refine keeps_get.bind fun s => Keeps.ite keeps_pure ?_
  refine Keeps.bind (keeps_onPart fun _ _ _ h => h) fun r => ?_
  cases r with
  | error e => exact marked_report.bind fun _ => keeps_pure
  | ok u =>
    refine Keeps.bind (marked_modify fun _ => ⟨rfl, Nat.le_succ _⟩) fun _ => ?_
    exact keeps_get.bind fun _ => marked_report.bind fun _ => keeps_pure

theorem marked_takeEmpty : Keeps Marked (takeEmpty kind) := by
  have hmake (i : Nat) : Keeps Marked (onRegion i Region.makeAllocating) := by
    refine marked_onRegion fun r => ?_
    unfold Region.makeAllocating
    rw [after_bind, after_modify]
    refine Region.after_move.mono ?_
    rintro _ _ ⟨-, rfl⟩
    exact id
  refine keeps_get.bind fun s => Keeps.ite (marked_report.bind fun _ => keeps_pure) ?_
  dsimp only
  cases s.firstEmpty?
  on_goal 1 => refine marked_commitNext.bind ?_
  on_goal 2 => refine keeps_pure.bind ?_
  all_goals
    rintro (_ | i)
    · exact keeps_pure
    · exact (hmake i).bind fun _ => keeps_pure

theorem marked_allocateInCurrent : Keeps Marked (allocateInCurrent n kind) := by
  have halloc (i : Nat) : Keeps Marked (onRegion i (Region.allocate n)) :=
    marked_onRegion (keeps_onPart fun _ _ h => h)
  have hcount (i : Nat) : Keeps Marked (onRegion i Region.tlabAllocated) :=
    marked_onRegion (keeps_modify fun _ h => h)
  refine keeps_get.bind fun s => ?_
  cases s.current kind with
  | none => exact keeps_pure
  | some i =>
    refine (halloc i).bind fun r => ?_
    cases r with
    | none => exact keeps_pure
    | some a =>
      have hused (m : Nat) : Keeps Marked (modify fun s => { s with used := s.used + m }) :=
        marked_modify fun _ => ⟨rfl, Nat.le_refl _⟩
      by_cases hk : kind = .tlab
      · simp only [hk, if_true]
        exact (hcount i).bind fun _ => (hused n).bind fun _ => keeps_pure
      · simp only [hk, if_false]
        exact (hused n).bind fun _ => keeps_pure

/-- **Allocation and what is done to regions in use take no mark away.** -/
theorem upholds_marked : Upholds Marked where
  reports _ _ := fun _ h => h
  region _ _ _ h := marked_onRegion fun r => (h r).mono fun _ _ hr => hr.dirty
  allocate n kind := by
    have hrounds (m : Nat) : Keeps Marked (allocateRounds n kind m) := by
      induction m with
      | zero => exact keeps_pure
      | succ m ih =>
        refine marked_allocateInCurrent.bind fun r => ?_
        cases r with
        | some a => exact keeps_pure
        | none =>
          refine marked_takeEmpty.bind fun r => ?_
          cases r with
          | none => exact keeps_pure
          | some i => exact marked_setCurrent.bind fun _ => ih
    exact keeps_get.bind fun _ => Keeps.ite (marked_report.bind fun _ => keeps_pure) (hrounds _)

/-- The regions that are marked or empty stay marked or empty. -/
def MarkedOrEmpty (s s' : RegionSpace) : Prop :=
  ∀ i, s.MarkedAt i ∨ s.stateAt i = .empty → s'.MarkedAt i ∨ s'.stateAt i = .empty

instance : IsPreorder RegionSpace MarkedOrEmpty where
  refl _ := fun _ h => h
  trans _ _ _ M M' := fun i h => M' i (M i h)

theorem settles_markedOrEmpty : Settles MarkedOrEmpty := by
  refine ⟨fun _ _ _ h => h, fun i {α act} h s => ?_⟩
  refine after_onRegion fun hi => (h _).mono fun _ r hr j hj => ?_
  rw [markedAt_putRegion hi, stateAt_putRegion hi]
  split
  · rename_i he
    subst he
    exact hj.imp (fun hj => ⟨hj.1, hr.dirty (dirty_getD.trans hj.2)⟩)
      fun hj => hr.empty.2 (state_getD.trans hj)
  · exact hj

/-- A region that is recycled loses its mark, and is empty. -/
theorem markedOrEmpty_recycle :
    Keeps (fun x y : RegionSpace × Memory => MarkedOrEmpty x.1 y.1) (recycle i) := by
  intro x
  refine after_recycled.mono ?_
  rintro _ ⟨_, m⟩ ⟨hi, r, n, hr, rfl⟩ j hj
  show (x.1.putRegion i r).MarkedAt j ∨ (x.1.putRegion i r).stateAt j = .empty
  rw [markedAt_putRegion hi, stateAt_putRegion hi]
  split
  · exact .inr hr.empty
  · exact hj

/-- One region is cleaned. -/
theorem ends_clean (hi : i < s.maxRegions) :
    Ends (onRegion i Region.takeDirty) s fun _ s' => s'.maxRegions = s.maxRegions ∧
      ∀ j, s'.isDirtyAt j = (s.isDirtyAt j && decide (j ≠ i)) := by
  refine ⟨_, _, onRegion_eq_ok.2 ⟨hi, _, rfl, rfl⟩, maxRegions_putRegion s i _, fun j => ?_⟩
  · rw [isDirtyAt_putRegion hi]
    by_cases hj : j = i <;> simp [hj]

/-- **The regions that are given are the marked ones**, and they are marked no more. -/
theorem ends_takeDirty (hmax : s.committed ≤ s.maxRegions) :
    Ends takeDirty s fun l s' => (∀ i, i ∈ l ↔ i < s.committed ∧ s.isDirtyAt i = true) ∧
      ∀ i < s.committed, s'.isDirtyAt i = false := by
  have hmem {i : Nat} : i ∈ (List.range s.committed).filter s.isDirtyAt ↔
      i < s.committed ∧ s.isDirtyAt i = true := by simp
  simp only [takeDirty, ends_bind, ends_get, ends_pure]
  refine (ends_each (fun done _ (s' : RegionSpace) => s'.maxRegions = s.maxRegions ∧
    ∀ j, s'.isDirtyAt j = (s.isDirtyAt j && decide (j ∉ done))) ⟨rfl, by simp⟩
    fun done i rest s' hsplit hinv => ?_).mono fun _ s' hinv => ⟨fun i => hmem, fun i hi => ?_⟩
  · have hi : i < s.committed := (hmem.1 (hsplit ▸ List.mem_append_right _ List.mem_cons_self)).1
    simp only [ends_bind, ends_pure]
    refine (ends_clean (hinv.1 ▸ Nat.lt_of_lt_of_le hi hmax)).mono ?_
    rintro _ s'' ⟨hm, hd⟩
    refine ⟨hm.trans hinv.1, fun j => ?_⟩
    rw [hd, hinv.2, Bool.and_assoc]
    congr 1
    simp
  · rw [hinv.2]
    by_cases hd : s.isDirtyAt i = true
    · simp [hmem.2 ⟨hi, hd⟩]
    · simp [hd]

end RegionSpace

/-! ## 2. Marks of a heap -/

namespace RegionHeap

/-- A step of a cycle takes no mark away but by emptying the region. -/
theorem after_step_marked {h : RegionHeap} {c : CycleStep} {i : Nat} (hi : h.space.MarkedAt i) :
    After c.run h fun _ h' =>
      h'.space.MarkedAt i ∨ (c = .recycle ∧ h'.space.stateAt i = .empty) := by
  have U := RegionSpace.upholds_marked
  have hkeep {α : Type} {act : Action RegionHeap α} (hact : Keeps (Regional RegionSpace.Marked) act) :
      After act h fun _ h' => h'.space.MarkedAt i ∨ (c = .recycle ∧ h'.space.stateAt i = .empty) :=
    (hact h).mono fun _ _ hM => .inl (hM.regions i hi)
  have hmove (i : Nat) : Keeps RegionSpace.Marked
      (RegionSpace.onRegion i (Region.transition .marked .relocating)) :=
    RegionSpace.marked_onRegion fun r => Region.after_move.mono fun _ _ h => by
      rw [h.2]
      exact id
  cases c with
  | initMark => exact hkeep U.keeps_initMark
  | concurrentMark => exact hkeep U.keeps_concurrentMark
  | finalMark => exact hkeep (U.keeps_finalMark (U.keeps_chooseRegions hmove))
  | evacuate => exact hkeep (U.keeps_evacuate.bind fun _ => keeps_pure)
  | updateRefs => exact hkeep (RegionSpace.Upholds.keeps_updateRefs.bind fun _ => keeps_pure)
  | recycle =>
    have hrecycle (i : Nat) : Keeps (Regional RegionSpace.MarkedOrEmpty)
        (onSpaceAndMemory (RegionSpace.recycle i)) :=
      RegionSpace.markedOrEmpty_recycle.onPart fun _ _ hM => ⟨hM, rfl, rfl, rfl⟩
    have hrun : Keeps (Regional RegionSpace.MarkedOrEmpty) (CycleStep.run .recycle) :=
      (RegionSpace.settles_markedOrEmpty.keeps_recycle hrecycle).bind fun _ => keeps_pure
    exact (hrun h).mono fun _ _ hM => (hM.regions i (.inl hi)).imp_right fun he => ⟨rfl, he⟩

/-- The region of the copy of an object that the program may access is marked. -/
def MarkedFor (h : RegionHeap) (v : Nat) : Prop :=
  h.space.MarkedAt (h.view.index (Object.resolve h.core.memory v))

end RegionHeap

/-! ## 3. Marks in a program -/

/-- The place of the object that an operation wrote references into. -/
def Operation.written : Operation → Answer → Option Nat
  | .storeRef _ src _ _, _ => some src
  | .casRef _ src _ _ _, .swap none => some src
  | .copyRefs _ _ _ dst _ len, _ => if len = 0 then none else some dst
  | _, _ => none

namespace HeapView

/-- An object that was written is in a marked region. -/
theorem Simulates.markedFor {V : HeapView} {W W' : World} {st : Stage} {ts : List MarkTask}
    {I : IdealHeap} {h : RegionHeap} {v : Nat} (S : V.Simulates W h.view W' st ts I)
    (hv : V.Refers W v) (hw : h.Wrote W' (W.name v)) (hon : h.core.options.cardBarrier = true) :
    h.MarkedFor v := by
  have F := S.inv.faithful
  have L := S.inv.layout
  obtain ⟨o, ho, hn, hc⟩ := hw
  obtain ⟨hm, hname⟩ := F.resolve_refers L (S.evolves.refers hv).1
  have he : Object.resolve h.core.memory v = o :=
    F.name_inj hm ho.1 ((hname.trans (S.evolves.name hv)).trans hn.symm)
  rw [RegionHeap.MarkedFor, he]
  exact ⟨(L.bounds (F.published ho.1)).committed, hc hon⟩

end HeapView

namespace Session

open HeapView Mutator

variable {s : Session} {W : World} {i k : Nat} {op : Operation} {o : Options}

/-- **What an operation writes into is marked.** -/
theorem Ready.ends_run_marked (S : s.Ready W) (ha : s.AllowsOperation op)
    (hon : s.heap.view.options.cardBarrier = true) :
    Ends (op.run s.reference) s.heap fun a h' =>
      ∀ k, op.written a = some k → h'.MarkedFor (s.reference k) := by
  have I := S.inv
  have hs := S.inStage
  -- Only three operations write references into objects.
  have hnone (h : ∀ a, op.written a = none) : Ends (op.run s.reference) s.heap fun a h' =>
      ∀ k, op.written a = some k → h'.MarkedFor (s.reference k) :=
    (S.ends_run ha).mono fun a _ _ k hk => by
      rw [h] at hk
      cases hk
  have hmark {W' : World} {h' : RegionHeap} {J : IdealHeap} {v : Nat}
      (hr : s.heap.view.Refers W v) (hS : s.heap.view.Simulates W h'.view W' s.stage [] J)
      (hw : h'.Wrote W' (W.name v)) : h'.MarkedFor v := by
    refine hS.markedFor hr hw ?_
    have ho : h'.view.options = s.heap.view.options := hS.evolves.toPersists.options
    exact (congrArg Options.cardBarrier ho).trans hon
  cases op with
  | storeRef m src i value =>
    obtain ⟨t, hm⟩ := S.mutator ha.1
    obtain ⟨hr, hi⟩ := S.field ha.2
    simp only [Operation.run, ends_bind, ends_pure]
    refine (ends_storeRef I hs hm hr hi (S.reference value)).mono ?_
    rintro _ _ ⟨W', hS, hw⟩ k hk
    cases hk
    exact hmark hr hS hw
  | casRef m src i expected new =>
    obtain ⟨t, hm⟩ := S.mutator ha.1
    obtain ⟨hr, hi⟩ := S.field ha.2
    simp only [Operation.run, ends_bind, ends_pure]
    refine (ends_casRef I hs hm hr hi (S.reference expected) (S.reference new)).mono ?_
    rintro out _ ⟨W', X, hw⟩ k hk
    cases hnone : out.witness? with
    | some w =>
      rw [hnone] at hk
      cases hk
    | none =>
      rw [hnone] at hk
      cases hk
      by_cases heq : W.ideal.field (W.name (s.reference src)) i =
          (s.ideal W).reference expected
      · exact hmark hr (X.swapped heq).2 (hw hnone)
      · obtain ⟨w, hsome, -⟩ := X.failed heq
        rw [hnone] at hsome
        cases hsome
  | copyRefs m src si dst di len =>
    by_cases hlen : len = 0
    · exact hnone fun _ => if_pos hlen
    · obtain ⟨t, hm⟩ := S.mutator ha.1
      obtain ⟨h1, h2⟩ := ha.2.resolve_left hlen
      obtain ⟨hr, hi⟩ := S.fields h1
      obtain ⟨hr', hi'⟩ := S.fields h2
      simp only [Operation.run, ends_bind, ends_pure]
      refine (ends_copyRefs I hs hm hlen hr hr' hi hi').mono ?_
      rintro _ _ ⟨W', hS, hw⟩ k hk
      cases (if_neg hlen).symm.trans hk
      exact hmark hr' hS hw
  | _ => exact hnone fun _ => rfl

/-- **A command takes no mark away**, but the step of a cycle that empties the region. -/
theorem after_execute_marked {c : Command} (hi : s.heap.space.MarkedAt i) :
    After (execute c) s fun _ s' => s'.heap.space.MarkedAt i ∨
      (c = .step .recycle ∧ s'.heap.space.stateAt i = .empty) := by
  cases c with
  | operation op =>
    simp only [execute, perform, onHeap, after_bind, after_get, after_onPart, after_modify,
      after_pure]
    exact (RegionSpace.upholds_marked.heap.keeps_run op s.heap).mono
      fun _ _ hM => .inl (hM.regions i hi)
  | step c =>
    simp only [execute, advance, onHeap, after_bind, after_onPart, after_modify, after_pure]
    refine (Mutator.after_allParked (p := fun _ x => x.MarkedAt i ∨
      (c = .recycle ∧ x.stateAt i = .empty)) fun g hg => ?_).mono fun _ _ hp =>
        hp.imp_right fun hp => ⟨congrArg _ hp.1, hp.2⟩
    exact RegionHeap.after_step_marked (hg ▸ hi)
  | cancel =>
    simp only [execute, RegionHeap.cancel, onHeap, RegionHeap.note, RegionHeap.noteAll, after_bind,
      after_onPart, after_get, after_ite, after_set, after_modify, after_pure]
    exact ⟨fun _ => .inl hi, fun _ => .inl hi⟩

/-- Some of the commands is the step of a cycle that empties the region with an index. -/
def EmptiedIn (s : Session) (i : Nat) (cs : List Command) : Prop :=
  ∃ ds es as s', cs = ds ++ .step .recycle :: es ∧
    Action.runAll execute (ds ++ [.step .recycle]) s = .ok as s' ∧ s'.heap.space.stateAt i = .empty

/-- **A mark stays as long as the region is not emptied.** -/
theorem after_runAll_marked {cs : List Command} (hi : s.heap.space.MarkedAt i) :
    After (Action.runAll execute cs) s fun _ s' => s'.heap.space.MarkedAt i ∨ s.EmptiedIn i cs := by
  induction cs generalizing s with
  | nil => exact after_pure.2 (.inl hi)
  | cons c rest ih =>
    intro as s' hrun
    obtain ⟨a, s₁, bs, hc, hrest, rfl⟩ := runAll_cons_eq_ok.1 hrun
    rcases after_execute_marked hi a s₁ hc with hM | ⟨rfl, he⟩
    · rcases ih hM bs s' hrest with hM' | ⟨ds, es, as', s₂, rfl, hds, he⟩
      · exact .inl hM'
      · exact .inr ⟨c :: ds, es, a :: as', s₂, rfl,
          runAll_cons_eq_ok.2 ⟨a, s₁, as', hc, hds, rfl⟩, he⟩
    · exact .inr ⟨[], rest, [a], s₁, rfl, runAll_cons_eq_ok.2 ⟨a, s₁, [], hc, rfl, rfl⟩, he⟩

section
variable {place : Place} {h : RegionHeap} {cs ds : List Command}

/-- **No mark of a region in use is lost.**  After an operation has written references into an object,
the region that the object is in then stays marked, and `takeDirty` gives it, whatever commands
follow, unless one of them empties the region. -/
theorem marks_kept (hb : AnyHeap.build place o = .ok (.ok (.region h))) (hon : o.cardBarrier = true)
    (hp : Permitted execute Allows (cs ++ .operation op :: ds) (start h)) :
    ∃ as s a s₁ bs s₂, Action.runAll execute cs (start h) = .ok as s ∧
      execute (.operation op) s = .ok a s₁ ∧ Action.runAll execute ds s₁ = .ok bs s₂ ∧
      ∀ k i, op.written a = some k →
        i = s₁.heap.view.index (Object.resolve s₁.heap.core.memory (s.reference k)) →
        ¬ s₁.EmptiedIn i ds →
        Ends (RegionHeap.onSpace RegionSpace.takeDirty) s₂.heap fun l _ => i ∈ l := by
  obtain ⟨hcs, hrest⟩ := hp.append
  have hstart : (start h).SoundWith o := ⟨⟨_, sound_start hb⟩, RegionHeap.options_of_build hb⟩
  have hrun {cs : List Command} {s : Session} (S : s.SoundWith o)
      (hp : Permitted execute Allows cs s) :
      Ends (Action.runAll execute cs) s fun _ s' => s'.SoundWith o :=
    ends_runAll_inv (fun _ _ S => S.ends_execute) S hp
  obtain ⟨as, s, has, S⟩ := hrun hstart hcs
  obtain ⟨ha, hds⟩ := hrest has
  obtain ⟨a, s₁, hop, S₁⟩ := S.ends_execute ha
  rw [hop] at hds
  obtain ⟨bs, s₂, hbs, S₂⟩ := hrun S₁ hds
  refine ⟨as, s, a, s₁, bs, s₂, has, hop, hbs, fun k i hk hi hne => ?_⟩
  obtain ⟨⟨W, S⟩, ho⟩ := S
  have hmarked : Ends (execute (.operation op)) s fun a s' =>
      ∀ k, op.written a = some k → s'.heap.MarkedFor (s.reference k) := by
    simp only [execute, perform, onHeap, ends_bind, ends_get, ends_onPart, ends_modify, ends_pure]
    refine (S.ends_run_marked ha ?_).mono fun _ _ h => h
    rw [ho]
    exact hon
  have hi : s₁.heap.space.MarkedAt i := hi ▸ hmarked.of_ok hop k hk
  have hkept := (after_runAll_marked hi bs s₂ hbs).resolve_right hne
  obtain ⟨⟨W₂, S₂⟩, -⟩ := S₂
  simp only [RegionHeap.onSpace, ends_onPart]
  exact (RegionSpace.ends_takeDirty S₂.inv.layout.geometry.committed_le).mono
    fun l _ hl => (hl.1 i).2 hkept

/-- The object is in a region that is moved and not emptied yet. -/
theorem marks_kept_relocation : ∃ h,
    AnyHeap.build Place.first smallHeap = .ok (.ok (.region h)) ∧ smallHeap.cardBarrier = true ∧
    Permitted execute Allows
      (relocation.take 7 ++ .operation (.storeRef 0 1 0 2) :: relocation.drop 8) (start h) ∧
    ∃ as s a s₁ bs s₂, Action.runAll execute (relocation.take 7) (start h) = .ok as s ∧
      execute (.operation (.storeRef 0 1 0 2)) s = .ok a s₁ ∧
      Action.runAll execute (relocation.drop 8) s₁ = .ok bs s₂ ∧
      ∀ k i, (Operation.storeRef 0 1 0 2).written a = some k →
        i = s₁.heap.view.index (Object.resolve s₁.heap.core.memory (s.reference k)) →
        ¬ s₁.EmptiedIn i (relocation.drop 8) →
        Ends (RegionHeap.onSpace RegionSpace.takeDirty) s₂.heap fun l _ => i ∈ l := by
  obtain ⟨h, hb, hp⟩ := permits_iff.1 (show permits Place.first smallHeap
    (relocation.take 7 ++ .operation (.storeRef 0 1 0 2) :: relocation.drop 8) = true by
      decide +kernel)
  exact ⟨h, hb, rfl, hp, marks_kept hb rfl hp⟩

end

/-- A root refers to an object in a region that is full of garbage otherwise. -/
def rooted : List Command := [
  .operation .create, .operation (.alloc 0 0 3000), .operation (.alloc 0 2 800),
  .operation (.newRoot 1)]

/-- A cycle, but for its last step. -/
def unfinishedCycle : List Command := [
  .operation (.alloc 0 0 3000), .step .initMark, .step .concurrentMark, .step .finalMark,
  .step .evacuate, .step .updateRefs]

/-- The program writes into the object of the root, and a cycle moves the object. -/
def movedAfterStore : List Command :=
  rooted ++ .operation (.storeRef 0 1 0 1) :: (unfinishedCycle ++ [.step .recycle])

instance (h : RegionHeap) (v : Nat) : Decidable (h.MarkedFor v) :=
  inferInstanceAs (Decidable (RegionSpace.MarkedAt _ _))

/-- Whether the object of the root is marked after the store into it, and its copy is not when
references were updated; and whether nothing is marked after the cycle. -/
def losesMark (h : RegionHeap) : Bool :=
  match Action.runAll execute rooted (start h) with
  | .error _ _ => false
  | .ok _ s =>
    match execute (.operation (.storeRef 0 1 0 1)) s with
    | .error _ _ => false
    | .ok _ s₁ =>
      match Action.runAll execute unfinishedCycle s₁ with
      | .error _ _ => false
      | .ok _ s₂ =>
        match execute (.step .recycle) s₂ with
        | .error _ _ => false
        | .ok _ s₃ =>
          match RegionHeap.onSpace RegionSpace.takeDirty s₃.heap with
          | .error _ _ => false
          | .ok l _ =>
            decide (s.reference 1 = s₁.heap.core.memory.read rootBase) &&
            decide (s₁.heap.MarkedFor (s₁.heap.core.memory.read rootBase)) &&
            decide (s₂.heap.core.memory.read rootBase ≠ null) &&
            decide (¬ s₂.heap.MarkedFor (s₂.heap.core.memory.read rootBase)) && l.isEmpty

/-- **An object that is moved does not take its mark along.**  The object of a root is written, and
its region is marked.  When a cycle has updated references, the root refers to the copy, whose region
is not marked; and when the cycle is over, no region is. -/
theorem moved_unmarked : ∃ h, AnyHeap.build Place.first smallHeap = .ok (.ok (.region h)) ∧
    smallHeap.cardBarrier = true ∧ Permitted execute Allows movedAfterStore (start h) ∧
    ∃ as s a s₁ bs s₂ b s₃ h', Action.runAll execute rooted (start h) = .ok as s ∧
      execute (.operation (.storeRef 0 1 0 1)) s = .ok a s₁ ∧
      s.reference 1 = s₁.heap.core.memory.read rootBase ∧
      s₁.heap.MarkedFor (s₁.heap.core.memory.read rootBase) ∧
      Action.runAll execute unfinishedCycle s₁ = .ok bs s₂ ∧
      s₂.heap.core.memory.read rootBase ≠ null ∧
      ¬ s₂.heap.MarkedFor (s₂.heap.core.memory.read rootBase) ∧
      execute (.step .recycle) s₂ = .ok b s₃ ∧
      RegionHeap.onSpace RegionSpace.takeDirty s₃.heap = .ok [] h' := by
  obtain ⟨h, hb, hd⟩ := builds_iff.1 (show builds Place.first smallHeap (fun h =>
    decide (Permitted execute Allows movedAfterStore (start h)) && losesMark h) = true by
      decide +kernel)
  rw [Bool.and_eq_true, decide_eq_true_eq] at hd
  obtain ⟨hp, hd⟩ := hd
  unfold losesMark at hd
  split at hd
  · cases hd
  rename_i as s hs
  split at hd
  · cases hd
  rename_i a s₁ hs₁
  split at hd
  · cases hd
  rename_i bs s₂ hs₂
  split at hd
  · cases hd
  rename_i b s₃ hs₃
  split at hd
  · cases hd
  rename_i l h' hl
  simp only [Bool.and_eq_true, decide_eq_true_eq, List.isEmpty_iff] at hd
  obtain ⟨⟨⟨⟨h1, h2⟩, h3⟩, h4⟩, rfl⟩ := hd
  exact ⟨h, hb, rfl, hp, as, s, a, s₁, bs, s₂, b, s₃, h', hs, hs₁, h1, h2, hs₂, h3, h4, hs₃, hl⟩

end Session

end ManagedHeap
