/-
# A cycle that was cancelled leaves no trace

A cycle may be asked to stop as long as it marks, also while workers are in the middle of their
work.  Its second or third step takes note of that and drops what was marked.  From there on the
heap is the one that the mutators alone would have made: words, roots, objects and regions are the
same, allocation gives the same, and the next cycle marks the same objects as live.

The proof follows two sessions at once, the one whose collector marks and one in which the mutators
do the same alone (`Session.Beside`).  An operation leads from two such sessions to two such
sessions, since a heap looks the same to mutators but for marks; a step of the collector changes
nothing but marks.  That the next cycle marks the same follows from the exactness of marking: what
counts as live is said there by words, roots and new objects, and these are the same.

* Section 1: the steps of a collector that marks.
* Section 2: steps of a cycle, with all mutators outside of the safepoint.
* Section 3: operations and steps of the collector, in any order.
* Section 4: two sessions beside each other.
* Section 5: the end of a cycle that was cancelled.
* Section 6: the next cycle.
* Section 7: no trace is left.
-/
import ManagedHeap.Proofs.ExactMarking
import ManagedHeap.Proofs.Footprint

namespace ManagedHeap

open Relation

/-! ## 1. The collector -/

/-- A step of a collector that marks with `n` workers: one of them goes on, or the cycle is asked to
stop, and will. -/
inductive CollectorStep {n : Nat} : RegionHeap × Crew n → RegionHeap × Crew n → Prop where
  | worker {x y : RegionHeap × Crew n} : CrewStep x y → CollectorStep x y
  | cancel {h h' : RegionHeap} {c : Crew n} :
    RegionHeap.cancel h = .ok true h' → CollectorStep (h, c) (h', c)

section
variable {h h' : RegionHeap} {W : World} {n : Nat} {c c' : Crew n} {x y : RegionHeap × Crew n}

/-- A request that is accepted sets a flag. -/
theorem RegionHeap.view_of_cancel (hrun : RegionHeap.cancel h = .ok true h') :
    h'.view = { h.view with cancelRequested := true } := by
  have hafter : After RegionHeap.cancel h fun b h' =>
      b = true → h'.view = { h.view with cancelRequested := true } := by
    simp only [RegionHeap.cancel, RegionHeap.note, RegionHeap.noteAll, after_bind, after_get,
      after_ite, after_set, after_modify, after_pure]
    exact ⟨fun _ _ => rfl, fun _ hb => by cases hb⟩
  exact hafter true h' hrun rfl

/-- A request leaves the mark queue alone. -/
theorem RegionHeap.queue_of_cancel {b : Bool} (hrun : RegionHeap.cancel h = .ok b h') :
    h'.queue = h.queue := by
  have hafter : After RegionHeap.cancel h fun _ h' => h'.queue = h.queue := by
    simp only [RegionHeap.cancel, RegionHeap.note, RegionHeap.noteAll, after_bind, after_get,
      after_ite, after_set, after_modify, after_pure]
    exact ⟨fun _ => trivial, fun _ => trivial⟩
  exact hafter b h' hrun

/-- A cycle that marks can be asked to stop. -/
theorem RegionHeap.exists_cancel (hp : h.phase = .concurrentMark) :
    ∃ h', RegionHeap.cancel h = .ok true h' := by
  have hends : Ends RegionHeap.cancel h fun b _ => b = true := by
    simp only [RegionHeap.cancel, RegionHeap.note, RegionHeap.noteAll, ends_bind, ends_get, hp,
      if_true, ends_set, ends_modify, ends_pure]
  obtain ⟨_, h', hrun, rfl⟩ := hends
  exact ⟨h', hrun⟩

theorem CrewStep.notes (K : CrewStep (h, c) (h', c')) : h.Notes h' := by
  cases K with
  | step k K => exact K.notes

/-- **The collector changes nothing but marks** while it marks. -/
theorem CollectorStep.spares (K : CollectorStep (h, c) (h', c')) : h.Spares h' := by
  cases K with
  | worker K => exact K.notes.toSpares
  | cancel hrun => exact RegionHeap.spares_cancel h _ h' hrun

/-- **A step of the collector** keeps the invariant of marking. -/
theorem CollectorStep.inv (K : CollectorStep (h, c) (h', c')) (I : h.view.Inv W .marking c.tasks) :
    h'.view.Inv W .marking c'.tasks ∧ h'.view.joined = h.view.joined := by
  cases K with
  | worker K =>
    obtain ⟨I', M⟩ := K.inv I
    exact ⟨I', by rw [M.frame]⟩
  | cancel hrun =>
    rw [RegionHeap.view_of_cancel hrun]
    exact ⟨I.setControl, rfl⟩

theorem CollectorStep.of_crew (K : ReflTransGen CrewStep x y) : ReflTransGen CollectorStep x y :=
  K.lift id fun _ _ => .worker

/-- Any number of steps of the collector. -/
theorem CollectorStep.steps (K : ReflTransGen CollectorStep (h, c) (h', c'))
    (I : h.view.Inv W .marking c.tasks) :
    h.Spares h' ∧ h'.view.Inv W .marking c'.tasks ∧ h'.view.joined = h.view.joined := by
  obtain ⟨x, hx⟩ : ∃ x, x = (h', c') := ⟨_, rfl⟩
  rw [← hx] at K
  induction K generalizing h' c' with
  | refl =>
    cases hx
    exact ⟨refl_of RegionHeap.Spares h, I, rfl⟩
  | @tail y z _ hstep ih =>
    subst hx
    obtain ⟨h₁, c₁⟩ := y
    obtain ⟨S₁, I₁, hj₁⟩ := ih rfl
    obtain ⟨I₂, hj₂⟩ := hstep.inv I₁
    exact ⟨trans_of RegionHeap.Spares S₁ hstep.spares, I₂, hj₂.trans hj₁⟩

end

/-! ## 2. The steps of a cycle -/

namespace RegionHeap

/-- What is done with all mutators outside of the safepoint. -/
theorem spares_allParked {α : Type} {act : Action RegionHeap α} (hact : Keeps Spares act) :
    Keeps Spares (Mutator.allParked act) := by
  have hleave : Keeps Spares (Heap.onSafepoint Safepoint.leave : Action RegionHeap Unit) :=
    fun h => (notes_leave h).mono fun _ _ N => N.toSpares
  have hjoin : Keeps Spares (Heap.onSafepoint Safepoint.join : Action RegionHeap Unit) :=
    fun h => (notes_join h).mono fun _ _ N => N.toSpares
  refine keeps_get.bind fun h => (keeps_upTo fun _ => hleave).bind fun _ => hact.bind fun _ => ?_
  exact (keeps_upTo fun _ => hjoin).bind fun _ => keeps_pure

/-- With no mutator joined, the heap is the same. -/
theorem Abandoned.withJoined {h h' : RegionHeap} {m n : Nat}
    (A : (Mutator.withJoined h m).Abandoned h') : h.Abandoned (Mutator.withJoined h' n) :=
  { A with toSameButMarks := { A.toSameButMarks with } }

end RegionHeap

namespace Session

open HeapView

section
variable {s s' : Session} {W : World} {ts : List MarkTask} {c : CycleStep} {b : Bool}
  {act : Action RegionHeap Bool}

/-- A step of a cycle, of which the heap's part is `act`. -/
def stepBy (c : CycleStep) (act : Action RegionHeap Bool) : Action Session Bool := do
  let goesOn ← onHeap (Mutator.allParked act)
  modify (·.enter c goesOn)
  return goesOn

theorem advance_eq : advance c = stepBy c c.run := rfl

theorem finalMarkBy_eq : finalMarkBy act = stepBy .finalMark (RegionHeap.finalMarkBy act) := rfl

/-- A step of a cycle that came to its end. -/
theorem stepBy_spares (hact : Keeps RegionHeap.Spares act) (hrun : stepBy c act s = .ok b s') :
    ∃ h', s' = ({ s with heap := h' }).enter c b ∧ s.heap.Spares h' := by
  have hafter : After (stepBy c act) s fun b s' =>
      ∃ h', s' = ({ s with heap := h' }).enter c b ∧ s.heap.Spares h' := by
    simp only [stepBy, onHeap, after_bind, after_onPart, after_modify, after_pure]
    exact (RegionHeap.spares_allParked hact s.heap).mono fun _ h' S => ⟨h', rfl, S⟩
  exact hafter b s' hrun

end

/-! ## 3. While a cycle marks -/

/-- What happens while a cycle marks: the operations and their answers, and steps of a collector with
`n` workers among them, in any order. -/
inductive Underway {n : Nat} (s : Session) (c : Crew n) :
    List Operation → List Answer → Session → Crew n → Prop where
  | refl : Underway s c [] [] s c
  | operation {ops : List Operation} {as : List Answer} {s₁ s' : Session} {c₁ : Crew n}
      {op : Operation} {a : Answer} : Underway s c ops as s₁ c₁ → s₁.AllowsOperation op →
    perform op s₁ = .ok a s' → Underway s c (ops ++ [op]) (as ++ [a]) s' c₁
  | collector {ops : List Operation} {as : List Answer} {s₁ : Session} {h' : RegionHeap}
      {c₁ c' : Crew n} : Underway s c ops as s₁ c₁ → CollectorStep (s₁.heap, c₁) (h', c') →
    Underway s c ops as { s₁ with heap := h' } c'

section
variable {s s₁ s' : Session} {W : World} {op : Operation} {a : Answer} {ops : List Operation}
  {as : List Answer} {h' : RegionHeap} {n : Nat} {c c₁ c' : Crew n}

/-- An operation is run on the heap, and what it gives is noted. -/
theorem run_of_perform (hrun : perform op s = .ok a s') :
    ∃ h', op.run s.reference s.heap = .ok a h' ∧ s' = ({ s with heap := h' }).record op a := by
  obtain ⟨_, _, hget, hrun⟩ := bind_eq_ok.1 hrun
  cases hget
  obtain ⟨_, _, hact, hrun⟩ := bind_eq_ok.1 hrun
  obtain ⟨h', hop, rfl⟩ := onPart_eq_ok.1 hact
  obtain ⟨_, _, hset, hrun⟩ := bind_eq_ok.1 hrun
  cases hset
  cases hrun
  exact ⟨h', hop, rfl⟩

/-- Operations leave the cycle where it is. -/
theorem perform_framed (hrun : perform op s = .ok a s') :
    s.heap.Framed s'.heap ∧ s'.stage = s.stage := by
  obtain ⟨h', hop, rfl⟩ := run_of_perform hrun
  exact ⟨(op.keeps_calm s.heap a h' hop).toFramed, rfl⟩

/-- Many steps of the collector. -/
theorem Underway.collectors (U : Underway s c ops as s₁ c₁)
    (K : ReflTransGen CollectorStep (s₁.heap, c₁) (h', c')) :
    Underway s c ops as { s₁ with heap := h' } c' := by
  obtain ⟨y, hy⟩ : ∃ y, y = (h', c') := ⟨_, rfl⟩
  rw [← hy] at K
  induction K generalizing h' c' with
  | refl =>
    cases hy
    exact U
  | @tail y z _ hstep ih =>
    subst hy
    obtain ⟨h₁, c₁⟩ := y
    exact (ih rfl).collector hstep

/-- No cycle ends meanwhile. -/
theorem Underway.counts (U : Underway s c ops as s' c') :
    s'.heap.cycleStats.completed = s.heap.cycleStats.completed ∧
      s'.heap.cycleStats.cancelled = s.heap.cycleStats.cancelled := by
  induction U with
  | refl => exact ⟨rfl, rfl⟩
  | operation _ _ hrun ih =>
    have F := (perform_framed hrun).1
    exact ⟨F.completed.trans ih.1, F.cancelled.trans ih.2⟩
  | collector _ K ih =>
    have hstats := K.spares.cycleStats
    obtain ⟨h1, h2⟩ := ih
    exact ⟨by rw [← h1, ← hstats], by rw [← h2, ← hstats]⟩

/-- A request to cancel is not forgotten meanwhile: **if there is none in the end, marking took its
course.** -/
theorem Marking.underway {V : HeapView} (T : s.Marking V W c.tasks)
    (U : Underway s c ops as s' c') (hc : s'.heap.cancelRequested = false) :
    ∃ W', s'.Marking V W' c'.tasks := by
  induction U with
  | refl => exact ⟨W, T⟩
  | operation _ ha hrun ih =>
    obtain ⟨W₁, T₁⟩ := ih ((perform_framed hrun).1.cancelRequested.symm.trans hc)
    exact T₁.operation ha hrun
  | collector _ K ih =>
    cases K with
    | worker K =>
      obtain ⟨W₁, T₁⟩ := ih (K.notes.cancelRequested.symm.trans hc)
      exact ⟨W₁, T₁.worker K⟩
    | cancel hrun =>
      have hset : _ = true := congrArg HeapView.cancelRequested (RegionHeap.view_of_cancel hrun)
      cases hset.symm.trans hc

end

/-! ## 4. Two sessions beside each other -/

/-- The session is in order, and its objects stay in place. -/
structure InPlace (s : Session) (ts : List MarkTask) : Prop where
  sound : ∃ W, s.Sound W ts
  stage : s.stage = .idle ∨ s.stage = .marking

/-- Two programs that have the same, on heaps that are the same but for marks. -/
structure Beside (s : Session) (ts : List MarkTask) (t : Session) (us : List MarkTask) : Prop where
  left : s.InPlace ts
  right : t.InPlace us
  heap : s.heap.SameButMarks t.heap
  held : t.held = s.held
  handles : t.handles = s.handles
  mutators : t.mutators = s.mutators
  young : t.young = s.young

/-- The mutators did the operations alone, without a step of the collector. -/
structure Alone (s : Session) (ops : List Operation) (as : List Answer) (s' : Session) : Prop where
  run : Action.runAll perform ops s = .ok as s'
  underway : ∀ {n : Nat} (c : Crew n), Underway s c ops as s' c
  framed : s.heap.Framed s'.heap
  stage : s'.stage = s.stage

section
variable {s s' t t₁ t' : Session} {ts us : List MarkTask} {op : Operation} {a : Answer}
  {ops : List Operation} {as : List Answer} {h' : RegionHeap} {n : Nat} {c c' : Crew n}

theorem Alone.refl : t.Alone [] [] t :=
  ⟨rfl, fun _ => .refl, refl_of RegionHeap.Framed t.heap, rfl⟩

theorem Alone.operation (A : t.Alone ops as t₁) (ha : t₁.AllowsOperation op)
    (hrun : Session.perform op t₁ = .ok a t') : t.Alone (ops ++ [op]) (as ++ [a]) t' where
  run := runAll_snoc A.run hrun
  underway c := (A.underway c).operation ha hrun
  framed := trans_of RegionHeap.Framed A.framed (perform_framed hrun).1
  stage := (perform_framed hrun).2.trans A.stage

theorem InPlace.perform (O : s.InPlace ts) (ha : s.AllowsOperation op) :
    Ends (perform op) s fun _ s' => s'.InPlace ts := by
  obtain ⟨W, S⟩ := O.sound
  refine (S.ends_perform ha).mono ?_
  rintro a s' ⟨h', W', b, I, rfl, -, P⟩
  exact ⟨⟨W', (S.record P).1⟩, O.stage⟩

theorem InPlace.hasForwarded (O : s.InPlace ts) : s.heap.gcState.hasForwarded = false := by
  obtain ⟨W, S⟩ := O.sound
  have hflags : s.heap.gcState = s.stage.flags := S.inStage.1
  rcases O.stage with hst | hst
  · rw [hflags, hst]
    rfl
  · rw [hflags, hst]
    rfl

theorem InPlace.phase (O : s.InPlace ts) (hst : s.stage = .marking) :
    s.heap.phase = .concurrentMark :=
  O.sound.elim fun _ S => S.inStage.2.trans (congrArg Stage.phase hst)

theorem InPlace.pending (O : s.InPlace ts) : s.heap.safepoint.pending = false :=
  O.sound.elim fun _ S => S.pending

/-- A step of the collector. -/
theorem InPlace.collector (O : s.InPlace c.tasks) (hst : s.stage = .marking)
    (K : CollectorStep (s.heap, c) (h', c')) :
    ({ s with heap := h' } : Session).InPlace c'.tasks := by
  obtain ⟨W, S⟩ := O.sound
  refine ⟨⟨W, ?_⟩, O.stage⟩
  cases K with
  | worker K =>
    obtain ⟨I', M⟩ := K.inv (hst ▸ S.inv)
    exact S.marks M (hst.symm ▸ I')
  | cancel hrun =>
    have hcancel : onHeap RegionHeap.cancel s = .ok true { s with heap := h' } :=
      onPart_eq_ok.2 ⟨h', hrun, rfl⟩
    exact (S.ends_cancel.of_ok hcancel).1

namespace Beside

theorem level (B : Beside s ts t us) : s.heap.Level t.heap :=
  { B.heap with
    hasForwarded := B.left.hasForwarded
    hasForwarded' := B.right.hasForwarded
    pending := B.left.pending
    pending' := B.right.pending }

protected theorem refl (O : s.InPlace ts) : Beside s ts s ts :=
  ⟨O, O, refl_of RegionHeap.SameButMarks s.heap, rfl, rfl, rfl, rfl⟩

theorem symm (B : Beside s ts t us) : Beside t us s ts :=
  ⟨B.right, B.left, B.heap.symm, B.held.symm, B.handles.symm, B.mutators.symm, B.young.symm⟩

theorem reference (B : Beside s ts t us) : t.reference = s.reference := by
  funext k
  rw [Session.reference, Session.reference, B.held]

/-- Both programs may do the same. -/
theorem allows (B : Beside s ts t us) (ha : s.AllowsOperation op) : t.AllowsOperation op := by
  have hobject (k : Nat) : t.object k = s.object k := by
    rw [object, object, B.reference, B.heap.memory]
  have hobj (k : Nat) : t.IsObject k = s.IsObject k := by rw [IsObject, IsObject, B.reference]
  have hfields (k i len : Nat) : t.HasFields k i len = s.HasFields k i len := by
    rw [HasFields, HasFields, hobj, hobject, B.heap.memory]
  have hword (k offset : Nat) : t.HasWord k offset = s.HasWord k offset := by
    rw [HasWord, HasWord, hobj, hobject, B.heap.memory]
  have hall : t.AllowsOperation op = s.AllowsOperation op := by
    cases op <;> simp only [AllowsOperation, hobj, hfields, hword, B.mutators, B.handles]
  rwa [hall]

/-- **An operation gives the same on both**, and leaves them beside each other. -/
theorem perform (B : Beside s ts t us) (ha : s.AllowsOperation op)
    (hrun : Session.perform op s = .ok a s') :
    ∃ t', Session.perform op t = .ok a t' ∧ Beside s' ts t' us := by
  obtain ⟨a', t', hrun', O'⟩ := B.right.perform (B.allows ha)
  have O := (B.left.perform ha).of_ok hrun
  obtain ⟨h', hop, rfl⟩ := run_of_perform hrun
  obtain ⟨k', hop', rfl⟩ := run_of_perform hrun'
  rw [B.reference] at hop'
  obtain ⟨rfl, L⟩ := RegionHeap.accords_level.agrees_run op B.level hop hop'
  refine ⟨_, hrun', O, O', L.toSameButMarks, ?_, ?_, ?_, ?_⟩
  · simp only [record, B.held]
  · simp only [record, handlesAfter, B.handles]
  · simp only [record, mutatorsAfter, B.mutators]
  · simp only [record, B.young]

/-- **Operations that are permitted** give the same on both. -/
theorem alone (B : Beside s ts t us) (hp : Permitted Session.perform AllowsOperation ops s) :
    ∃ as s' t', s.Alone ops as s' ∧ t.Alone ops as t' ∧ Beside s' ts t' us := by
  induction ops using List.reverseRecOn with
  | nil => exact ⟨[], s, t, .refl, .refl, B⟩
  | append_singleton ops op ih =>
    obtain ⟨hp, hlast⟩ := hp.snoc
    obtain ⟨as, s₁, t₁, A, A', B₁⟩ := ih hp
    have ha : s₁.AllowsOperation op := hlast A.run
    obtain ⟨a, s', hrun, -⟩ := B₁.left.perform ha
    obtain ⟨t', hrun', B'⟩ := B₁.perform ha hrun
    exact ⟨as ++ [a], s', t', A.operation ha hrun, A'.operation (B₁.allows ha) hrun', B'⟩

/-- **The mutators could have done the same alone**, on the other session. -/
theorem underway (B : Beside s c.tasks t us) (hst : s.stage = .marking)
    (U : Underway s c ops as s' c') :
    s'.stage = .marking ∧ ∃ t', t.Alone ops as t' ∧ Beside s' c'.tasks t' us := by
  induction U with
  | refl => exact ⟨hst, t, .refl, B⟩
  | operation _ ha hrun ih =>
    obtain ⟨hst₁, t₁, A, B₁⟩ := ih
    obtain ⟨t', hrun', B'⟩ := B₁.perform ha hrun
    exact ⟨(perform_framed hrun).2.trans hst₁, t', A.operation (B₁.allows ha) hrun', B'⟩
  | collector _ K ih =>
    obtain ⟨hst₁, t₁, A, B₁⟩ := ih
    refine ⟨hst₁, t₁, A, { B₁ with left := B₁.left.collector hst₁ K, heap := ?_ }⟩
    exact trans_of RegionHeap.SameButMarks K.spares.toSameButMarks.symm B₁.heap

end Beside

end

/-! ## 5. The end of a cycle that was cancelled -/

/-- A step of a session that marks which takes note of a request to cancel.  It is the second step of
the cycle, or the third, whoever does the rest of the marking, and may be asked to stop meanwhile. -/
inductive LastStep (s : Session) : Action Session Bool → Prop where
  | concurrentMark : s.heap.cancelRequested = true → LastStep s (advance .concurrentMark)
  | finalMark {n : Nat} {mark : Action RegionHeap Bool} :
    Ends mark (Mutator.withJoined s.heap 0).flushed (fun _ h' =>
      ReflTransGen CollectorStep ((Mutator.withJoined s.heap 0).flushed, (Crew.idle : Crew n))
        (h', Crew.idle) ∧ h'.cancelRequested = true) →
    LastStep s (finalMarkBy mark)

section
variable {s s' : Session} {W : World} {c : CycleStep} {act : Action RegionHeap Bool}
  {last : Action Session Bool}

/-- A step that comes to nothing. -/
theorem Sound.ends_halted (S : s.Sound W) (hc : c ≠ .initMark)
    (hact : Ends act (Mutator.withJoined s.heap 0) fun b h' =>
      b = false ∧ (Mutator.withJoined s.heap 0).Halted W h') :
    Ends (stepBy c act) s fun b s' => b = false ∧ s.heap.Abandoned s'.heap ∧
      s' = { s with heap := s'.heap, stage := .idle, held := [] } ∧ s'.Sound W := by
  simp only [stepBy, onHeap, ends_bind, ends_onPart, ends_modify, ends_pure]
  refine Mutator.ends_allParked S.joined (hact.mono ?_)
  rintro b h' ⟨rfl, H⟩
  have hnext : c.next false = .idle := by cases c <;> rfl
  have A : (Mutator.withJoined s.heap 0).view.Advanced W h'.view W (c.next false) := by
    rw [hnext]
    exact { H.steady rfl with
      inv := H.inv, inStage := ⟨H.gcState, H.phase⟩, ideal := rfl, loose := rfl
      space := .inl H.grants }
  have A' := Advanced.setJoined (V := s.heap.view) A
  have henter (k : RegionHeap) : ({ s with heap := k } : Session).enter c false =
      { s with heap := k, stage := .idle, held := [] } := by
    rw [Session.enter, hnext, if_neg hc]
  exact ⟨H.joined, H.pending, rfl, H.toAbandoned.withJoined, henter _, (S.enter A').1⟩

/-- The third step as the code takes it. -/
theorem Sound.lastStep (S : s.Sound W) (hst : s.stage = .marking)
    (hc : s.heap.cancelRequested = true) : LastStep s (advance .finalMark) := by
  refine .finalMark (n := 1) ((RegionHeap.ends_drain_drains (S.flushed hst)).mono ?_)
  rintro _ h' hd
  obtain ⟨K, -⟩ := hd.resolve_left Bool.false_ne_true
  have hframe := (CrewStep.inv_steps K (by rw [Crew.tasks_idle]; exact S.flushed hst)).2.frame
  refine ⟨CollectorStep.of_crew K, ?_⟩
  have hkept : h'.view.cancelRequested = s.heap.cancelRequested := by
    rw [hframe]
    rfl
  exact hkept.trans hc

/-- **The last step of a cycle that was cancelled.** -/
theorem LastStep.ends (L : LastStep s last) (S : s.Sound W) (hst : s.stage = .marking) :
    Ends last s fun b s' => b = false ∧ s.heap.Abandoned s'.heap ∧
      s' = { s with heap := s'.heap, stage := .idle, held := [] } ∧ s'.Sound W := by
  have I : (Mutator.withJoined s.heap 0).view.Inv W .marking [] := hst ▸ S.inv.setControl
  have hphase : s.heap.phase = .concurrentMark := S.inStage.2.trans (congrArg Stage.phase hst)
  cases L with
  | concurrentMark hc =>
    rw [advance_eq]
    exact S.ends_halted (by decide) (RegionHeap.ends_concurrentMark_halted I hphase hc rfl)
  | finalMark hmark =>
    rw [finalMarkBy_eq]
    refine S.ends_halted (by decide) (RegionHeap.ends_finalMarkBy_halted hphase rfl
      (hmark.mono ?_))
    rintro _ h' ⟨K, hc⟩
    have I₁ := S.flushed hst
    obtain ⟨Sp, I', hj⟩ := CollectorStep.steps K (by rwa [Crew.tasks_idle])
    rw [Crew.tasks_idle] at I'
    exact ⟨Sp, I', hj, hc⟩

end

/-! ## 6. The next cycle -/

/-- Marking comes to its end in `s'` without being cancelled, while the mutators do the operations. -/
def MarksTo (s : Session) (ops : List Operation) (as : List Answer) (s' : Session) : Prop :=
  ∃ (n k : Nat) (s₁ : Session) (mark : Action RegionHeap Bool) (goesOn : Bool),
    Underway s (Crew.idle : Crew n) ops as s₁ Crew.idle ∧
    s₁.heap.cancelRequested = false ∧
    Ends mark (Mutator.withJoined s₁.heap 0).flushed (fun _ h' =>
      Drains k (Mutator.withJoined s₁.heap 0).flushed h') ∧
    finalMarkBy mark s₁ = .ok goesOn s'

/-- The same objects are published, and count as live. -/
structure MarkedAlike (s t : Session) : Prop where
  published : ∀ x, t.heap.view.Published x ↔ s.heap.view.Published x
  live : ∀ x, s.heap.view.Published x → ∃ b,
    (s.heap.regionAt (s.heap.view.index x)).isLive x = .ok b ∧
      (t.heap.regionAt (t.heap.view.index x)).isLive x = .ok b

/-- Whatever the mutators do while two sessions mark, they are given the same, marking can come to its
end on both, and the same is marked then. -/
structure MarksAlike (s t : Session) : Prop where
  ends : ∀ ops, Permitted perform AllowsOperation ops s → ∃ as s', s.MarksTo ops as s'
  same : ∀ ops as, (∃ s', s.MarksTo ops as s') ↔ ∃ t', t.MarksTo ops as t'
  alike : ∀ {ops as bs s' t'}, s.MarksTo ops as s' → t.MarksTo ops bs t' →
    bs = as ∧ s'.MarkedAlike t'

/-- Whatever the mutators do next on two sessions outside of a cycle, they do the same on both, and a
cycle that begins after that marks the same. -/
def GoesOnAlike (s t : Session) : Prop :=
  ∀ ops, Permitted perform AllowsOperation ops s → ∃ as s₁ t₁ s₂ t₂,
    Action.runAll perform ops s = .ok as s₁ ∧ Action.runAll perform ops t = .ok as t₁ ∧
    advance .initMark s₁ = .ok true s₂ ∧ advance .initMark t₁ = .ok true t₂ ∧ s₂.MarksAlike t₂

section
variable {V : HeapView} {s s' t t' s₁ t₁ : Session} {W : World} {ts us : List MarkTask}
  {ops : List Operation} {as : List Answer}

/-- **What is marked in the end** is what was reachable when marking began, and what was published
since. -/
theorem Marking.exact_of_marksTo (T : s.Marking V W []) (M : s.MarksTo ops as s')
    (B : Beside s [] t us) :
    ∃ t', t.Alone ops as t' ∧ (∀ x, s'.heap.view.Published x ↔ t'.heap.view.Published x) ∧
      ∀ x, s'.heap.view.Published x → ∃ b,
        (s'.heap.regionAt (s'.heap.view.index x)).isLive x = .ok b ∧
          (b = true ↔ Reached V.memory V.rootValues x ∨ x ∈ t'.young) := by
  obtain ⟨n, k, s₁, mark, goesOn, U, hc, hmark, hfinal⟩ := M
  rw [← Crew.tasks_idle (n := n)] at T B
  obtain ⟨-, t', A, B₁⟩ := B.underway T.stage U
  obtain ⟨W₁, T₁⟩ := T.underway U hc
  rw [Crew.tasks_idle] at T₁
  obtain ⟨hyoung, L, X⟩ := (T₁.ends_finalMarkBy hmark).of_ok hfinal
  refine ⟨t', A, fun x => (X.published x).trans B₁.heap.published.symm, fun x hx => ?_⟩
  obtain ⟨b, hlive, hiff⟩ := RegionHeap.isLive_eq L hx
  refine ⟨b, hlive, hiff.trans ((X.exact hx).trans ?_)⟩
  rw [T₁.objects, World.Base, T₁.snapshot, T₁.rootValues, B₁.young]

/-- **Marking can come to its end** after whatever operations. -/
theorem Marking.exists_marksTo (T : s.Marking V W []) (A : s.Alone ops as s₁) :
    ∃ s', s.MarksTo ops as s' := by
  have hc : s₁.heap.cancelRequested = false := A.framed.cancelRequested.trans T.cancel
  have U := A.underway (Crew.idle : Crew 1)
  rw [← Crew.tasks_idle (n := 1)] at T
  obtain ⟨W₁, T₁⟩ := T.underway U hc
  rw [Crew.tasks_idle] at T₁
  have hmark := (RegionHeap.ends_drain_drains T₁.flushed).mono fun _ h' (hd : false = true ∨ _) =>
    hd.resolve_left Bool.false_ne_true
  obtain ⟨goesOn, s', hfinal, -⟩ := T₁.ends_finalMarkBy hmark
  exact ⟨s', 1, 1, s₁, RegionHeap.drain false, goesOn, U, hc, hmark, hfinal⟩

namespace Beside

/-- Marking can come to its end on the other session as well. -/
theorem exists_marksTo (B : Beside s [] t []) (hst : s.stage = .marking) (T : t.Marking V W [])
    (M : s.MarksTo ops as s') : ∃ t', t.MarksTo ops as t' := by
  obtain ⟨n, -, s₁, -, -, U, -⟩ := M
  rw [← Crew.tasks_idle (n := n)] at B
  obtain ⟨-, t₁, A, -⟩ := B.underway hst U
  exact T.exists_marksTo A

/-- **Sessions beside each other mark the same**, if the same was reachable when that began. -/
theorem marksAlike {V' : HeapView} {W' : World} (B : Beside s [] t []) (T : s.Marking V W [])
    (T' : t.Marking V' W' []) (hm : V'.memory = V.memory) (hr : V'.rootValues = V.rootValues) :
    s.MarksAlike t where
  ends ops hp := by
    obtain ⟨as, s₁, -, A, -⟩ := B.alone hp
    exact ⟨as, T.exists_marksTo A⟩
  same ops as := by
    constructor
    · rintro ⟨s', M⟩
      exact B.exists_marksTo T.stage T' M
    · rintro ⟨t', M⟩
      exact B.symm.exists_marksTo T'.stage T M
  alike := by
    intro ops as bs s' t' M M'
    -- Both are compared with what the mutators do alone on the second session.
    obtain ⟨x, A, hpub, hlive⟩ := T.exact_of_marksTo M B
    obtain ⟨y, A', hpub', hlive'⟩ := T'.exact_of_marksTo M' (.refl B.right)
    have hsame := A.run.symm.trans A'.run
    cases hsame
    have hpublished (o : Nat) : t'.heap.view.Published o ↔ s'.heap.view.Published o :=
      (hpub' o).trans (hpub o).symm
    refine ⟨rfl, hpublished, fun o ho => ?_⟩
    obtain ⟨b, hb, hiff⟩ := hlive o ho
    obtain ⟨b', hb', hiff'⟩ := hlive' o ((hpublished o).2 ho)
    rw [hm, hr, ← hiff, ← Bool.eq_iff_iff] at hiff'
    exact ⟨b, hb, hiff' ▸ hb'⟩

/-- **Sessions beside each other go on alike.** -/
theorem goesOnAlike (B : Beside s [] t []) (hs : s.stage = .idle) (ht : t.stage = .idle) :
    s.GoesOnAlike t := by
  intro ops hp
  obtain ⟨as, s₁, t₁, A, A', B₁⟩ := B.alone hp
  obtain ⟨W, S⟩ := B₁.left.sound
  obtain ⟨W', S'⟩ := B₁.right.sound
  obtain ⟨b, s₂, hinit, rfl, W₂, T⟩ := S.ends_initMark (A.stage.trans hs)
  obtain ⟨b', t₂, hinit', rfl, W₂', T'⟩ := S'.ends_initMark (A'.stage.trans ht)
  refine ⟨as, s₁, t₁, s₂, t₂, A.run, A'.run, hinit, hinit', ?_⟩
  obtain ⟨h₂, rfl, N⟩ := stepBy_spares RegionHeap.spares_initMark hinit
  obtain ⟨k₂, rfl, N'⟩ := stepBy_spares RegionHeap.spares_initMark hinit'
  have hheap : h₂.SameButMarks k₂ := trans_of RegionHeap.SameButMarks
    (trans_of RegionHeap.SameButMarks N.toSameButMarks.symm B₁.heap) N'.toSameButMarks
  have B₂ : Beside _ [] _ [] := ⟨⟨⟨W₂, T.sound⟩, .inr T.stage⟩, ⟨⟨W₂', T'.sound⟩, .inr T'.stage⟩,
    hheap, rfl, B₁.handles, B₁.mutators, rfl⟩
  exact B₂.marksAlike T T' B₁.heap.memory B₁.heap.rootValues

end Beside

end

/-! ## 7. No trace is left -/

/-- The same program on another heap, outside of a cycle. -/
def elsewhere (s : Session) (k : RegionHeap) : Session := { s with heap := k, stage := .idle }

/-- A cycle that began on `s₀` and was cancelled has left `s₃`; the first of its steps led to `s₁`, the
last was taken on `s₂`, and `ops` is what the mutators did in between. -/
structure NoTrace (s₀ s₁ : Session) (ops : List Operation) (as : List Answer) (s₂ s₃ : Session) :
    Prop where
  begun : s₀.heap.SameButMarks s₁.heap
  ended : s₂.heap.Abandoned s₃.heap
  completed : s₃.heap.cycleStats.completed = s₀.heap.cycleStats.completed
  cancelled : s₃.heap.cycleStats.cancelled = s₀.heap.cycleStats.cancelled + 1
  /-- Without the cycle the mutators would have been given the same, the heap would be the same but for
  marks, and would be so after whatever they do next and the marking of another cycle. -/
  alone : ∃ k, Action.runAll perform ops (s₁.elsewhere s₀.heap) = .ok as (s₂.elsewhere k) ∧
    k.SameButMarks s₃.heap ∧ s₃.GoesOnAlike (s₃.elsewhere k)

section
variable {place : Place} {o : Options} {h : RegionHeap} {cs : List Command} {as bs : List Answer}
  {ops : List Operation} {s s' t s₀ s₁ s₂ : Session} {ts us : List MarkTask} {W : World} {n : Nat}
  {last : Action Session Bool}

/-- Outside of a cycle, the program forgets its references. -/
theorem Sound.forget (S : s.Sound W) (hst : s.stage = .idle) {vs : List Nat} :
    ({ s with stage := .idle, held := [], young := vs } : Session).Sound W := by
  obtain ⟨heap, stage, held, handles, mutators, young⟩ := s
  cases hst
  exact { S with held := fun _ hv => by cases hv }

theorem Beside.eq_elsewhere (B : Beside s ts t us) (ht : t.stage = .idle) :
    t = s.elsewhere t.heap := by
  obtain ⟨heap, stage, held, handles, mutators, young⟩ := t
  cases ht
  cases B.held
  cases B.handles
  cases B.mutators
  cases B.young
  rfl

/-- **Where a cycle begins**, the session is beside the one that it began on. -/
theorem Sound.beside_initMark (S : s.Sound W) (hst : s.stage = .idle)
    (hinit : advance .initMark s = .ok true s') :
    s.heap.Spares s'.heap ∧ s'.stage = .marking ∧ Beside s' [] (s'.elsewhere s.heap) [] := by
  obtain ⟨-, W', T⟩ := (S.ends_initMark hst).of_ok hinit
  obtain ⟨h', rfl, N⟩ := stepBy_spares RegionHeap.spares_initMark hinit
  refine ⟨N, T.stage, ⟨⟨W', T.sound⟩, .inr T.stage⟩, ⟨⟨W, S.forget hst⟩, .inl rfl⟩,
    N.toSameButMarks.symm, rfl, rfl, rfl, rfl⟩

/-- **Where a cycle ends that was cancelled**, the session is beside the one that never saw it. -/
theorem LastStep.beside {k : RegionHeap} (L : LastStep s last) (hst : s.stage = .marking)
    (B : Beside s [] (s.elsewhere k) []) :
    ∃ s', last s = .ok false s' ∧ s.heap.Abandoned s'.heap ∧ s'.stage = .idle ∧
      Beside s' [] (s'.elsewhere k) [] := by
  obtain ⟨W, S⟩ := B.left.sound
  obtain ⟨W', S'⟩ := B.right.sound
  obtain ⟨b, s', hrun, rfl, ended, hs', S₁⟩ := L.ends S hst
  have hst' : s'.stage = .idle := by rw [hs']
  have S₁' : (s'.elsewhere k).Sound W' := by
    rw [hs']
    exact S'.forget rfl
  exact ⟨s', hrun, ended, hst', ⟨⟨W, S₁⟩, .inl hst'⟩, ⟨⟨W', S₁'⟩, .inl rfl⟩,
    trans_of RegionHeap.SameButMarks ended.toSameButMarks.symm B.heap, rfl, rfl, rfl, rfl⟩

/-- **A cycle that was cancelled leaves the heap as it was.**  After any program a cycle begins; then
mutators do what they like while any number of workers marks, and the cycle is asked to stop at any
time.  The step that takes note of that ends the cycle.  No step of the collector has changed
anything but marks, and what the mutators did has led where it would have led without the cycle. -/
theorem cancelled_without_trace (hb : AnyHeap.build place o = .ok (.ok (.region h)))
    (hp : Permitted execute Allows (cs ++ [.step .initMark]) (start h))
    (hrun : Action.runAll execute cs (start h) = .ok as s₀)
    (hinit : advance .initMark s₀ = .ok true s₁)
    (hsteps : Underway s₁ (Crew.idle : Crew n) ops bs s₂ Crew.idle)
    (hlast : LastStep s₂ last) :
    (∀ {m : Nat} {x y : RegionHeap × Crew m}, CollectorStep x y → x.1.SameButMarks y.1) ∧
      ∃ s₃, last s₂ = .ok false s₃ ∧ NoTrace s₀ s₁ ops bs s₂ s₃ := by
  refine ⟨fun {m x y} K => K.spares.toSameButMarks, ?_⟩
  obtain ⟨hp₀, hstage⟩ := hp.snoc
  obtain ⟨W, S, -⟩ := (ends_program hb hp₀).of_ok hrun
  obtain ⟨N, hst₁, B₁⟩ := S.beside_initMark (hstage hrun) hinit
  rw [← Crew.tasks_idle (n := n)] at B₁
  obtain ⟨hst₂, t, A, B₂⟩ := B₁.underway hst₁ hsteps
  have ht : t = s₂.elsewhere t.heap := B₂.eq_elsewhere A.stage
  rw [Crew.tasks_idle, ht] at B₂
  obtain ⟨s₃, hdone, ended, hst₃, B₃⟩ := hlast.beside hst₂ B₂
  obtain ⟨hcompleted, hcancelled⟩ := hsteps.counts
  refine ⟨s₃, hdone, N.toSameButMarks, ended, ?_, ?_, t.heap, ?_, B₃.heap.symm,
    B₃.goesOnAlike hst₃ rfl⟩
  · rw [ended.completed, hcompleted, N.cycleStats]
  · rw [ended.cancelled, hcancelled, N.cycleStats]
  · rw [← ht]
    exact A.run

/-- While the collector marks with two workers, the only root is cut and the cycle is cancelled. -/
theorem cancelled_without_trace_relocation : ∃ h as s₀ s₁ bs s₂,
    AnyHeap.build Place.first smallHeap = .ok (.ok (.region h)) ∧
    Permitted execute Allows (relocation.take 9 ++ [.step .initMark]) (start h) ∧
    Action.runAll execute (relocation.take 9) (start h) = .ok as s₀ ∧
    advance .initMark s₀ = .ok true s₁ ∧
    Underway s₁ (Crew.idle : Crew 2) [.storeRoot rootBase 9] bs s₂ Crew.idle ∧
    LastStep s₂ (advance .finalMark) ∧
    (∀ {m : Nat} {x y : RegionHeap × Crew m}, CollectorStep x y → x.1.SameButMarks y.1) ∧
    ∃ s₃, advance .finalMark s₂ = .ok false s₃ ∧
      NoTrace s₀ s₁ [.storeRoot rootBase 9] bs s₂ s₃ := by
  obtain ⟨h, hb, hp⟩ := permits_iff.1 (show permits Place.first smallHeap
    ((relocation.take 9 ++ [.step .initMark]) ++ [.operation (.storeRoot rootBase 9)]) = true by
      decide +kernel)
  obtain ⟨hp₀, hlast⟩ := hp.snoc
  obtain ⟨hpc, hstage⟩ := hp₀.snoc
  obtain ⟨as, s₀, hrun, W, S, -⟩ := ends_program hb hpc
  obtain ⟨b, s₁, hinit, rfl, W₁, T₁⟩ := S.ends_initMark (hstage hrun)
  have hexec : execute (.step .initMark) s₀ = .ok (.flag true) s₁ := by
    simp [execute, bind, EStateM.bind, hinit, pure, EStateM.pure]
  have hop : s₁.AllowsOperation (.storeRoot rootBase 9) := hlast (runAll_snoc hrun hexec)
  obtain ⟨a, s', hperform, -⟩ := T₁.sound.ends_perform hop
  obtain ⟨W', T'⟩ := T₁.operation hop hperform
  -- Two workers go on until nothing is left, and then the request comes.
  obtain ⟨h₂, K, -⟩ := exists_drains (n := 2) (T'.stage ▸ T'.sound.inv) (by decide)
  have U : Underway s₁ (Crew.idle : Crew 2) [.storeRoot rootBase 9] [a] s' Crew.idle :=
    .operation .refl hop hperform
  have U₂ := U.collectors (CollectorStep.of_crew K)
  have B₁ : Beside s₁ (Crew.idle : Crew 2).tasks s₁ [] := by
    rw [Crew.tasks_idle]
    exact .refl ⟨⟨W₁, T₁.sound⟩, .inr T₁.stage⟩
  obtain ⟨hst₂, _, -, B₂⟩ := B₁.underway T₁.stage U₂
  obtain ⟨h₃, hcancel⟩ := RegionHeap.exists_cancel (B₂.left.phase hst₂)
  have U₃ := U₂.collector (.cancel hcancel)
  obtain ⟨hst₃, _, -, B₃⟩ := B₁.underway T₁.stage U₃
  rw [Crew.tasks_idle] at B₃
  obtain ⟨W₃, S₃⟩ := B₃.left.sound
  have hc : h₃.cancelRequested = true :=
    congrArg HeapView.cancelRequested (RegionHeap.view_of_cancel hcancel)
  have L := S₃.lastStep hst₃ hc
  exact ⟨h, as, s₀, s₁, [a], _, hb, hp₀, hrun, hinit, U₃, L,
    cancelled_without_trace hb hp₀ hrun hinit U₃ L⟩

end

end Session

end ManagedHeap
