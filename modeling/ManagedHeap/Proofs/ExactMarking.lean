/-
# Marking is exact

Between the first step of a cycle and the end of its marking, operations of the mutators come
between the steps of the workers, in any order (`Session.MarkingStep`).  The mutators cut paths and
publish objects, the workers mark; the invariant of marking is kept by both.  When the marking ends
and was not cancelled, the objects that count as live are those that were reachable when it began,
and those that were published since: none is lost, and none is kept for nothing.

* Section 1: an operation makes at most one object.
* Section 2: what holds while a cycle marks.
* Section 3: the beginning and the end.
-/
import ManagedHeap.Proofs.Sessions
import ManagedHeap.Proofs.Workers

namespace ManagedHeap

open Relation

/-! ## 1. New objects -/

/-- On the ideal heap an operation makes no object, or one, which it gives. -/
theorem Operation.ideal_created (ref : Nat → Nat) (room : Bool) (I : IdealHeap) (op : Operation) :
    ((op.ideal ref room I).1.created = [] ∧ (op.ideal ref room I).2.count = I.count) ∨
      ((op.ideal ref room I).1.created = [I.count] ∧
        (op.ideal ref room I).2.count = I.count + 1) := by
  cases op with
  | alloc m refs payload =>
    cases room with
    | false => exact .inl ⟨rfl, rfl⟩
    | true => exact .inr ⟨rfl, rfl⟩
  | clone m src =>
    cases room with
    | false => exact .inl ⟨rfl, rfl⟩
    | true => exact .inr ⟨rfl, rfl⟩
  | casRef m src i expected new =>
    left
    simp only [Operation.ideal]
    split <;> exact ⟨rfl, rfl⟩
  | _ => exact .inl ⟨rfl, rfl⟩

/-- Answers that a program sees as one make objects of the same identities. -/
theorem Answer.map_created {a b : Answer} {f : Nat → Nat} (hseen : a.seen = b.seen)
    (hnames : a.references.map f = b.references) : a.created.map f = b.created := by
  cases a <;> cases b <;> simp_all [Answer.seen, Answer.created, Answer.references]

namespace HeapView

section
variable {V V' : HeapView} {W W' : World} {op : Operation} {a b : Answer} {I : IdealHeap}
  {st : Stage} {ts : List MarkTask} {ref : Nat → Nat} {room : Bool} {o : Nat}

/-- **What an operation publishes** has an identity that no object had. -/
theorem Performed.created (P : V.Performed W V' W' st op a b I ts)
    (hb : (b, I) = op.ideal ref room W.ideal) (hcount : 0 < W.ideal.count) (ho : o ∈ a.created) :
    V'.Refers W' o ∧ W'.name o = W.ideal.count := by
  have hmap : a.created.map W'.name = b.created := Answer.map_created P.seen P.names
  have hmem : W'.name o ∈ b.created := hmap ▸ List.mem_map_of_mem ho
  have hname : W'.name o = W.ideal.count := by
    rcases Operation.ideal_created ref room W.ideal op with ⟨h1, -⟩ | ⟨h1, -⟩
    · rw [← hb] at h1
      rw [h1] at hmem
      cases hmem
    · rw [← hb] at h1
      rw [h1] at hmem
      exact List.mem_singleton.1 hmem
  have hrefers : o = 0 ∨ V'.Refers W' o := by
    refine P.refers o ?_
    cases a <;> simp_all [Answer.created, Answer.references]
  refine ⟨hrefers.resolve_left fun h0 => ?_, hname⟩
  rw [h0, P.inv.faithful.name_zero] at hname
  omega

/-- **While a cycle marks** the objects of the program stay where they are, and an operation adds
those that it gives. -/
theorem Performed.mem_objects (P : V.Performed W V' W' .marking op a b I ts)
    (F : V.Faithful W .marking) (hb : (b, I) = op.ideal ref room W.ideal) :
    o ∈ W'.objects ↔ o ∈ W.objects ∨ o ∈ a.created := by
  have F' := P.inv.faithful
  have hkept {p : Nat} (hp : p ∈ W.objects) : p ∈ W'.objects ∧ W'.name p = W.name p :=
    ⟨(P.persists.current (F.current_of_calm rfl (.inl hp))).1, (P.persists.refers (.inl hp)).2⟩
  have hmap : a.created.map W'.name = b.created := Answer.map_created P.seen P.names
  have hnew {p : Nat} (hp : p ∈ a.created) : p ∈ W'.objects ∧ W'.name p = W.ideal.count :=
    (P.created hb F.count_pos hp).imp_left fun hr => (F'.current_of_calm rfl hr).1
  refine ⟨fun ho => ?_, fun ho => ho.elim (fun h => (hkept h).1) fun h => (hnew h).1⟩
  rcases P.persists.born ho with ⟨p, hp, hname⟩ | hge
  · have heq : p = o := F'.name_inj (hkept hp).1 ho ((hkept hp).2.trans hname)
    exact .inl (heq ▸ hp)
  · -- A new identity is that of the object that the operation gives.
    have hlt : W'.name o < I.count := P.ideal ▸ F'.name_lt ho
    rcases Operation.ideal_created ref room W.ideal op with ⟨-, h2⟩ | ⟨h1, h2⟩
    · rw [← hb] at h2
      exact absurd hlt (by rw [h2]; omega)
    · rw [← hb] at h1 h2
      have hmem : W.ideal.count ∈ a.created.map W'.name := by
        rw [hmap, h1]
        exact List.mem_cons_self
      obtain ⟨p, hp, hname⟩ := List.mem_map.1 hmem
      have heq : p = o := F'.name_inj (hnew hp).1 ho (by rw [hname]; simp only at h2; omega)
      exact .inr (heq ▸ hp)

end

end HeapView

/-! ## 2. While a cycle marks -/

namespace Session

open HeapView

/-- What happens while a cycle marks: an operation of a mutator, or a step of one of `n` workers. -/
inductive MarkingStep {n : Nat} : Session × Crew n → Session × Crew n → Prop where
  | operation {s s' : Session} {c : Crew n} {op : Operation} {a : Answer} :
    s.AllowsOperation op → perform op s = .ok a s' → MarkingStep (s, c) (s', c)
  | worker {s : Session} {h' : RegionHeap} {c c' : Crew n} :
    CrewStep (s.heap, c) (h', c') → MarkingStep (s, c) ({ s with heap := h' }, c')

/-- What holds of a session that marks, `V` being the view when that began. -/
structure Marking (V : HeapView) (s : Session) (W : World) (ts : List MarkTask) : Prop where
  sound : s.Sound W ts
  stage : s.stage = .marking
  snapshot : W.snapshot = V.memory
  rootValues : W.rootValues = V.rootValues
  cancel : s.heap.view.cancelRequested = false
  objects : ∀ o, o ∈ W.objects ↔ W.Base o ∨ o ∈ s.young

section
variable {V : HeapView} {s s' : Session} {W : World} {ts ts' : List MarkTask} {op : Operation}
  {a : Answer} {h' : RegionHeap} {n : Nat} {c c' : Crew n}

/-- Steps of marking keep a session sound. -/
theorem Sound.marks (S : s.Sound W ts) (M : s.heap.view.Marks h'.view)
    (I : h'.view.Inv W s.stage ts') : ({ s with heap := h' } : Session).Sound W ts' := by
  have T := M.stepped
  refine ⟨⟨I, M.inStage S.inStage, S.loose, ?_, T.pending S.pending, T.balanced S.balanced,
    fun m hm => ?_, fun slot hm => ?_, fun v hv => ?_⟩, T.counted S.counted⟩
  · show h'.view.joined = h'.view.mutators.toList.countP _
    rw [T.joined, T.mutators]
    exact S.joined
  · show (h'.view.mutators[m]?.join).isSome = true
    rw [T.mutators]
    exact S.mutators m hm
  · obtain ⟨d, hd, hl, hs⟩ := S.handles slot hm
    exact ⟨d, T.handles hd hl, hl, hs⟩
  · exact (S.held v hv).imp_right fun h => h.same M.places S.inv.faithful.published rfl rfl

/-- **An operation of a mutator** while a cycle marks. -/
theorem Marking.operation (T : s.Marking V W ts) (ha : s.AllowsOperation op)
    (hrun : perform op s = .ok a s') : ∃ W', s'.Marking V W' ts := by
  obtain ⟨h₁, W', b, I, rfl, hb, P⟩ := (T.sound.ends_perform ha).of_ok hrun
  have hst := T.stage
  have F := T.sound.inv.faithful
  have S := (T.sound.record P).1
  rw [hst] at P F
  have hbase (o : Nat) : W'.Base o ↔ W.Base o := by
    rw [World.Base, World.Base, P.persists.snapshot, P.persists.rootValues]
  refine ⟨W', S, hst, P.persists.snapshot.trans T.snapshot,
    P.persists.rootValues.trans T.rootValues, P.persists.cancel.trans T.cancel, fun o => ?_⟩
  rw [P.mem_objects F hb, T.objects, hbase, or_assoc]
  exact or_congr_right List.mem_append.symm

/-- **A step of a worker** while a cycle marks. -/
theorem Marking.worker (T : s.Marking V W c.tasks) (K : CrewStep (s.heap, c) (h', c')) :
    ({ s with heap := h' } : Session).Marking V W c'.tasks := by
  have I := T.sound.inv
  rw [T.stage] at I
  obtain ⟨I', M⟩ := K.inv I
  have hcancel : h'.view.cancelRequested = s.heap.view.cancelRequested := by
    rw [M.frame]
  exact ⟨T.sound.marks M (by rw [T.stage]; exact I'), T.stage, T.snapshot, T.rootValues,
    hcancel.trans T.cancel, T.objects⟩

/-- **Any number of both**, in any order. -/
theorem Marking.steps (T : s.Marking V W c.tasks)
    (K : ReflTransGen MarkingStep (s, c) (s', c')) : ∃ W', s'.Marking V W' c'.tasks := by
  obtain ⟨x, hx⟩ : ∃ x, x = (s', c') := ⟨_, rfl⟩
  rw [← hx] at K
  induction K generalizing s' c' with
  | refl =>
    cases hx
    exact ⟨W, T⟩
  | @tail y z _ hstep ih =>
    subst hx
    obtain ⟨s₁, c₁⟩ := y
    obtain ⟨W₁, T₁⟩ := ih rfl
    cases hstep with
    | operation ha hrun => exact T₁.operation ha hrun
    | worker K => exact ⟨W₁, T₁.worker K⟩

end

/-! ## 3. The beginning and the end -/

section
variable {V : HeapView} {s : Session} {W : World} {mark : Action RegionHeap Bool} {k : Nat}

/-- **Marking begins** with a snapshot of what is reachable, and nothing published since. -/
theorem Sound.ends_initMark (S : s.Sound W) (hst : s.stage = .idle) :
    Ends (advance .initMark) s fun b s' => b = true ∧ ∃ W', s'.Marking s.heap.view W' [] := by
  simp only [advance, onHeap, ends_bind, ends_onPart, ends_modify, ends_pure]
  have I : (Mutator.withJoined s.heap 0).view.Inv W .idle [] := hst ▸ S.inv.setControl
  refine Mutator.ends_allParked S.joined
    ((RegionHeap.ends_initMark I (hst ▸ S.inStage) S.loose rfl).mono ?_)
  rintro b h' ⟨rfl, B⟩
  have A : (Mutator.withJoined s.heap 0).view.Advanced W h'.view (W.atMark s.heap.view) .marking :=
    B.stepped.advanced B.inv B.inStage rfl rfl
  refine ⟨A.joined, A.pending S.pending, rfl, W.atMark s.heap.view, ?_⟩
  have A' := Advanced.setJoined (V := s.heap.view) A
  refine ⟨(S.enter (c := .initMark) (b := true) A').1, rfl, rfl, rfl, B.cancel, fun o => ?_⟩
  exact (or_iff_left List.not_mem_nil).symm

/-- The end of a marking, of which the rest is done by `mark`. -/
def finalMarkBy (mark : Action RegionHeap Bool) : Action Session Bool := do
  let goesOn ← onHeap (Mutator.allParked (RegionHeap.finalMarkBy mark))
  modify (·.enter .finalMark goesOn)
  return goesOn

/-- The code is one way to end a marking. -/
theorem advance_finalMark : advance .finalMark = finalMarkBy (RegionHeap.drain false) := rfl

/-- What is left to be marked when the mutators were stopped, and had handed over what they
recorded, is in order. -/
theorem Sound.flushed (S : s.Sound W) (hst : s.stage = .marking) :
    (Mutator.withJoined s.heap 0).flushed.view.Inv W .marking [] := by
  have I : s.heap.view.Inv W .marking [] := hst ▸ S.inv
  have I₀ : (Mutator.withJoined s.heap 0).view.Inv W .marking [] := I.setControl
  exact I₀.flushAll.1.setControl

theorem Marking.flushed (T : s.Marking V W []) :
    (Mutator.withJoined s.heap 0).flushed.view.Inv W .marking [] := T.sound.flushed T.stage

/-- **Marking ends**, when workers have done the rest in whatever order. -/
theorem Marking.ends_finalMarkBy (T : s.Marking V W [])
    (hmark : Ends mark (Mutator.withJoined s.heap 0).flushed fun _ h' =>
      Drains k (Mutator.withJoined s.heap 0).flushed h') :
    Ends (finalMarkBy mark) s fun _ s' => s'.young = s.young ∧ s'.heap.view.Layout ∧
      s.heap.view.Marked W s'.heap.view := by
  simp only [finalMarkBy, onHeap, ends_bind, ends_onPart, ends_modify, ends_pure]
  have hst := T.stage
  have I : (Mutator.withJoined s.heap 0).view.Inv W .marking [] := hst ▸ T.sound.inv.setControl
  have I₁ : (Mutator.withJoined s.heap 0).flushed.view.Inv W .marking (Crew.idle : Crew k).tasks := by
    rw [Crew.tasks_idle]
    exact T.flushed
  have hmark' := hmark.mono fun _ h' D => by
    obtain ⟨I', M⟩ := CrewStep.inv_steps D.1 I₁
    rw [Crew.tasks_idle] at I'
    exact (⟨I', M, D.2⟩ : h'.view.Inv W .marking [] ∧ _ ∧ RegionHeap.Finished h'.view)
  refine Mutator.ends_allParked T.sound.joined
    ((RegionHeap.ends_finalMarkBy I (hst ▸ T.sound.inStage) rfl hmark').mono ?_)
  rintro b h' ⟨S', hyes, hno, hexact⟩
  refine ⟨S'.joined, S'.pending T.sound.pending, rfl, ?_, ?_⟩
  · show ({ h'.view with joined := s.heap.view.joined } : HeapView).Layout
    cases b with
    | true => exact (hyes rfl).1.layout.setControl rfl rfl
    | false => exact (hno rfl).1.layout.setControl rfl rfl
  · have X := hexact T.cancel
    exact { X with
      drained := { X.drained with }
      thorough := fun hX => X.thorough { hX with } }

end

section
variable {place : Place} {o : Options} {h : RegionHeap} {cs : List Command} {as : List Answer}
  {s₀ s₁ s₂ : Session} {b : Bool} {n k : Nat} {mark : Action RegionHeap Bool}

/-- **Marking from a snapshot is exact.**  After any program a cycle begins; then mutators do what
they like while any number of workers marks, and at last any number of workers does the rest.  In
every order of their steps, an object that was published counts as live then exactly if it was
reachable from the roots when the cycle began, or was published since; and nothing is left in the
mark queue or in a buffer of what was overwritten. -/
theorem marking_exact (hb : AnyHeap.build place o = .ok (.ok (.region h)))
    (hp : Permitted execute Allows (cs ++ [.step .initMark]) (start h))
    (hrun : Action.runAll execute cs (start h) = .ok as s₀)
    (hinit : advance .initMark s₀ = .ok b s₁)
    (hsteps : ReflTransGen MarkingStep (s₁, (Crew.idle : Crew n)) (s₂, Crew.idle))
    (hmark : Ends mark (Mutator.withJoined s₂.heap 0).flushed fun _ h' =>
      Drains k (Mutator.withJoined s₂.heap 0).flushed h') :
    ∃ goesOn s₃, finalMarkBy mark s₂ = .ok goesOn s₃ ∧ s₃.heap.view.Drained ∧
      ∀ x, s₃.heap.view.Published x → ∃ live,
        (s₃.heap.regionAt (s₃.heap.view.index x)).isLive x = .ok live ∧
          (live = true ↔
            Reached s₀.heap.view.memory s₀.heap.view.rootValues x ∨ x ∈ s₃.young) := by
  obtain ⟨hp₀, hlast⟩ := hp.snoc
  obtain ⟨W, S, -⟩ := (ends_program hb hp₀).of_ok hrun
  obtain ⟨-, W₁, T₁⟩ := (S.ends_initMark (hlast hrun)).of_ok hinit
  rw [← Crew.tasks_idle (n := n)] at T₁
  obtain ⟨W₂, T₂⟩ := T₁.steps hsteps
  rw [Crew.tasks_idle] at T₂
  obtain ⟨goesOn, s₃, hfinal, hyoung, L, X⟩ := T₂.ends_finalMarkBy hmark
  refine ⟨goesOn, s₃, hfinal, X.drained, fun x hx => ?_⟩
  obtain ⟨live, hlive, hiff⟩ := RegionHeap.isLive_eq L hx
  refine ⟨live, hlive, hiff.trans ((X.exact hx).trans ?_)⟩
  rw [T₂.objects, World.Base, T₂.snapshot, T₂.rootValues, hyoung]

/-- While the collector marks with two workers, the only root is cut, and then one worker ends the
marking. -/
theorem marking_exact_relocation : ∃ h as s₀ b s₁ s₂,
    AnyHeap.build Place.first smallHeap = .ok (.ok (.region h)) ∧
    Permitted execute Allows (relocation.take 9 ++ [.step .initMark]) (start h) ∧
    Action.runAll execute (relocation.take 9) (start h) = .ok as s₀ ∧
    advance .initMark s₀ = .ok b s₁ ∧
    ReflTransGen MarkingStep (s₁, (Crew.idle : Crew 2)) (s₂, Crew.idle) ∧
    Ends (RegionHeap.drain false) (Mutator.withJoined s₂.heap 0).flushed (fun _ h' =>
      Drains 1 (Mutator.withJoined s₂.heap 0).flushed h') ∧
    ∃ goesOn s₃, finalMarkBy (RegionHeap.drain false) s₂ = .ok goesOn s₃ ∧
      s₃.heap.view.Drained ∧ ∀ x, s₃.heap.view.Published x → ∃ live,
        (s₃.heap.regionAt (s₃.heap.view.index x)).isLive x = .ok live ∧
          (live = true ↔
            Reached s₀.heap.view.memory s₀.heap.view.rootValues x ∨ x ∈ s₃.young) := by
  obtain ⟨h, hb, hp⟩ := permits_iff.1 (show permits Place.first smallHeap
    ((relocation.take 9 ++ [.step .initMark]) ++ [.operation (.storeRoot rootBase 9)]) = true by
      decide +kernel)
  obtain ⟨hp₀, hlast⟩ := hp.snoc
  obtain ⟨hpc, hstage⟩ := hp₀.snoc
  obtain ⟨as, s₀, hrun, W, S, -⟩ := ends_program hb hpc
  obtain ⟨b, s₁, hinit, -, W₁, T₁⟩ := S.ends_initMark (hstage hrun)
  have hexec : execute (.step .initMark) s₀ = .ok (.flag b) s₁ := by
    simp [execute, bind, EStateM.bind, hinit, pure, EStateM.pure]
  have hop : s₁.AllowsOperation (.storeRoot rootBase 9) := hlast (runAll_snoc hrun hexec)
  obtain ⟨a, s', hperform, -⟩ := T₁.sound.ends_perform hop
  obtain ⟨W', T'⟩ := T₁.operation hop hperform
  -- Two workers go on until nothing is left.
  obtain ⟨h₂, K, -⟩ := exists_drains (n := 2) (T'.stage ▸ T'.sound.inv) (by decide)
  have hwork : ReflTransGen MarkingStep (s', (Crew.idle : Crew 2))
      ({ s' with heap := h₂ }, Crew.idle) :=
    K.lift (fun x => (({ s' with heap := x.1 } : Session), x.2)) fun _ _ hstep => .worker hstep
  have hsteps : ReflTransGen MarkingStep (s₁, (Crew.idle : Crew 2))
      ({ s' with heap := h₂ }, Crew.idle) := .head (.operation hop hperform) hwork
  obtain ⟨W₂, T₂⟩ := (Crew.tasks_idle (n := 2) ▸ T₁).steps hsteps
  rw [Crew.tasks_idle] at T₂
  have hmark := (RegionHeap.ends_drain_drains T₂.flushed).mono fun _ h' (hd : false = true ∨ _) =>
    hd.resolve_left Bool.false_ne_true
  exact ⟨h, as, s₀, b, s₁, _, hb, hp₀, hrun, hinit, hsteps, hmark,
    marking_exact hb hp₀ hrun hinit hsteps hmark⟩

end

end Session

end ManagedHeap
