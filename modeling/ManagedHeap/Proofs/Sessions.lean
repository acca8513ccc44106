/-
# Sessions

A session is sound when it begins, and every command that is allowed ends and keeps it so.  With
that a program is followed to its end: it never fails, and its answers are those of the ideal heap.

* Section 1: the steps of a cycle, with all mutators outside of the safepoint.
* Section 2: one command.
* Section 3: a program on a small heap, at which the results about all programs are seen.
* Section 4: whole programs.
-/
import ManagedHeap.Proofs.Operations
import ManagedHeap.Proofs.Opening
import Mathlib.Data.List.Forall2

namespace ManagedHeap

/-! ## 1. The steps of a cycle -/

namespace HeapView

/-- What a step of a cycle has done. -/
structure Advanced (V : HeapView) (W : World) (V' : HeapView) (W' : World) (st : Stage) :
    Prop extends Steady V V' where
  inv : V'.Inv W' st []
  inStage : V'.InStage st
  ideal : W'.ideal = W.ideal
  loose : W'.loose = W.loose
  space : V.Grants V' ∨ Emptied V V'

section
variable {V V' : HeapView} {W W' : World} {st : Stage} {j : Nat}

theorem Stepped.advanced (S : Stepped V V') (I : V'.Inv W' st []) (hs : V'.InStage st)
    (hi : W'.ideal = W.ideal) (hl : W'.loose = W.loose) : V.Advanced W V' W' st :=
  { S.toSteady with inv := I, inStage := hs, ideal := hi, loose := hl, space := .inl S.grants }

/-- How many mutators are joined is nothing to what is handed out. -/
theorem Grants.setJoined (G : ({ V with joined := 0 }).Grants V') :
    V.Grants { V' with joined := V.joined } :=
  { G with fills := { G.fills with }, copies := { G.copies with } }

/-- How many mutators are joined is nothing to what is given back. -/
theorem Emptied.setJoined (E : Emptied { V with joined := 0 } V') :
    Emptied V { V' with joined := V.joined } :=
  { E with joined := rfl, tallied := fun X => { E.tallied { X with } with } }

/-- How many mutators are joined is nothing to a step. -/
theorem Advanced.setJoined (A : ({ V with joined := 0 }).Advanced W V' W' st) :
    V.Advanced W { V' with joined := V.joined } W' st :=
  { inv := A.inv.setControl
    inStage := A.inStage
    ideal := A.ideal
    loose := A.loose
    space := A.space.imp Grants.setJoined Emptied.setJoined
    options := A.options
    mutators := A.mutators
    joined := rfl
    pending := A.pending
    handles := A.handles
    counted := A.counted
    balanced := A.balanced }

theorem Follows.setJoined (E : ({ V with joined := 0 }).Follows W V' W') :
    V.Follows W { V' with joined := V.joined } W' :=
  have hleft : V.Follows W { V with joined := 0 } W := .of_eq rfl rfl rfl rfl
  (hleft.trans E).trans (.of_eq rfl rfl rfl rfl)

end

end HeapView

namespace RegionHeap

open HeapView

variable {h : RegionHeap} {W : World}

/-- **A step of a cycle** that is taken in its turn.  The steps between the choice of regions and
their recycling go on, and references stay what they are.  All but the last hand out what was free.
None puts the count of what is marked wrong.  Only the first, which takes the snapshot, and the
evacuation, which moves objects, change what is known beyond the heap. -/
theorem ends_step (c : CycleStep) (I : h.view.Inv W c.stage []) (hs : h.view.InStage c.stage)
    (hl : W.loose = ∅) (hj : h.view.joined = 0) :
    Ends c.run h fun b h' => ∃ W', h.view.Advanced W h'.view W' (c.next b) ∧
      (c.stage.stale = true → b = true ∧ h.view.Follows W h'.view W') ∧
      (c ≠ .recycle → h.view.Grants h'.view) ∧ (h.view.Tallied → h'.view.Tallied) ∧
      (c ≠ .initMark → c ≠ .evacuate → W' = W) := by
  cases c with
  | initMark =>
    refine (ends_initMark I hs hl hj).mono ?_
    rintro b h' ⟨hb, M⟩
    refine ⟨W.atMark h.view, ?_, fun h => (by cases h), fun _ => M.stepped.grants,
      M.stepped.tallied, fun h => absurd rfl h⟩
    subst hb
    exact M.stepped.advanced M.inv M.inStage rfl rfl
  | concurrentMark =>
    refine (ends_concurrentMark I hs hj).mono ?_
    rintro b h' ⟨S, hyes, hno⟩
    refine ⟨W, ?_, fun h => (by cases h), fun _ => S.grants, S.tallied, fun _ _ => rfl⟩
    cases b with
    | true =>
      obtain ⟨I', M⟩ := hyes rfl
      exact S.advanced I' (M.inStage hs) rfl rfl
    | false =>
      obtain ⟨-, I', hs'⟩ := hno rfl
      exact S.advanced I' hs' rfl rfl
  | finalMark =>
    refine (ends_finalMark I hs hj).mono ?_
    rintro b h' ⟨S, hyes, hno, _⟩
    refine ⟨W, ?_, fun h => (by cases h), fun _ => S.grants, S.tallied, fun _ _ => rfl⟩
    cases b with
    | true =>
      obtain ⟨I', hs'⟩ := hyes rfl
      exact S.advanced I' hs' rfl rfl
    | false =>
      obtain ⟨I', hs'⟩ := hno rfl
      exact S.advanced I' hs' rfl rfl
  | evacuate =>
    simp only [CycleStep.run, ends_bind, ends_pure]
    refine (ends_evacuate I hs hj).mono ?_
    rintro _ h' ⟨-, W', E⟩
    refine ⟨W', ?_, fun _ => ⟨trivial, E.refers, E.current⟩, fun _ => E.stepped.grants,
      E.stepped.tallied, fun _ h => absurd rfl h⟩
    exact E.stepped.advanced E.inv E.inStage E.ideal E.loose
  | updateRefs =>
    simp only [CycleStep.run, ends_bind, ends_pure]
    refine (ends_updateRefs I hs).mono ?_
    rintro _ h' ⟨S, I', hs', hf, -⟩
    refine ⟨W, ?_, fun _ => ⟨trivial, hf⟩, fun _ => S.grants, S.tallied, fun _ _ => rfl⟩
    exact S.advanced I' hs' rfl rfl
  | recycle =>
    simp only [CycleStep.run, ends_bind, ends_pure]
    refine (ends_recycle I hl hs hj).mono ?_
    rintro _ h' ⟨E, I', hs'⟩
    refine ⟨W, ?_, fun h => (by cases h), fun h => absurd rfl h, E.tallied, fun _ _ => rfl⟩
    exact { E.toSteady with
      inv := I', inStage := hs', ideal := rfl, loose := rfl, space := .inr E }

end RegionHeap

namespace Mutator

open HeapView

variable {α : Type} {h : RegionHeap} {act : Action RegionHeap α} {post : α → RegionHeap → Prop}

/-- The safepoint as it is when `n` mutators are joined. -/
def withJoined (h : RegionHeap) (n : Nat) : RegionHeap :=
  { h with safepoint := { h.safepoint with joined := n } }

theorem ends_leave {n : Nat} (hn : 0 < n) (hh : h.safepoint.joined = n) {q : RegionHeap → Prop} :
    Ends (Heap.onSafepoint Safepoint.leave) h (fun _ => q) ↔ q (withJoined h (n - 1)) := by
  subst hh
  show Ends (Action.onPart _ _ Safepoint.leave) h _ ↔ _
  simp only [ends_onPart, Safepoint.leave, ends_bind, ends_get, ends_lift, require_eq_ok, ends_set]
  constructor
  · rintro ⟨_, -, hq⟩
    exact hq
  · intro hq
    exact ⟨(), hn, hq⟩

theorem ends_join (hp : h.safepoint.pending = false) {q : RegionHeap → Prop} :
    Ends (Heap.onSafepoint Safepoint.join) h (fun _ => q) ↔
      q (withJoined h (h.safepoint.joined + 1)) := by
  show Ends (Action.onPart _ _ Safepoint.join) h _ ↔ _
  simp only [ends_onPart, Safepoint.join, ends_bind, ends_get, ends_ite, ends_set]
  have hne : ¬ h.safepoint.pending = true := Bool.eq_false_iff.1 hp
  exact ⟨fun h => h.2 hne, fun h => ⟨fun hc => absurd hc hne, fun _ => h⟩⟩

/-- **An action with all mutators outside of the safepoint** finds none joined.  They join again when
it is over. -/
theorem ends_allParked (hj : h.view.joined = h.view.count)
    (hact : Ends act (withJoined h 0) fun a h' => h'.view.joined = 0 ∧ h'.view.pending = false ∧
      post a (withJoined h' h.view.joined)) : Ends (allParked act) h post := by
  simp only [allParked, ends_bind, ends_get, parked]
  have hcount : count h = h.safepoint.joined := hj.symm
  rw [hcount]
  refine (ends_upTo (fun k h' => h' = withJoined h (h.safepoint.joined - k)) rfl
    fun k h' hk hh => ?_).mono fun _ h₁ hh₁ => ?_
  · subst hh
    refine (ends_leave (n := h.safepoint.joined - k) (by omega) rfl).2 ?_
    rw [Nat.sub_sub]
    rfl
  · rw [Nat.sub_self] at hh₁
    subst hh₁
    refine hact.mono ?_
    rintro a h₂ ⟨h0, hp, hpost⟩
    refine (ends_upTo (fun k h' => h' = withJoined h₂ k) ?_ fun k h' hk hh => ?_).mono
      fun _ h₃ hh₃ => ?_
    · show h₂ = withJoined h₂ 0
      rw [← show h₂.safepoint.joined = 0 from h0]
      rfl
    · subst hh
      exact (ends_join (h := withJoined h₂ k) hp).2 rfl
    · subst hh₃
      exact ends_pure.2 hpost

end Mutator

/-! ## 2. One command -/

namespace Session

open HeapView

variable {s : Session} {W : World} {ts : List MarkTask} {op : Operation} {c : CycleStep}
  {k : Command}

/-- The session after an operation. -/
theorem Ready.record (S : s.Ready W ts) {a b : Answer} {I : IdealHeap} {h' : RegionHeap}
    {W' : World} (P : s.heap.view.Performed W h'.view W' s.stage op a b I ts) :
    (({ s with heap := h' }).record op a).Ready W' ts ∧
      (({ s with heap := h' }).record op a).ideal W' =
        ⟨I, (s.ideal W).held ++ b.references⟩ := by
  have E := P.persists
  have hold {v : Nat} (hv : v ∈ s.held) : v = 0 ∨ h'.view.Refers W' v :=
    (S.held v hv).imp_right fun h => (E.refers h).1
  have hname {v : Nat} (hv : v ∈ s.held) : W'.name v = W.name v := by
    rcases S.held v hv with rfl | h
    · rw [P.inv.faithful.name_zero, S.inv.faithful.name_zero]
    · exact (E.refers h).2
  have hmut {m : Nat} (hm : m ∈ s.mutators) (hne : op ≠ .destroy m) :
      (h'.view.mutator? m).isSome = true :=
    (P.bound (S.mutators m hm)).resolve_left hne
  have hroot {slot : Nat} (hm : slot ∈ s.handles) (hne : op ≠ .dropRoot slot) :
      h'.view.HasRoot slot := (P.roots (S.handles slot hm)).resolve_left hne
  refine ⟨⟨P.inv, E.inStage S.inStage, E.loose.trans S.loose, E.joined S.joined,
    E.pending.trans S.pending, E.fills.balanced S.balanced, fun m hm => ?_, fun slot hm => ?_,
    fun v hv => ?_⟩, ?_⟩
  · simp only [Session.record, mutatorsAfter] at hm
    split at hm
    · rename_i m'
      obtain ⟨h1, h2⟩ := List.mem_filter.1 hm
      refine hmut h1 fun he => ?_
      cases he
      simp at h2
    · rename_i m' hop
      rcases List.mem_append.1 hm with h1 | h1
      · exact hmut h1 fun he => hop _ he
      · rw [List.mem_singleton.1 h1]
        exact P.made rfl
    · rename_i hop _
      exact hmut hm fun he => hop _ he
  · simp only [Session.record, handlesAfter] at hm
    split at hm
    · rename_i slot'
      obtain ⟨h1, h2⟩ := List.mem_filter.1 hm
      refine hroot h1 fun he => ?_
      cases he
      simp at h2
    · rename_i slot' hop
      rcases List.mem_append.1 hm with h1 | h1
      · exact hroot h1 fun he => hop _ he
      · rw [List.mem_singleton.1 h1]
        exact P.rooted rfl
    · rename_i hop _
      exact hroot hm fun he => hop _ he
  · rcases List.mem_append.1 hv with h1 | h1
    · exact hold h1
    · exact P.refers v h1
  · have h1 : (s.held ++ a.references).map W'.name = s.held.map W.name ++ b.references := by
      rw [List.map_append, P.names]
      congr 1
      exact List.map_congr_left fun v hv => hname hv
    show IdealSession.mk W'.ideal ((s.held ++ a.references).map W'.name) = _
    rw [h1, P.ideal]
    rfl

theorem Sound.record (S : s.Sound W ts) {a b : Answer} {I : IdealHeap} {h' : RegionHeap}
    {W' : World} (P : s.heap.view.Performed W h'.view W' s.stage op a b I ts) :
    (({ s with heap := h' }).record op a).Sound W' ts ∧
      (({ s with heap := h' }).record op a).ideal W' =
        ⟨I, (s.ideal W).held ++ b.references⟩ :=
  (S.toReady.record P).imp_left fun R => ⟨R, P.persists.counted S.counted⟩

/-- The session after a step of a cycle. -/
theorem Ready.enter (S : s.Ready W) {b : Bool} {h' : RegionHeap} {W' : World}
    (A : s.heap.view.Advanced W h'.view W' (c.next b)) :
    (({ s with heap := h' }).enter c b).Ready W' ∧
      (({ s with heap := h' }).enter c b).ideal W' = { s.ideal W with held := [] } := by
  refine ⟨⟨A.inv, A.inStage, A.loose.trans S.loose, ?_, A.pending S.pending, A.balanced S.balanced,
    fun m hm => ?_, fun slot hm => ?_, fun v hv => ?_⟩, ?_⟩
  · show h'.view.joined = h'.view.mutators.toList.countP _
    rw [A.joined, A.mutators]
    exact S.joined
  · show (h'.view.mutators[m]?.join).isSome = true
    rw [A.mutators]
    exact S.mutators m hm
  · obtain ⟨d, hd, hl, hs⟩ := S.handles slot hm
    exact ⟨d, A.handles hd hl, hl, hs⟩
  · cases hv
  · show IdealSession.mk W'.ideal [] = _
    rw [A.ideal]
    rfl

theorem Sound.enter (S : s.Sound W) {b : Bool} {h' : RegionHeap} {W' : World}
    (A : s.heap.view.Advanced W h'.view W' (c.next b)) :
    (({ s with heap := h' }).enter c b).Sound W' ∧
      (({ s with heap := h' }).enter c b).ideal W' = { s.ideal W with held := [] } :=
  (S.toReady.enter A).imp_left fun R => ⟨R, A.counted S.counted⟩

/-- **An operation that is allowed** gives what it gives on the ideal heap. -/
theorem Ready.ends_perform (S : s.Ready W ts) (ha : s.AllowsOperation op) :
    Ends (perform op) s fun a s' => ∃ h' W' b I, s' = ({ s with heap := h' }).record op a ∧
      (b, I) = op.ideal (s.ideal W).reference a.found W.ideal ∧
      s.heap.view.Performed W h'.view W' s.stage op a b I ts := by
  simp only [perform, onHeap, ends_bind, ends_get, ends_onPart, ends_modify, ends_pure]
  refine (S.ends_run ha).mono ?_
  rintro a h' ⟨W', P⟩
  exact ⟨h', W', _, _, rfl, rfl, P⟩

/-- **A step of a cycle that is allowed** does what its stage asks for. -/
theorem Ready.ends_advance (S : s.Ready W) (ha : s.stage = c.stage) :
    Ends (advance c) s fun b s' => ∃ h' W', s' = ({ s with heap := h' }).enter c b ∧
      s.heap.view.Advanced W h'.view W' (c.next b) ∧
      (c.stage.stale = true → b = true ∧ s.heap.view.Follows W h'.view W') ∧
      (c ≠ .recycle → s.heap.view.Grants h'.view) ∧
      (s.heap.view.Tallied → h'.view.Tallied) ∧
      (c ≠ .initMark → c ≠ .evacuate → W' = W) := by
  simp only [advance, onHeap, ends_bind, ends_onPart, ends_modify, ends_pure]
  have I : (Mutator.withJoined s.heap 0).view.Inv W c.stage [] := ha ▸ S.inv.setControl
  refine Mutator.ends_allParked S.joined
    ((RegionHeap.ends_step c I (ha ▸ S.inStage) S.loose rfl).mono ?_)
  rintro b h' ⟨W', A, hf, hg, ht, hW⟩
  exact ⟨A.joined, A.pending S.pending, _, W', rfl, Advanced.setJoined (V := s.heap.view) A,
    fun hst => (hf hst).imp_right fun E => Follows.setJoined (V := s.heap.view) E,
    fun hc => Grants.setJoined (V := s.heap.view) (hg hc), fun X => { ht { X with } with }, hW⟩

/-- **A request to cancel** changes nothing else that is seen. -/
theorem Ready.ends_cancel (S : s.Ready W ts) :
    Ends (onHeap RegionHeap.cancel) s fun _ s' => s'.Ready W ts ∧ s'.ideal W = s.ideal W ∧
      ∃ h' d, s' = { s with heap := h' } ∧ h'.view = { s.heap.view with cancelRequested := d } := by
  simp only [onHeap, ends_onPart]
  refine RegionHeap.ends_cancel.mono ?_
  rintro _ h' ⟨d, hv⟩
  refine ⟨?_, rfl, h', d, rfl, hv⟩
  have hview : ({ s with heap := h' } : Session).heap.view =
      { s.heap.view with cancelRequested := d } := hv
  have hsame : SamePlaces s.heap.view h'.view :=
    (SameObjects.of_eq (by rw [hv]) (by rw [hv]) (by rw [hv]) (by rw [hv])).toSamePlaces
  have hr {v : Nat} (h : s.heap.view.Refers W v) : h'.view.Refers W v :=
    h.same hsame S.inv.faithful.published rfl rfl
  refine ⟨hview ▸ S.inv.setControl, hview ▸ S.inStage, S.loose, hview ▸ S.joined,
    hview ▸ S.pending, hview ▸ S.balanced, fun m hm => ?_, fun slot hm => ?_,
    fun v hv => (S.held v hv).imp_right hr⟩
  · rw [hview]
    exact S.mutators m hm
  · rw [hview]
    exact S.handles slot hm

theorem Sound.ends_cancel (S : s.Sound W ts) :
    Ends (onHeap RegionHeap.cancel) s fun _ s' => s'.Sound W ts ∧ s'.ideal W = s.ideal W ∧
      ∃ h' d, s' = { s with heap := h' } ∧ h'.view = { s.heap.view with cancelRequested := d } := by
  refine S.toReady.ends_cancel.mono ?_
  rintro _ _ ⟨R, hi, h', d, rfl, hv⟩
  have hcounted : h'.view.Counted none := hv ▸ S.counted
  exact ⟨⟨R, hcounted⟩, hi, h', d, rfl, hv⟩

/-- **A command that is allowed** keeps the session sound.  The program sees the answer that the
ideal heap gives, and what it has then are the objects that it has there. -/
theorem Sound.ends_execute (S : s.Sound W) (ha : s.Allows k) :
    Ends (execute k) s fun a s' => ∃ W', s'.Sound W' ∧
      a.seen = (IdealSession.execute k a (s.ideal W)).1.seen ∧
      s'.ideal W' = (IdealSession.execute k a (s.ideal W)).2 := by
  cases k with
  | operation op =>
    refine (S.ends_perform ha).mono ?_
    rintro a s' ⟨h', W', b, I, hs', hb, P⟩
    refine ⟨W', ?_⟩
    obtain ⟨S', hi⟩ := S.record P
    have hx : op.ideal (s.ideal W).reference a.found (s.ideal W).heap = (b, I) := hb.symm
    simp only [IdealSession.execute, hx, hs']
    exact ⟨S', P.seen, hi⟩
  | step c =>
    simp only [execute, ends_bind, ends_pure]
    refine (S.ends_advance ha).mono ?_
    rintro b s' ⟨h', W', hs', A, -⟩
    refine ⟨W', ?_⟩
    obtain ⟨S', hi⟩ := S.enter A
    rw [hs']
    exact ⟨S', rfl, hi⟩
  | cancel =>
    simp only [execute, ends_bind, ends_pure]
    refine S.ends_cancel.mono ?_
    rintro b s' ⟨S', hi, _⟩
    exact ⟨W, S', rfl, hi⟩

/-- The session is sound, and its heap has the options `o`. -/
def SoundWith (o : Options) (s : Session) : Prop := (∃ W, s.Sound W) ∧ s.heap.view.options = o

/-- No command changes the options. -/
theorem Sound.execute_options (S : s.Sound W) (ha : s.Allows k) :
    Ends (execute k) s fun _ s' => s'.heap.view.options = s.heap.view.options := by
  cases k with
  | operation op =>
    refine (S.ends_perform ha).mono ?_
    rintro a s' ⟨h', W', b, I, rfl, -, P⟩
    exact P.persists.options
  | step c =>
    simp only [execute, ends_bind, ends_pure]
    refine (S.ends_advance ha).mono ?_
    rintro b s' ⟨h', W', rfl, A, -⟩
    exact A.options
  | cancel =>
    simp only [execute, ends_bind, ends_pure]
    refine S.ends_cancel.mono ?_
    rintro b s' ⟨-, -, h', d, rfl, hv⟩
    exact (congrArg HeapView.options hv : h'.view.options = _)

/-- **A command that is allowed** keeps the session sound and its options. -/
theorem SoundWith.ends_execute (S : s.SoundWith o) (ha : s.Allows k) :
    Ends (execute k) s fun _ s' => s'.SoundWith o := by
  obtain ⟨⟨W, S⟩, ho⟩ := S
  refine ((S.ends_execute ha).and (S.execute_options ha)).mono ?_
  rintro a s' ⟨⟨W', S', -⟩, ho'⟩
  exact ⟨⟨W', S'⟩, ho'.trans ho⟩

end Session

/-! ## 3. A program that relocates -/

/-- A heap of sixteen regions. -/
def smallHeap : Options where
  collector := .shenandoah
  initialHeapSize := 65536
  maxHeapSize := 65536
  regionSize := 4096
  minTlabSize := 512
  maxTlabSize := 512
  heuristics := .aggressive
  printHeapSteps := 0

/-- A region is filled with garbage and one object that is kept, which is moved by a cycle while it is
in use.  All is done but to empty the region. -/
def relocation : List Command := [
  .operation .create, .operation .create,
  .operation (.alloc 0 0 3000), .operation (.alloc 0 2 800), .operation (.newRoot 1),
  .operation (.alloc 0 0 3000), .operation (.alloc 1 1 16), .operation (.storeRef 0 1 0 2),
  .operation (.storeWord 1 8 77),
  .step .initMark, .step .concurrentMark, .step .finalMark,
  .operation (.loadRoot rootBase), .operation (.storeWord 0 16 78),
  .step .evacuate, .step .updateRefs,
  .operation (.loadRoot rootBase), .operation (.loadRef 0 0), .operation (.casRef 0 0 0 1 0)]

/-- Whether options are accepted, and the heap that they give has a property. -/
def Session.builds (place : Place) (o : Options) (p : RegionHeap → Bool) : Bool :=
  match AnyHeap.build place o with
  | .ok (.ok (.region h)) => p h
  | _ => false

theorem Session.builds_iff {place : Place} {o : Options} {p : RegionHeap → Bool} :
    Session.builds place o p = true ↔
      ∃ h, AnyHeap.build place o = .ok (.ok (.region h)) ∧ p h = true := by
  unfold Session.builds
  constructor
  · intro hp
    split at hp
    · rename_i h hb
      exact ⟨h, hb, hp⟩
    · cases hp
  · rintro ⟨h, hb, hp⟩
    rw [hb]
    exact hp

/-- Whether options are accepted, and a program is permitted on the heap that they give. -/
def Session.permits (place : Place) (o : Options) (cs : List Command) : Bool :=
  builds place o fun h => decide (Permitted Session.execute Session.Allows cs (Session.start h))

theorem Session.permits_iff {place : Place} {o : Options} {cs : List Command} :
    Session.permits place o cs = true ↔ ∃ h, AnyHeap.build place o = .ok (.ok (.region h)) ∧
      Permitted Session.execute Session.Allows cs (Session.start h) := by
  simp only [permits, builds_iff, decide_eq_true_eq]

/-! ## 4. Whole programs -/

namespace HeapView

variable {V : HeapView}

theorem Pristine.mutator? (U : V.Pristine) (m : Nat) : V.mutator? m = none := by
  rw [HeapView.mutator?, U.mutators]
  simp

theorem Pristine.counted (U : V.Pristine) : V.Counted none := fun i => by
  rw [U.region, tlabCount, U.mutators]
  rfl

theorem Pristine.balanced (U : V.Pristine) : V.Balanced := by
  rw [Balanced, U.used]
  refine (Finset.sum_eq_zero fun i _ => ?_).symm
  rw [U.region]
  exact Nat.sub_self _

end HeapView

namespace Session

open HeapView

variable {place : Place} {o : Options} {h : RegionHeap} {s : Session} {W : World} {j k : Nat}
  {cs : List Command}

/-- A heap that was built begins a sound session. -/
theorem sound_start (hb : AnyHeap.build place o = .ok (.ok (.region h))) :
    (start h).Sound World.first := by
  have U := RegionHeap.pristine_of_build hb
  have hcount : h.view.count = 0 := by
    rw [HeapView.count, U.mutators]
    rfl
  exact
    { inv := U.inv
      inStage := ⟨U.gcState, U.phase⟩
      loose := rfl
      joined := U.joined.trans hcount.symm
      pending := U.pending
      counted := U.counted
      balanced := U.balanced
      mutators := fun _ h => by cases h
      handles := fun _ h => by cases h
      held := fun _ h => by cases h }

/-- **A permitted program** runs to its end, in step with the ideal heap. -/
theorem ends_program (hb : AnyHeap.build place o = .ok (.ok (.region h)))
    (hp : Permitted execute Allows cs (start h)) :
    Ends (Action.runAll execute cs) (start h) fun as s => ∃ W, s.Sound W ∧
      as.map Answer.seen = (followAll IdealSession.execute cs as {}).1.map Answer.seen ∧
      s.ideal W = (followAll IdealSession.execute cs as {}).2 := by
  refine (ends_runAll IdealSession.execute (R := fun s t => ∃ W, s.Sound W ∧ s.ideal W = t)
    (Q := fun a b => a.seen = b.seen) (t := {}) ?_ ⟨_, sound_start hb, rfl⟩ hp).mono ?_
  · rintro s t c ⟨W, S, rfl⟩ ha
    refine (S.ends_execute ha).mono ?_
    rintro a s' ⟨W', S', hseen, hi⟩
    exact ⟨hseen, W', S', hi⟩
  · rintro as s ⟨hq, W, S, hi⟩
    refine ⟨W, S, List.forall₂_eq_eq_eq.le _ _ ?_, hi⟩
    exact List.forall₂_map_left_iff.2 (List.forall₂_map_right_iff.2 hq)

/-- Two references are to one object exactly if they have one identity. -/
theorem Sound.same_iff (S : s.Sound W) :
    s.Same j k ↔ (s.ideal W).reference j = (s.ideal W).reference k := by
  have F := S.inv.faithful
  obtain ⟨hj, hnj⟩ := S.reference j
  obtain ⟨hk, hnk⟩ := S.reference k
  rw [← hnj, ← hnk]
  constructor
  · rintro (he | ⟨h1, h2, he⟩)
    · rw [he]
    · exact (F.resolve_eq_iff S.inv.layout (S.refers h1) (S.refers h2)).1 he
  · intro he
    by_cases h1 : s.IsObject j <;> by_cases h2 : s.IsObject k
    · exact .inr ⟨h1, h2, (F.resolve_eq_iff S.inv.layout (S.refers h1) (S.refers h2)).2 he⟩
    · rw [Decidable.not_not.1 h2] at he
      have := F.name_refers_pos (S.refers h1)
      rw [he, show W.name null = 0 from F.name_zero] at this
      exact absurd this (Nat.lt_irrefl 0)
    · rw [Decidable.not_not.1 h1] at he
      have := F.name_refers_pos (S.refers h2)
      rw [← he, show W.name null = 0 from F.name_zero] at this
      exact absurd this (Nat.lt_irrefl 0)
    · exact .inl ((Decidable.not_not.1 h1).trans (Decidable.not_not.1 h2).symm)

/-- **The collector is transparent.**  A program that is permitted is given what it would be given
on a heap whose objects never move and on which the steps of a cycle do nothing, but for where
allocation finds room: what it sees of each answer is the same, and so is which of its references
are to one object. -/
theorem transparent (hb : AnyHeap.build place o = .ok (.ok (.region h)))
    (hp : Permitted execute Allows cs (start h)) :
    ∃ as s t, Action.runAll execute cs (start h) = .ok as s ∧
      followAll IdealSession.execute cs as {} = t ∧
      as.map Answer.seen = t.1.map Answer.seen ∧
      s.held.length = t.2.held.length ∧
      ∀ j k, s.Same j k ↔ t.2.reference j = t.2.reference k := by
  obtain ⟨as, s, hrun, W, S, hseen, hi⟩ := ends_program hb hp
  refine ⟨as, s, _, hrun, rfl, hseen, ?_, fun j k => ?_⟩
  · rw [← hi]
    exact (List.length_map _).symm
  · rw [← hi]
    exact S.same_iff

theorem transparent_relocation :
    ∃ h, AnyHeap.build Place.first smallHeap = .ok (.ok (.region h)) ∧
      Permitted execute Allows (relocation ++ [.step .recycle]) (start h) ∧
      ∃ as s t, Action.runAll execute (relocation ++ [.step .recycle]) (start h) = .ok as s ∧
        followAll IdealSession.execute (relocation ++ [.step .recycle]) as {} = t ∧
        as.map Answer.seen = t.1.map Answer.seen ∧
        s.held.length = t.2.held.length ∧
        ∀ j k, s.Same j k ↔ t.2.reference j = t.2.reference k := by
  obtain ⟨h, hb, hp⟩ := permits_iff.1 (show permits Place.first smallHeap
    (relocation ++ [.step .recycle]) = true by decide +kernel)
  exact ⟨h, hb, hp, transparent hb hp⟩

/-- **No permitted program fails.**  No step of it finds an illegal transition, a reference outside of
the heap or into an empty region, an object that was left behind, or a count that is wrong: after
any such program, each command that is allowed next ends as well. -/
theorem never_fails {c : Command} (hb : AnyHeap.build place o = .ok (.ok (.region h)))
    (hp : Permitted execute Allows (cs ++ [c]) (start h)) :
    ∃ as s, Action.runAll execute cs (start h) = .ok as s ∧ ∀ f s', execute c s ≠ .error f s' := by
  obtain ⟨hcs, hlast⟩ := hp.snoc
  obtain ⟨as, s, hrun, W, S, -⟩ := ends_program hb hcs
  refine ⟨as, s, hrun, fun f s' he => ?_⟩
  obtain ⟨a, s'', hok, -⟩ := S.ends_execute (hlast hrun)
  rw [hok] at he
  cases he

theorem never_fails_relocation :
    ∃ h, AnyHeap.build Place.first smallHeap = .ok (.ok (.region h)) ∧
      Permitted execute Allows (relocation ++ [.step .recycle]) (start h) ∧
      ∃ as s, Action.runAll execute relocation (start h) = .ok as s ∧
        ∀ f s', execute (.step .recycle) s ≠ .error f s' := by
  obtain ⟨h, hb, hp⟩ := permits_iff.1 (show permits Place.first smallHeap
    (relocation ++ [.step .recycle]) = true by decide +kernel)
  exact ⟨h, hb, hp, never_fails hb hp⟩

end Session

end ManagedHeap
