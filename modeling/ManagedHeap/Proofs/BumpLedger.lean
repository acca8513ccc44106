/-
# The ledger of a heap that never collects

A heap that never collects is a single region that is never given back.  What it hands out was free, as
`BumpSession.Did` says of the operations of a program, and so books can be kept of it as of a relocating
heap (`BumpSession.desk`).  Nothing is ever struck out of them.

* Section 1: requests that hand out nothing, and one that tries twice.
* Section 2: a session when it is opened, and when only its heap changes.
* Section 3: the step, and one request.
* Section 4: whole programs, on either heap.
-/
import ManagedHeap.Proofs.BumpSessions
import ManagedHeap.Proofs.RegionLedger

namespace ManagedHeap

/-! ## 1. Requests -/

namespace BumpHeap

variable {h : BumpHeap} {m k n : Nat} {cause : Cause} {e : Event}

/-- What hands out nothing leaves memory in order. -/
theorem Tidy.after_quiet {α : Type} {act : Action BumpHeap α} (T : h.Tidy) (hq : Keeps Quiet act)
    (hf : Keeps StaysFit act) : After act h fun _ h' => h'.Tidy ∧ Gives h h' := fun x h' hr =>
  ⟨(hq h x h' hr).tidy T ((hf h x h' hr).fit T.fit), (hq h x h' hr).gives⟩

theorem quiet_mutatorCollect : Keeps Quiet (Mutator.collect cause : Action BumpHeap Unit) := by
  have hsafe {act : Action Safepoint Unit} :
      Keeps Quiet (Action.upTo 0 1 fun _ => (Heap.onSafepoint act : Action BumpHeap Unit)) :=
    keeps_upTo fun _ => keeps_get.bind fun _ => keeps_pure
  exact hsafe.bind fun _ => quiet_collect.bind fun _ => hsafe.bind fun _ => keeps_pure

/-- **An allocation that is tried twice** gives what one of the two gave. -/
theorem Tidy.after_allocateOrCollect (T : h.Tidy) : After (Mutator.allocateOrCollect m k) h
    fun r h' => h.Obtained m (Mutator.roundedSize k) r h' := by
  have hnote {e : Event} {g : BumpHeap} (T : g.Tidy) :
      After (note e) g fun _ g' => g'.Tidy ∧ Gives g g' := T.after_quiet quiet_note keeps_note
  rw [Mutator.allocateOrCollect, after_bind]
  refine (Mutator.after_allocate_obtained T).mono ?_
  rintro r h₁ ⟨B₁, -⟩
  cases r with
  | some a => exact after_pure.2 B₁
  | none =>
    rw [after_bind]
    refine (B₁.tidy.after_quiet quiet_mutatorCollect sustains_fit.keeps_collect).mono ?_
    rintro _ h₂ ⟨T₂, G₂⟩
    rw [after_bind]
    refine (Mutator.after_allocate_obtained T₂).mono ?_
    rintro r h₃ ⟨B₃, -⟩
    have B : h.Obtained m (Mutator.roundedSize k) r h₃ :=
      (trans_of Gives B₁.gives G₂).trans_obtained B₃
    cases r with
    | some a => exact after_pure.2 B
    | none =>
      rw [after_bind, after_get, after_ite]
      refine ⟨fun _ => ?_, fun _ => ?_⟩
      · rw [after_bind]
        exact (hnote B.tidy).mono fun _ _ _ => after_throw
      · rw [after_bind]
        refine (hnote B.tidy).mono ?_
        rintro _ h₄ ⟨T₄, G₄⟩
        exact after_pure.2 ⟨T₄, trans_of Gives B.gives G₄, (by simp)⟩

end BumpHeap

/-- A request that is for no allocation, and no operation of a mutator. -/
def Request.isQuiet : Request → Bool
  | .retireTlab _ | .collect _ | .sleep _ | .verify | .leave | .join => true
  | _ => false

theorem Request.quiet_run {r : Request} (hr : r.isQuiet = true) :
    Keeps BumpHeap.Quiet (r.run : Action BumpHeap Answer) := by
  cases r with
  | retireTlab a => exact keeps_pure.bind fun _ => keeps_pure
  | collect cause => exact BumpHeap.quiet_collect.bind fun _ => keeps_pure
  | sleep t =>
    have hclock : Keeps BumpHeap.Quiet
        (Heap.modifyCore fun c => { c with clock := c.clock + t } : Action BumpHeap Unit) :=
      keeps_modify fun _ => ⟨rfl, rfl, rfl, rfl, Nat.le_refl _⟩
    exact (hclock.bind fun _ => keeps_pure).bind fun _ => keeps_pure
  | verify => exact (keeps_get.bind fun _ => keeps_pure).bind fun _ => keeps_pure
  | leave | join => exact (keeps_get.bind fun _ => keeps_pure).bind fun _ => keeps_pure
  | operation | allocate | allocateTlab | allocateOrCollect => cases hr

/-- What is given is memory as it is, and no object. -/
def Request.isRaw : Request → Bool
  | .operation (.allocRaw _ _) | .allocate _ | .allocateTlab _ _ | .allocateOrCollect _ _ => true
  | _ => false

/-! ## 2. Sessions -/

namespace BumpSession

section
variable {s : BumpSession} {h h' : BumpHeap} {place : Place} {o : Options}

/-- Memory may have been handed out to nobody of the program. -/
theorem Sound.of_gives (S : s.Sound) (T : h'.Tidy) (G : BumpHeap.Gives s.heap h') :
    ({ s with heap := h' } : BumpSession).Sound := by
  have C : Changed s .poll (.flag false) h' :=
    .of_gives S T G rfl (by simp) (by simp) fun hg => by cases hg
  have hsame : (({ s with heap := h' } : BumpSession).record .poll (.flag false)) =
      { s with heap := h' } := by
    simp [record, Answer.references, handlesAfter, mutatorsAfter]
  exact hsame ▸ (C.did S).sound

/-- **A heap that was built** has handed out nothing, and its memory is empty. -/
theorem sound_start (ho : o.Reached) (hb : AnyHeap.build place o = .ok (.ok (.bump h))) :
    (start h).Sound := by
  have F := BumpHeap.fresh_of_build hb
  have hnone (m : Nat) : h.mutator? m = none := by simp [BumpHeap.mutator?, F.mutators]
  have hzero (b : Nat) : h.core.memory.read b = 0 := by rw [F.memory]; rfl
  have hobjects {p : Nat} : p ∉ (start h).objects := fun hp => by cases hp.1
  constructor
  · constructor
    · exact BumpHeap.supplied_of_build ho.proper hb
    · exact F.granted.boundary_le
    · have htop : (start h).heap.space.top = h.range.low := congrArg BumpSpace.top F.space
      rw [htop]
      exact Nat.dvd_trans (by decide) F.granted.low_aligned
    · intro m t ht
      cases (hnone m).symm.trans ht
    · intro m m' t t' _ ht
      cases (hnone m).symm.trans ht
  · exact ⟨fun hp => absurd hp hobjects, fun hp => absurd hp hobjects, fun hp => absurd hp hobjects,
      fun hp => absurd hp hobjects, fun hp => absurd hp hobjects⟩
  · exact fun hp => absurd hp hobjects
  · exact fun _ => hzero _
  · exact fun _ hs => by cases hs
  · exact fun _ hm => by cases hm

end

/-! ## 3. The step -/

/-- What a session hands out is what its heap does.  No object is copied elsewhere. -/
def desk : Desk BumpSession where
  arena s := s.heap.arena
  memory s := s.memory
  inUse _ _ := True
  inside s a b := s.heap.range.low ≤ a ∧ b ≤ s.heap.range.high
  copied _ _ _ _ := False

/-- Serve a request, in which references are places.  Gives the range that was given for it. -/
def serve : Request → Action BumpSession (Option Piece)
  | .operation op => do
    let a ← perform op
    let s ← get
    return (op.given s.memory a).map fun (m, x, n) => ⟨s.heap.arena.useOf m x, x, n⟩
  | .allocate n => do
    let a? ← onHeap (Heap.allocate n)
    return a?.bind (Piece.range? .shared · n)
  | .allocateTlab z n => do
    let (_, given) ← onHeap (Heap.allocateTlab z n)
    return given.bind fun (a, k) => Piece.range? (.buffer none) a k
  | .allocateOrCollect m n => do
    let a? ← onHeap (Mutator.allocateOrCollect m n)
    let s ← get
    return a?.map fun a => ⟨s.heap.arena.useOf m a, a, Mutator.roundedSize n⟩
  | r => do
    let _ ← onHeap r.run
    return none

/-- Operations as a program may give them; other requests are for anything. -/
def AllowsRequest (s : BumpSession) : Request → Prop
  | .operation op => s.AllowsOperation op
  | _ => True

instance (s : BumpSession) (r : Request) : Decidable (s.AllowsRequest r) := by
  cases r <;> unfold AllowsRequest <;> infer_instance

/-- What serving a request has done. -/
structure Served (s : BumpSession) (r : Request) (x : Option Piece) (s' : BumpSession) : Prop where
  sound : s'.Sound
  step : desk.Step s s' x
  zero : r.isRaw = true → ∀ y, x = some y → ∀ a, y.Holds a → s'.memory.read a = 0

section
variable {s s' : BumpSession} {x : Option Piece} {r : Request} {h' : BumpHeap}

/-- **What was free is handed out.** -/
theorem Sound.step (S : s.Sound) (T : s'.heap.Tidy) (E : BumpHeap.Extends s.heap s'.heap)
    (hx : ∀ y, x = some y → y.Given s.heap.arena s'.heap.arena) : desk.Step s s' x where
  passes := E.fills.passes
  orderly := T.orderly
  inUse _ := trivial
  fresh h := h.1.elim
  copies h := h.1.elim
  given := hx _
  apart _ h := h.1.elim
  zero := S.empty
  inside {a n} hp h := by
    have hn := hp.pos
    have hlast := h (a + n - 1) (by omega) (by omega)
    -- The last byte is below the top then, so it is committed.
    have htop : a + n - 1 < s'.heap.space.top := by
      by_contra hge
      refine hlast.2 ⟨Nat.not_lt.1 hge, ?_⟩
      rw [BumpHeap.settings_boundary E.settings]
      exact (S.tidy.free_bounds hlast.1).2
    have hhigh := T.top_le
    refine ⟨?_, by omega⟩
    rw [BumpHeap.settings_low E.settings]
    exact (S.tidy.free_bounds (h a (Nat.le_refl a) (by omega)).1).1
  stays _ h _ := ⟨BumpHeap.settings_low E.settings ▸ h.1, Nat.le_trans h.2 E.high_le⟩

/-- Memory is handed out as it is, or none. -/
theorem Sound.served_of_gives (S : s.Sound) (T : h'.Tidy) (G : BumpHeap.Gives s.heap h')
    (hx : ∀ y, x = some y → y.Given s.heap.arena h'.arena ∧
      ∀ a, y.Holds a → s.heap.arena.Free a) : s.Served r x { s with heap := h' } where
  sound := S.of_gives T G
  step := S.step T G.toExtends fun y hy => (hx y hy).1
  zero _ y hy a ha := (congrArg (·.read a) G.memory).trans (S.empty ((hx y hy).2 a ha))

/-- A mutator is given memory as it is, or none. -/
theorem Sound.served_of_obtained (S : s.Sound) {m n : Nat} {a? : Option Nat}
    (B : s.heap.Obtained m n a? h') :
    s.Served r (a?.map fun a => ⟨h'.arena.useOf m a, a, n⟩) { s with heap := h' } := by
  refine S.served_of_gives B.tidy B.gives fun y hy => ?_
  obtain ⟨a, ha, rfl⟩ := Option.map_eq_some_iff.1 hy
  exact ⟨(B.serves a ha).given, fun b hb => (B.serves a ha).free hb.1 hb.2⟩

/-- The space gives memory as it is, or none. -/
theorem Sound.served_of_took (S : s.Sound) {u : Use} {n : Nat} {a? : Option Nat}
    (K : BumpHeap.Took s.heap n a? h') (F : h'.Fit) (hu : u = .shared ∨ u = .buffer none) :
    s.Served r (a?.bind (Piece.range? u · n)) { s with heap := h' } := by
  refine S.served_of_gives (K.tidy S.tidy F) K.gives fun y hy => ?_
  obtain ⟨a, rfl, hy⟩ := Option.bind_eq_some_iff.1 hy
  obtain ⟨hn, rfl⟩ := Piece.range?_eq_some.1 hy
  have hfresh := K.fresh S.tidy F hn
  exact ⟨.inr ⟨hu, hfresh⟩, fun b hb => .inl (hfresh.unused b hb.1 hb.2)⟩

/-- **An operation** hands out what it was given. -/
theorem Sound.after_serve_operation (S : s.Sound) {op : Operation} (ha : s.AllowsOperation op) :
    After (serve (.operation op)) s (s.Served (.operation op)) := by
  simp only [serve, after_bind, after_get, after_pure]
  refine (S.after_perform ha).mono fun a s' D => ?_
  refine ⟨D.sound, S.step D.sound.tidy D.grows fun y hy => ?_, fun hraw y hy b hb => ?_⟩
  · obtain ⟨⟨m, x, n⟩, hg, rfl⟩ := Option.map_eq_some_iff.1 hy
    exact (D.serves hg).given
  · obtain ⟨⟨m, x, n⟩, hg, rfl⟩ := Option.map_eq_some_iff.1 hy
    have hmem : s'.memory = s.memory := by
      cases op <;> cases hraw
      exact D.raw rfl
    rw [hmem]
    exact S.empty ((D.serves hg).free hb.1 hb.2)

/-- **Whatever is asked for** is served, in a step that keeps the books. -/
theorem Sound.after_serve (S : s.Sound) (ha : s.AllowsRequest r) : After (serve r) s (s.Served r) := by
  have hquiet (hr : r.isQuiet = true) : After (onHeap r.run >>= fun _ => pure none) s
      (s.Served r) := by
    simp only [onHeap, after_bind, after_onPart, after_pure]
    have hfit := BumpHeap.sustains_fit.keeps_request r
    refine (S.tidy.after_quiet (Request.quiet_run hr) hfit).mono ?_
    rintro _ h' ⟨T, G⟩
    exact S.served_of_gives T G fun _ hy => by cases hy
  cases r with
  | operation op => exact S.after_serve_operation ha
  | allocate n =>
    simp only [serve, onHeap, after_bind, after_onPart, after_pure]
    intro a? h' hr
    have F := (BumpHeap.keeps_allocate _ a? h' hr).fit S.tidy.fit
    exact S.served_of_took (BumpHeap.after_allocate_took a? h' hr) F (.inl rfl)
  | allocateTlab z n =>
    simp only [serve, onHeap, after_bind, after_onPart, after_pure]
    intro x h' hr
    have F := (BumpHeap.keeps_allocateTlab _ x h' hr).fit S.tidy.fit
    obtain ⟨hnone, hsome⟩ := BumpHeap.after_allocateTlab_took S.tidy.toSupplied x h' hr
    obtain ⟨z', given⟩ := x
    cases given with
    | none => exact S.served_of_took (u := .buffer none) (hnone rfl) F (.inr rfl)
    | some y => exact S.served_of_took (hsome y.1 y.2 rfl).2 F (.inr rfl)
  | allocateOrCollect m n =>
    simp only [serve, onHeap, after_bind, after_onPart, after_get, after_pure]
    exact S.tidy.after_allocateOrCollect.mono fun _ _ B => S.served_of_obtained B
  | retireTlab | collect | sleep | verify | leave | join => exact hquiet rfl

end

/-! ## 4. Whole programs -/

section
variable {b : Books BumpSession} {r : Request} {rs : List Request} {place : Place} {o : Options}
  {h : BumpHeap}

/-- The session goes on, and its books are kept. -/
def Booked (b : Books BumpSession) : Prop := b.state.Sound ∧ desk.Kept b

/-- **Serving a request keeps the books.** -/
theorem Booked.after_keep (B : Booked b) (ha : b.state.AllowsRequest r) :
    After (desk.keep (serve r)) b fun x b' => Booked b' ∧ desk.Turn b x b' ∧
      (r.isRaw = true → ∀ y, x = some y → ∀ a, y.Holds a →
        b'.state.heap.core.memory.read a = 0) ∧ b.ledger ⊆ b'.ledger := by
  obtain ⟨S, K⟩ := B
  refine Desk.after_keep.2 ((S.after_serve ha).mono fun x s' T => ?_)
  obtain ⟨K', hturn⟩ := K.next T.step
  exact ⟨⟨T.sound, K'⟩, hturn, T.zero, fun g hg => .inl ⟨hg, trivial⟩⟩

/-- The books of a heap that was built. -/
theorem booked_start (ho : o.Reached) (hb : AnyHeap.build place o = .ok (.ok (.bump h))) :
    Booked { state := start h } := by
  refine ⟨sound_start ho hb, Desk.kept_open fun m => ?_⟩
  show buffersOf h.core.mutators m = none
  simp [buffersOf, (BumpHeap.fresh_of_build hb).mutators]

/-- The requests of a program keep its session sound. -/
theorem after_program (ho : o.Reached) (hb : AnyHeap.build place o = .ok (.ok (.bump h)))
    (hp : Permitted serve AllowsRequest rs (start h)) :
    After (Action.runAll serve rs) (start h) fun _ s => s.Sound :=
  after_runAll_inv (fun _ _ S ha => (S.after_serve ha).mono fun _ _ T => T.sound) (sound_start ho hb) hp

/-- The requests of a program keep the books. -/
theorem after_served (ho : o.Reached) (hb : AnyHeap.build place o = .ok (.ok (.bump h)))
    (hp : Permitted serve AllowsRequest rs (start h)) :
    After (Action.runAll (fun r => desk.keep (serve r)) rs) { state := start h } fun _ b => Booked b :=
  after_runAll_inv (fun _ _ B ha => (B.after_keep ha).mono fun _ _ h => h.1) (booked_start ho hb)
    (Desk.permitted_keep hp rfl)

end

end BumpSession

/-- **No memory is handed out twice.**  Along any program, each demand of a relocating heap is served
and each turn keeps the ledger, from which a range goes only when a region is given back; and what is
given as memory, and not as an object, still reads as zero.  The same holds of a heap that never
collects, as far as a program comes on it; nothing goes from its ledger. -/
theorem memory_handed_out_once :
    (∀ {place o} {h : RegionHeap} {ds d}, AnyHeap.build place o = .ok (.ok (.region h)) →
      Permitted Session.serve Session.AllowsDemand (ds ++ [d]) (Session.start h) →
      ∃ xs b x b',
        Action.runAll (fun d => Session.desk.keep (Session.serve d)) ds { state := Session.start h } =
          .ok xs b ∧
        Session.desk.keep (Session.serve d) b = .ok x b' ∧ Session.desk.Turn b x b' ∧
        (d.isRaw = true → ∀ y, x = some y → ∀ a, y.Holds a →
          b'.state.heap.core.memory.read a = 0) ∧
        (d ≠ .command (.step .recycle) → b.ledger ⊆ b'.ledger)) ∧
    (∀ {place o} {h : BumpHeap} {rs r xs b x b'}, o.Reached →
      AnyHeap.build place o = .ok (.ok (.bump h)) →
      Permitted BumpSession.serve BumpSession.AllowsRequest (rs ++ [r]) (BumpSession.start h) →
      Action.runAll (fun r => BumpSession.desk.keep (BumpSession.serve r)) rs
        { state := BumpSession.start h } = .ok xs b →
      BumpSession.desk.keep (BumpSession.serve r) b = .ok x b' →
      BumpSession.desk.Turn b x b' ∧
        (r.isRaw = true → ∀ y, x = some y → ∀ a, y.Holds a →
          b'.state.heap.core.memory.read a = 0) ∧
        b.ledger ⊆ b'.ledger) := by
  constructor
  · intro place o h ds d hb hp
    obtain ⟨hds, hlast⟩ := (Desk.permitted_keep (b := { state := Session.start h }) hp rfl).snoc
    obtain ⟨xs, b, hrun, B⟩ := Session.ends_served hb hp.snoc.1
    obtain ⟨x, b', hd, -, hturn, hzero, hgrow⟩ := B.ends_keep (hlast hrun)
    exact ⟨xs, b, x, b', hrun, hd, hturn, hzero, hgrow⟩
  · intro place o h rs r xs b x b' ho hb hp hrun hr
    obtain ⟨hrs, hlast⟩ := (Desk.permitted_keep (b := { state := BumpSession.start h }) hp rfl).snoc
    have B := BumpSession.after_served ho hb hp.snoc.1 xs b hrun
    exact (B.after_keep (hlast hrun) x b' hr).2

/-- Whether options are accepted, and the heap that they give never collects and has a property. -/
def BumpSession.builds (place : Place) (o : Options) (p : BumpHeap → Bool) : Bool :=
  match AnyHeap.build place o with
  | .ok (.ok (.bump h)) => p h
  | _ => false

theorem BumpSession.builds_iff {place : Place} {o : Options} {p : BumpHeap → Bool} :
    BumpSession.builds place o p = true ↔
      ∃ h, AnyHeap.build place o = .ok (.ok (.bump h)) ∧ p h = true := by
  unfold BumpSession.builds
  constructor
  · intro hp
    split at hp
    · rename_i h hb
      exact ⟨h, hb, hp⟩
    · cases hp
  · rintro ⟨h, hb, hp⟩
    rw [hb]
    exact hp

/-- A region is emptied by a cycle, and memory is asked for again. -/
def reusing : List Demand :=
  (relocation ++ [Command.step .recycle]).map .command ++
    [.allocate 64, .command (.operation (.allocRaw 0 64)), .sleep 10]

/-- Objects, buffers and memory as it is are asked for in turn. -/
def mixing : List Request := [
  .operation .create, .operation (.alloc 0 1 16), .operation (.storeRef 0 0 0 0),
  .operation (.clone 0 0), .operation (.allocRaw 0 64), .allocate 4096, .allocateTlab {} 64,
  .operation (.retireTlab 0), .allocateOrCollect 0 3000, .collect .userRequested]

/-- A region is used again, and a heap that never collects grows. -/
theorem memory_handed_out_once_reusing :
    (∃ h xs b x b', AnyHeap.build Place.first smallHeap = .ok (.ok (.region h)) ∧
      Permitted Session.serve Session.AllowsDemand (reusing ++ [.allocateTlab {} 64])
        (Session.start h) ∧
      Action.runAll (fun d => Session.desk.keep (Session.serve d)) reusing
        { state := Session.start h } = .ok xs b ∧
      Session.desk.keep (Session.serve (.allocateTlab {} 64)) b = .ok x b' ∧
      Session.desk.Turn b x b' ∧ b.ledger ⊆ b'.ledger) ∧
    ∃ h xs b x b', growingHeap.Reached ∧
      AnyHeap.build Place.first growingHeap = .ok (.ok (.bump h)) ∧
      Permitted BumpSession.serve BumpSession.AllowsRequest (mixing ++ [.allocate 64])
        (BumpSession.start h) ∧
      Action.runAll (fun r => BumpSession.desk.keep (BumpSession.serve r)) mixing
        { state := BumpSession.start h } = .ok xs b ∧
      BumpSession.desk.keep (BumpSession.serve (.allocate 64)) b = .ok x b' ∧
      BumpSession.desk.Turn b x b' ∧ b.ledger ⊆ b'.ledger := by
  obtain ⟨h, hb, hp⟩ := Session.builds_iff.1 (show Session.builds Place.first smallHeap (fun h =>
    decide (Permitted Session.serve Session.AllowsDemand (reusing ++ [.allocateTlab {} 64])
      (Session.start h))) = true by decide +kernel)
  have hp := of_decide_eq_true hp
  obtain ⟨k, hk, hd⟩ := BumpSession.builds_iff.1 (show BumpSession.builds Place.first growingHeap
    (fun h => decide (Permitted BumpSession.serve BumpSession.AllowsRequest
        (mixing ++ [.allocate 64]) (BumpSession.start h)) &&
      decide (Ends (Action.runAll (fun r => BumpSession.desk.keep (BumpSession.serve r))
        (mixing ++ [.allocate 64])) { state := BumpSession.start h } fun _ _ => True)) = true by
      decide +kernel)
  obtain ⟨hp', hd⟩ := Bool.and_eq_true_iff.1 hd
  have hp' := of_decide_eq_true hp'
  obtain ⟨_, c', hall, -⟩ := of_decide_eq_true hd
  obtain ⟨xs', c, x', hrun', hc', -⟩ := runAll_snoc_eq_ok.1 hall
  obtain ⟨xs, b, x, b', hrun, hb', hturn, -, hgrow⟩ := memory_handed_out_once.1 hb hp
  have hc := memory_handed_out_once.2 Mutator.growingHeap_reached hk hp' hrun' hc'
  exact ⟨⟨h, xs, b, x, b', hb, hp, hrun, hb', hturn, hgrow (by simp)⟩,
    _, xs', c, x', c', Mutator.growingHeap_reached, hk, hp', hrun', hc', hc.1, hc.2.2⟩

end ManagedHeap
