/-
# What a cycle reclaims

That nothing is lost says nothing about how much is gained.  Under the aggressive rules a cycle
gains all that it may: a region is left alone only while memory is handed out from it or a buffer
was cut from it (`InDemand`), and of the others those with any garbage are emptied, if every object
that has to be moved finds room.  After the cycle there is no garbage but in regions that were in
demand.

The argument follows an object through the cycle.  At the choice it is in a region in demand, or to
be relocated, or reachable (`Decided`).  The relocation leaves the newest copy of what was reachable,
and of the rest only what was in demand (`Compacted`).  Reachability is that of the ideal heap, which a
cycle does not change, so what was reachable before is so after, wherever it is (`reached_again`).

* Section 1: what was reachable is reachable again.
* Section 2: a cycle until it has chosen.
* Section 3: a cycle after that.
* Section 4: whole cycles, and those that the controller runs first.
* Section 5: cycles after any program.
-/
import ManagedHeap.Proofs.Sessions
import ManagedHeap.RegionHeap.Control

namespace ManagedHeap

/-! ## 1. What is reachable -/

namespace HeapView

section
variable {V V' : HeapView} {W W' : World} {o : Nat}

/-- **What was reachable is so again** on a heap that holds the same ideal heap and has the roots:
there is an object of the same identity. -/
theorem Faithful.reached_again (F : V.Faithful W .idle) (hl : W.loose = ∅)
    (F' : V'.Faithful W' .idle) (hl' : W'.loose = ∅) (hI : W'.ideal = W.ideal)
    (hroots : ∀ {c}, c ∈ V.roots.cells → c.live = true → c ∈ V'.roots.cells)
    (h : Reached V.memory V.rootValues o) :
    ∃ o', Reached V'.memory V'.rootValues o' ∧ W'.name o' = W.name o := by
  -- An identity that is not that of null is found again where its object is referred to.
  have hne {v v' : Nat} (hv : Reached V.memory V.rootValues v) (he : W'.name v' = W.name v) :
      v' ≠ 0 := fun h0 => by
    have hpos := F.name_pos (F.mem_of_reached hl hv)
    rw [← he, h0, F'.name_zero] at hpos
    exact absurd hpos (Nat.lt_irrefl 0)
  induction h with
  | @root v hv h0 =>
    obtain ⟨c, hc, hlive, rfl⟩ := hv
    have hname : W'.name (V'.memory.read c.slot) = W.name (V.memory.read c.slot) := by
      rw [(F'.roots (hroots hc hlive) hlive).2, (F.roots hc hlive).2, hI]
    have hreached : Reached V.memory V.rootValues (V.memory.read c.slot) :=
      .root ⟨c, hc, hlive, rfl⟩ h0
    exact ⟨_, .root ⟨c, hroots hc hlive, hlive, rfl⟩ (hne hreached hname), hname⟩
  | @field p i hp hi h0 ih =>
    obtain ⟨p', hp', hname⟩ := ih
    have hm := F.mem_of_reached hl hp
    have hm' := F'.mem_of_reached hl' hp'
    have hi' : i < Object.refCount V'.memory p' := by
      rw [F'.refs hm', hI, hname, ← F.refs hm]
      exact hi
    have hfield : W'.name (V'.memory.read (Object.field p' i)) =
        W.name (V.memory.read (Object.field p i)) := by
      rw [(F'.fields hm' hi').2, (F.fields hm hi).2, hI, hname]
    exact ⟨_, .field hp' hi' (hne (.field hp hi h0) hfield), hfield⟩

/-- What the world has forgotten is not reachable, and what it knows is, on a heap that holds the
same ideal heap. -/
theorem Faithful.reached_of_mem (F : V.Faithful W .idle) (hl : W.loose = ∅)
    (F' : V'.Faithful W' .idle) (hl' : W'.loose = ∅) (hI : W'.ideal = W.ideal)
    (hroots : ∀ {c}, c ∈ V.roots.cells → c.live = true → c ∈ V'.roots.cells)
    (hborn : ∃ p, Reached V.memory V.rootValues p ∧ W.name p = W'.name o) (ho : o ∈ W'.objects) :
    Reached V'.memory V'.rootValues o := by
  obtain ⟨p, hp, hname⟩ := hborn
  obtain ⟨o', ho', hname'⟩ := F.reached_again hl F' hl' hI hroots hp
  rwa [← F'.name_inj (F'.mem_of_reached hl' ho') ho (hname'.trans hname)]

end

end HeapView

/-! ## 2. Until the choice -/

namespace RegionHeap

open HeapView

/-- A heap outside of cycles, with no mutator at the safepoint. -/
structure Resting (h : RegionHeap) (W : World) : Prop where
  inv : h.view.Inv W .idle []
  inStage : h.view.InStage .idle
  loose : W.loose = ∅
  joined : h.view.joined = 0
  pending : h.view.pending = false

/-- The steps of a cycle until it has chosen.  Gives whether it goes on. -/
def choosing : Action RegionHeap Bool := do
  if !(← initMark) then
    return false
  else if !(← concurrentMark) then
    return false
  else
    finalMark

/-- What a cycle that began at `h` has chosen. -/
structure Decided (h : RegionHeap) (W : World) (goesOn : Bool) (m : RegionHeap) : Prop where
  going : goesOn = true → m.view.Inv (W.atMark h.view) .chosen [] ∧ m.view.InStage .chosen
  finished : goesOn = false → m.view.Inv (W.atMark h.view) .idle [] ∧ m.view.InStage .idle
  steady : Steady h.view m.view
  cancel : m.view.cancelRequested = false
  memory : m.view.memory = h.view.memory
  rootValues : m.view.rootValues = h.view.rootValues
  unkept : ∀ i, (m.view.region i).evacFailed = false
  thorough : h.view.options.heuristics = .aggressive → ∀ {o}, m.view.Published o →
    ¬ m.view.InDemand (m.view.index o) → m.view.Relocating o ∨ o ∈ (W.atMark h.view).objects

section
variable {h m : RegionHeap} {W : World} {b : Bool} {o : Nat}

/-- The objects of the world are those that are reachable at the choice. -/
theorem Decided.mem_objects (D : Decided h W b m) :
    o ∈ (W.atMark h.view).objects ↔ Reached m.view.memory m.view.rootValues o := by
  rw [D.memory, D.rootValues]
  rfl

/-- **A cycle chooses**, for nobody is there to cancel it. -/
theorem Resting.decided (R : Resting h W) :
    ∃ h₁ h₂ b m, initMark h = .ok true h₁ ∧ concurrentMark h₁ = .ok true h₂ ∧
      finalMark h₂ = .ok b m ∧ Decided h W b m := by
  obtain ⟨_, h₁, hinit, rfl, B⟩ := ends_initMark R.inv R.inStage R.loose R.joined
  have hj₁ : h₁.view.joined = 0 := B.stepped.joined.trans R.joined
  obtain ⟨b₂, h₂, hmark, S₂, hyes, hno⟩ := ends_concurrentMark B.inv B.inStage hj₁
  cases b₂ with
  | false =>
    have hcancel := (hno rfl).1
    rw [B.cancel] at hcancel
    cases hcancel
  | true =>
    obtain ⟨I₂, M⟩ := hyes rfl
    have hs₂ : h₂.view.InStage .marking := M.inStage B.inStage
    obtain ⟨b, m, hfinal, S₃, hgoing, hover, hmarked⟩ :=
      ends_finalMark I₂ hs₂ (S₂.joined.trans hj₁)
    have hcancel : h₂.view.cancelRequested = false := by
      rw [M.frame]
      exact B.cancel
    have hroots : h₂.view.roots = h₁.view.roots := by
      rw [M.frame]
    have X := hmarked hcancel
    have S := (B.stepped.toSteady.trans S₂.toSteady).trans S₃.toSteady
    refine ⟨h₁, h₂, b, m, hinit, hmark, hfinal, hgoing, hover, S, X.cancel.trans hcancel,
      X.memory.trans (M.memory.trans B.memory), ?_, X.unkept, fun ho {o} => ?_⟩
    · rw [HeapView.rootValues, X.roots, X.memory, hroots, M.memory]
      exact B.rootValues
    · have hopt : h₂.view.options = h.view.options :=
        S₂.options.trans B.stepped.options
      exact X.thorough (M.surveyed B.surveyed) (hopt ▸ ho)

end

/-! ## 3. After the choice -/

/-- What the steps after the choice have done, from `m` on. -/
structure Compacted (m : RegionHeap) (W : World) (e : RegionHeap) (W' : World) : Prop where
  inv : e.view.Inv W' .idle []
  inStage : e.view.InStage .idle
  steady : Steady m.view e.view
  ideal : W'.ideal = W.ideal
  loose : W'.loose = W.loose
  born : ∀ {o}, o ∈ W'.objects → ∃ p ∈ W.objects, W.name p = W'.name o
  /-- If every object found room, the regions that were relocated are empty. -/
  emptied : e.failures = m.failures → ∀ {o}, m.view.Published o → m.view.Relocating o →
    (e.view.region (m.view.index o)).state = .empty
  /-- If every object found room, what is left is at its newest address, or was not relocated. -/
  left : e.failures = m.failures → ∀ {o}, e.view.Published o →
    o ∈ W'.objects ∨ (m.view.Published o ∧ ¬ m.view.Relocating o ∧ o ∉ W.objects)

section
variable {h m : RegionHeap} {W : World} {o : Nat}

/-- **The relocation** empties what was chosen, if every object found room. -/
theorem ends_relocate (I : m.view.Inv W .chosen []) (hs : m.view.InStage .chosen)
    (hl : W.loose = ∅) (hj : m.view.joined = 0)
    (hk : ∀ i, (m.view.region i).evacFailed = false) :
    Ends relocate m fun _ e => ∃ W', Compacted m W e W' := by
  simp only [relocate, ends_bind]
  refine (ends_evacuate I hs hj).mono ?_
  rintro _ v ⟨N, W', E⟩
  refine ((ends_updateRefs E.inv E.inStage).and_after (keeps_failures_updateRefs v)).mono ?_
  rintro _ u ⟨⟨S, Iu, hsu, -, hframe⟩, hfu⟩
  have hlu : W'.loose = ∅ := E.loose.trans hl
  have hju : u.view.joined = 0 := S.joined.trans (E.stepped.joined.trans hj)
  refine ((ends_recycle Iu hlu hsu hju).and_after (keeps_failures_recycle u)).mono ?_
  rintro _ e ⟨⟨R, Ie, hse⟩, hfe⟩
  have hregion : u.view.region = v.view.region := by rw [hframe]
  have hindex (b : Nat) : u.view.index b = v.view.index b := by
    rw [hframe]
    rfl
  -- A region that is relocated at the end of the evacuation is empty at the end of the cycle.
  have hempty (hf : e.failures = m.failures) {o : Nat} (hr : v.view.Relocating o) :
      (e.view.region (v.view.index o)).state = .empty := by
    have hv : v.failures = m.failures := (Eq.trans hfe hfu).symm.trans hf
    refine R.freed _ ?_ ?_
    · rw [hregion]
      exact hr
    · rw [hregion, N.kept hv]
      exact hk _
  refine ⟨W', Ie, hse, (E.stepped.toSteady.trans S.toSteady).trans R.toSteady, E.ideal, E.loose,
    E.born, fun hf o hp hr => ?_, fun hf o hp => ?_⟩
  · rw [← E.index]
    exact hempty hf ((E.relocating hp).2 hr)
  · have hv : v.view.Published o := by
      have hu := R.published hp
      rw [hframe] at hu
      exact hu
    have hstays : ¬ v.view.Relocating o := fun hr => by
      have hidx : e.view.index o = v.view.index o := (R.index o).trans (hindex o)
      have hstate : (e.view.regionOf o).state = .empty := by
        rw [regionOf, hidx]
        exact hempty hf hr
      exact (Ie.layout.bounds hp).state hstate
    rcases E.fresh hv with hm | hm | ⟨c, hm⟩
    · have hm' : ¬ m.view.Relocating o := mt (E.relocating hm).2 hstays
      by_cases ho : o ∈ W.objects
      · exact .inl (E.current ⟨ho, fun hr => absurd hr hm'⟩).1
      · exact .inr ⟨hm, hm', ho⟩
    · exact .inl hm
    · exact absurd hm.relocating hstays

end

/-! ## 4. Whole cycles -/

/-- What a cycle has reclaimed that had chosen in `m` and ended in `e`. -/
structure Reclaimed (m e : RegionHeap) : Prop where
  emptied : ∀ {o}, m.view.Published o → ¬ Reached m.view.memory m.view.rootValues o →
    ¬ m.view.InDemand (m.view.index o) → (e.view.region (m.view.index o)).state = .empty
  left : ∀ {o}, e.view.Published o → ¬ m.view.InDemand (m.view.index o) →
    Reached e.view.memory e.view.rootValues o

/-- The heap is outside of cycles as before, with the same options. -/
def StillRests (h h' : RegionHeap) : Prop :=
  (∃ W, Resting h' W) ∧ h'.view.options = h.view.options

section
variable {h h' h'' : RegionHeap} {W : World}

/-- **A cycle reclaims all that it may**, under the aggressive rules and if every object found
room. -/
theorem Resting.cycle (R : Resting h W) : ∃ b m e, choosing h = .ok b m ∧ cycle h = .ok true e ∧
    Steady h.view m.view ∧ StillRests h e ∧
    (h.view.options.heuristics = .aggressive → e.failures = m.failures → Reclaimed m e) := by
  obtain ⟨h₁, h₂, b, m, hinit, hmark, hfinal, D⟩ := R.decided
  have hchoosing : choosing h = .ok b m := by
    rw [choosing, bind_of_ok hinit]
    exact (bind_of_ok hmark).trans hfinal
  have hcycle : RegionHeap.cycle h = (do
      if !b then
        let h ← (get : Action RegionHeap RegionHeap)
        return !h.cancelRequested
      else
        relocate
        return true) m := by
    rw [RegionHeap.cycle, bind_of_ok hinit]
    refine (bind_of_ok hmark).trans ?_
    exact bind_of_ok hfinal
  have hj : m.view.joined = 0 := D.steady.joined.trans R.joined
  have hp : m.view.pending = false := D.steady.pending R.pending
  have F := R.inv.faithful
  cases b with
  | false =>
    obtain ⟨I, hs⟩ := D.finished rfl
    have hcancel : m.cancelRequested = false := D.cancel
    refine ⟨false, m, m, hchoosing, ?_, D.steady,
      ⟨⟨_, I, hs, R.loose, hj, hp⟩, D.steady.options⟩, fun ha _ => ⟨fun ho hr hd => ?_, fun ho hd => ?_⟩⟩
    · rw [hcycle]
      show EStateM.Result.ok (!m.cancelRequested) m = _
      rw [hcancel]
      rfl
    · rcases D.thorough ha ho hd with h | h
      · exact absurd h ((I.faithful.states _).2 rfl)
      · exact absurd (D.mem_objects.1 h) hr
    · rcases D.thorough ha ho hd with h | h
      · exact absurd h ((I.faithful.states _).2 rfl)
      · exact D.mem_objects.1 h
  | true =>
    obtain ⟨I, hs⟩ := D.going rfl
    obtain ⟨u, e, hrelocate, W', M⟩ := ends_relocate I hs R.loose hj D.unkept
    have S := D.steady.trans M.steady
    have hl : W'.loose = ∅ := M.loose.trans R.loose
    refine ⟨true, m, e, hchoosing, ?_, D.steady, ⟨⟨W', M.inv, M.inStage, hl,
      S.joined.trans R.joined, S.pending R.pending⟩, S.options⟩,
      fun ha hf => ⟨fun ho hr hd => ?_, fun {o} ho hd => ?_⟩⟩
    · rw [hcycle]
      exact bind_of_ok hrelocate
    · refine M.emptied hf ho ((D.thorough ha ho hd).resolve_right fun h => ?_)
      exact hr (D.mem_objects.1 h)
    · have hmem : o ∈ W'.objects := by
        refine (M.left hf ho).resolve_right ?_
        rintro ⟨hm, hrel, hw⟩
        exact (D.thorough ha hm hd).elim hrel hw
      exact F.reached_of_mem R.loose M.inv.faithful hl M.ideal (fun hc => S.handles hc)
        (M.born hmem) hmem

theorem StillRests.congr (S : StillRests h h') (hv : h''.view = h'.view) : StillRests h h'' := by
  obtain ⟨⟨W, R⟩, ho⟩ := S
  exact ⟨⟨W, hv ▸ R.inv, hv ▸ R.inStage, R.loose, hv ▸ R.joined, hv ▸ R.pending⟩, hv ▸ ho⟩

theorem StillRests.ends_setController (S : StillRests h h') {c : Controller} :
    Ends (setController c) h' fun _ => StillRests h := ends_modify.2 (S.congr rfl)

theorem StillRests.ends_note (S : StillRests h h') {e : Event} :
    Ends (note e) h' fun _ => StillRests h := ends_modify.2 (S.congr rfl)

/-- A cycle of the controller completes. -/
theorem StillRests.ends_survives (S : StillRests h h') :
    Ends survives h' fun b h'' => b = true ∧ StillRests h h'' := by
  obtain ⟨⟨W, R⟩, ho⟩ := S
  obtain ⟨b, m, e, -, hcycle, -, ⟨hrests, hopt⟩, -⟩ := R.cycle
  refine ⟨true, e, ?_, rfl, hrests, hopt.trans ho⟩
  unfold survives
  rw [hcycle]

theorem StillRests.ends_proceed (S : StillRests h h') :
    Ends proceed h' fun _ => StillRests h := by
  unfold proceed
  refine ends_bind.2 (ends_get.2 ?_)
  cases h'.controller with
  | none => exact ends_pure.2 S
  | some c =>
    refine ends_ite.2 ⟨fun _ => ?_, fun _ => ends_pure.2 S⟩
    refine ends_bind.2 (S.ends_setController.mono fun _ h₁ S₁ => ?_)
    refine ends_bind.2 (S₁.ends_survives.mono ?_)
    rintro _ h₂ ⟨rfl, S₂⟩
    exact ends_pure.2 S₂

theorem StillRests.ends_takeUp (S : StillRests h h') : Ends takeUp h' fun _ => StillRests h := by
  unfold takeUp
  refine ends_bind.2 (ends_get.2 ?_)
  cases h'.controller with
  | none => exact ends_pure.2 S
  | some c =>
    obtain ⟨pending, busy, stopped⟩ := c
    cases pending with
    | none => exact ends_pure.2 S
    | some cause =>
      refine ends_ite.2 ⟨fun _ => ?_, fun _ => ends_pure.2 S⟩
      exact ends_bind.2 (S.ends_setController.mono fun _ h₁ S₁ => S₁.ends_note)

/-- **What the controller serves first** leaves the heap outside of cycles. -/
theorem Resting.ends_settle (R : Resting h W) : Ends settle h fun _ => StillRests h := by
  have S : StillRests h h := ⟨⟨W, R⟩, rfl⟩
  refine ends_bind.2 (S.ends_proceed.mono fun _ h₁ S₁ => ?_)
  exact ends_bind.2 (S₁.ends_takeUp.mono fun _ h₂ S₂ => S₂.ends_proceed)

/-- The steps of `runCycle` until the cycle has chosen. -/
def choosingFor (cause : Cause) : Action RegionHeap Bool := do
  settle
  note (.cycleRequested cause)
  choosing

/-- **A cycle that was asked for** reclaims all that it may, also after others that the controller
runs first. -/
theorem Resting.runCycle (R : Resting h W) (cause : Cause) : ∃ b m e, choosingFor cause h = .ok b m ∧
    runCycle cause h = .ok true e ∧ m.view.joined = 0 ∧ m.view.pending = false ∧
    StillRests h e ∧
    (h.view.options.heuristics = .aggressive → e.failures = m.failures → Reclaimed m e) := by
  obtain ⟨_, h₁, hsettle, S₁⟩ := R.ends_settle
  obtain ⟨_, h₂, hnote, ⟨W₂, R₂⟩, hopt₂⟩ := S₁.ends_note (e := .cycleRequested cause)
  obtain ⟨b, m, e, hchoosing, hcycle, S, ⟨hrests, hopt⟩, hall⟩ := R₂.cycle
  refine ⟨b, m, e, ?_, ?_, S.joined.trans R₂.joined, S.pending R₂.pending,
    ⟨hrests, hopt.trans hopt₂⟩, hopt₂ ▸ hall⟩
  · exact (bind_of_ok hsettle).trans ((bind_of_ok hnote).trans hchoosing)
  · exact (bind_of_ok hsettle).trans ((bind_of_ok hnote).trans hcycle)

end

end RegionHeap

/-! ## 5. Cycles after any program -/

namespace Session

open HeapView

section
variable {s : Session} {W : World} {k : Command} {o : Options}

/-- **A cycle between the commands of a program.** -/
theorem SoundWith.reclaims (S : s.SoundWith o) (hidle : s.stage = .idle)
    (ha : o.heuristics = .aggressive) (cause : Cause) : ∃ goesOn m e,
    Mutator.allParked (RegionHeap.choosingFor cause) s.heap = .ok goesOn m ∧
    Mutator.allParked (RegionHeap.runCycle cause) s.heap = .ok true e ∧
    (e.failures = m.failures → RegionHeap.Reclaimed m e) := by
  obtain ⟨⟨W, S⟩, ho⟩ := S
  have R : (Mutator.withJoined s.heap 0).Resting W :=
    ⟨hidle ▸ S.inv.setControl, hidle ▸ S.inStage, S.loose, rfl, S.pending⟩
  obtain ⟨b, m, e, hm, he, hjm, hpm, ⟨⟨W', R'⟩, -⟩, hall⟩ := R.runCycle cause
  have hparkedm : Ends (Mutator.allParked (RegionHeap.choosingFor cause)) s.heap fun goesOn m' =>
      goesOn = b ∧ m' = Mutator.withJoined m s.heap.view.joined :=
    Mutator.ends_allParked S.joined ⟨b, m, hm, hjm, hpm, rfl, rfl⟩
  have hparkede : Ends (Mutator.allParked (RegionHeap.runCycle cause)) s.heap fun completed e' =>
      completed = true ∧ e' = Mutator.withJoined e s.heap.view.joined :=
    Mutator.ends_allParked S.joined ⟨true, e, he, R'.joined, R'.pending, rfl, rfl⟩
  obtain ⟨_, _, hm', rfl, rfl⟩ := hparkedm
  obtain ⟨_, _, he', rfl, rfl⟩ := hparkede
  refine ⟨_, _, _, hm', he', fun hf => ?_⟩
  have hreclaimed := hall (ho ▸ ha) hf
  exact ⟨hreclaimed.emptied, hreclaimed.left⟩

end

section
variable {place : Place} {o : Options} {h : RegionHeap} {cs : List Command}

/-- **A cycle reclaims everything that it may.**  Take any permitted program under the aggressive
rules that ends outside of cycles, and the cycle that is run then, of which `m` is the heap when it
has chosen and `e` when it is over.  If every evacuation found room, each region that held garbage
when the cycle chose is empty, unless it was in demand, and there is no garbage left but in regions
that were. -/
theorem reclaims_all (hb : AnyHeap.build place o = .ok (.ok (.region h)))
    (ho : o.heuristics = .aggressive) (hp : Permitted execute Allows cs (start h)) :
    ∃ as s, Action.runAll execute cs (start h) = .ok as s ∧
      (s.stage = .idle → ∀ cause, ∃ goesOn m e,
        Mutator.allParked (RegionHeap.choosingFor cause) s.heap = .ok goesOn m ∧
        Mutator.allParked (RegionHeap.runCycle cause) s.heap = .ok true e ∧
        (e.cycleStats.evacuationFailures = m.cycleStats.evacuationFailures →
          (∀ x, m.view.Published x → ¬ Reached m.view.memory m.view.rootValues x →
            ¬ m.view.InDemand (m.view.index x) →
            (e.view.region (m.view.index x)).state = .empty) ∧
          ∀ x, e.view.Published x → ¬ m.view.InDemand (m.view.index x) →
            Reached e.view.memory e.view.rootValues x)) := by
  have hstart : (start h).SoundWith o := ⟨⟨_, sound_start hb⟩, RegionHeap.options_of_build hb⟩
  obtain ⟨as, s, hrun, S⟩ := ends_runAll_inv (fun _ _ S => S.ends_execute) hstart hp
  refine ⟨as, s, hrun, fun hidle cause => ?_⟩
  obtain ⟨b, m, e, hm, he, hall⟩ := S.reclaims hidle ho cause
  refine ⟨b, m, e, hm, he, fun hf => ?_⟩
  have R := hall hf
  exact ⟨fun _ => R.emptied, fun _ => R.left⟩

/-- The region of the program that is full of garbage is chosen, and what is kept of it finds room. -/
theorem reclaims_all_relocation : ∃ h as s m e,
    AnyHeap.build Place.first smallHeap = .ok (.ok (.region h)) ∧
    smallHeap.heuristics = .aggressive ∧
    Permitted execute Allows (relocation.take 9) (start h) ∧
    Action.runAll execute (relocation.take 9) (start h) = .ok as s ∧ s.stage = .idle ∧
    Mutator.allParked (RegionHeap.choosingFor .userRequested) s.heap = .ok true m ∧
    Mutator.allParked (RegionHeap.runCycle .userRequested) s.heap = .ok true e ∧
    e.cycleStats.evacuationFailures = m.cycleStats.evacuationFailures ∧
    (∀ x, m.view.Published x → ¬ Reached m.view.memory m.view.rootValues x →
      ¬ m.view.InDemand (m.view.index x) →
      (e.view.region (m.view.index x)).state = .empty) ∧
    ∀ x, e.view.Published x → ¬ m.view.InDemand (m.view.index x) →
      Reached e.view.memory e.view.rootValues x := by
  obtain ⟨h, hb, hc⟩ := builds_iff.1 (show builds Place.first smallHeap (fun h =>
    decide (Permitted execute Allows (relocation.take 9) (start h)) &&
    decide (Ends (Action.runAll execute (relocation.take 9)) (start h) fun _ s =>
      s.stage = .idle ∧
      Ends (Mutator.allParked (RegionHeap.choosingFor .userRequested)) s.heap fun goesOn m =>
        goesOn = true ∧
        Ends (Mutator.allParked (RegionHeap.runCycle .userRequested)) s.heap fun _ e =>
          e.cycleStats.evacuationFailures = m.cycleStats.evacuationFailures)) = true by
      decide +kernel)
  rw [Bool.and_eq_true, decide_eq_true_eq, decide_eq_true_eq] at hc
  obtain ⟨hp, hends⟩ := hc
  obtain ⟨as, s, hrun, hall⟩ := reclaims_all hb rfl hp
  obtain ⟨hidle, hchoice⟩ := hends.of_ok hrun
  obtain ⟨_, m, e, hm, he, hgain⟩ := hall hidle .userRequested
  obtain ⟨rfl, hcycle⟩ := hchoice.of_ok hm
  have hf := hcycle.of_ok he
  exact ⟨h, as, s, m, e, hb, rfl, hp, hrun, hidle, hm, he, hf, hgain hf⟩

end

end Session

end ManagedHeap
