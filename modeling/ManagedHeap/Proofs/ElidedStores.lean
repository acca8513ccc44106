/-
# Stores without stubs

Compiled code leaves out the stubs of a store to an object that it has just allocated
(`StubTable.guards`).  Such a store is *bare*: what the field held is not recorded, and what is
stored is not resolved, so that the field may be given a reference to an older copy.

Nothing is lost that was not recorded, since a new object is no part of the snapshot.  What was not
resolved is resolved when references are updated, if the update looks at the object, that is if it
counts as live.  It does when it was published while marking ran, and when it is above the snapshot.
But a cycle begins with the buffers that the mutators have.  What is left of them is below the
snapshot, and an object that is published there when marking is over counts as dead until the next
cycle.  The update passes it by, and what was stored in it bare is lost with the region that it is
in (`bare_store_lost`).  Nothing else goes wrong (`bare_stores_repaired`).

* Section 1: stores as they are emitted.
* Section 2: programs with bare stores.
* Section 3: what holds of the objects that are published in a cycle.
* Section 4: what the update of references makes of them.
* Section 5: a store that is not repaired.
-/
import ManagedHeap.Proofs.CompiledCode
import ManagedHeap.Proofs.ExactMarking
import ManagedHeap.Proofs.Operands
import ManagedHeap.Proofs.ReferenceUpdate

namespace ManagedHeap

/-! ## 1. Stores as they are emitted -/

namespace Compiled

open RegionHeap

/-- The stubs of a heap that relocates. -/
def stubs : StubTable := .forConstraints .shenandoah

/-- The stub for an access is called, if it has one. -/
def guarded (site : AccessSite) (f : Frame) : Action RegionHeap Frame :=
  if stubs.guards site then callStub true site.kind f else return f

/-- A store as it is emitted, to an object that is known to be new or not. -/
def storeAt (isNew : Bool) (f : Frame) : Action RegionHeap Unit := do
  let f ← guarded ⟨.storePre, isNew⟩ f
  storeSlot f.slot f.scratch₀
  let _ ← guarded ⟨.storePost, isNew⟩ f

/-- **A store to a new object is bare**, and any other goes through its stubs. -/
theorem storeAt_eq (isNew : Bool) (f : Frame) :
    storeAt isNew f = if isNew then storeSlot f.slot f.scratch₀ else store f := by
  cases isNew with
  | false => rfl
  | true => rfl

end Compiled

/-! ## 2. Programs with bare stores -/

/-- An access of compiled code publishes no object. -/
theorem CompiledAccess.after_run (a : CompiledAccess) (ref : Nat → Nat) (h : RegionHeap) :
    After (a.run ref) h fun r _ => r.created = [] := by
  cases a with
  | load | store | compareAndSwap | copyPre | copyPost | clonePre =>
    exact after_second fun _ _ => after_pure.2 rfl

/-- What a program does next, of which parts are compiled. -/
inductive BareTask where
  | task (t : Task)
  /-- A store of `v` to a field of the new object at `x`. -/
  | store (x i v : Nat)
  deriving DecidableEq, Repr

namespace Session

open HeapView RegionHeap

/-- A bare store. -/
def storeBare (x i v : Nat) : Action Session Answer := do
  onHeap (Compiled.storeAt true { base := x, slot := Object.field x i, scratch₀ := v })
  return .done

/-- Run a task. -/
def runBare : BareTask → Action Session Answer
  | .task t => runTask t
  | .store x i v => storeBare x i v

/-- The newest copy of an object that was published since the cycle began. -/
def IsNew (s : Session) (x : Nat) : Prop :=
  s.heap.Canonical x ∧ ∃ y ∈ s.young, Object.resolve s.heap.core.memory y = x

instance (s : Session) (x : Nat) : Decidable (s.IsNew x) := by
  unfold IsNew
  infer_instance

/-- What compiled code may store bare: while a cycle goes on and references are not yet updated,
null or any copy of a live object, into a new object. -/
structure AllowsStore (s : Session) (x i v : Nat) : Prop where
  stage : s.stage = .marking ∨ s.stage = .chosen ∨ s.stage = .copied
  isNew : s.IsNew x
  bound : i < Object.refCount s.heap.core.memory x
  operand : s.Operand v

/-- What a program may do next. -/
def AllowsBare (s : Session) : BareTask → Prop
  | .task t => s.AllowsTask t
  | .store x i v => s.AllowsStore x i v

/-- The update of references looks at the object that is stored in, or has nothing to do with what
is stored. -/
def Covers (s : Session) : BareTask → Prop
  | .task _ => True
  | .store x _ v => s.heap.view.Live x ∨ v = null ∨ s.heap.Canonical v

/-! ## 3. Objects that are published in a cycle -/

/-- What holds between two tasks.  What was published since the cycle began are objects of the
program, and no part of the snapshot. -/
structure Growing (s : Session) (W : World) : Prop where
  sound : s.Sound W
  refers : s.stage ≠ .idle → ∀ x ∈ s.young, s.heap.view.Refers W x
  fresh : s.stage = .marking → ∀ x ∈ s.young, ¬ W.Base x

section
variable {s : Session} {W W' : World} {h' : RegionHeap} {op : Operation} {a b : Answer}
  {I : IdealHeap} {c : CycleStep} {t : BareTask} {x i v : Nat}

/-- A program that is given nothing has what it had. -/
theorem record_done (s : Session) : s.record .poll .done = s := by
  simp [record, handlesAfter, mutatorsAfter, Answer.references, Answer.created]

/-- An operation adds what it publishes. -/
theorem Growing.of_performed (G : s.Growing W)
    (P : s.heap.view.Performed W h'.view W' s.stage op a b I)
    (hnew : ∀ p ∈ a.created, h'.view.Refers W' p ∧ (s.stage = .marking → ¬ W'.Base p)) :
    (({ s with heap := h' }).record op a).Growing W' where
  sound := (G.sound.record P).1
  refers hst p hp := by
    rcases List.mem_append.1 hp with hp | hp
    · exact (P.persists.refers (G.refers hst p hp)).1
    · exact (hnew p hp).1
  fresh hst p hp := by
    rcases List.mem_append.1 hp with hp | hp
    · rw [World.Base, P.persists.snapshot, P.persists.rootValues]
      exact G.fresh hst p hp
    · exact (hnew p hp).2 hst

/-- **An operation.** -/
theorem Growing.ends_perform (G : s.Growing W) (ha : s.AllowsOperation op) :
    Ends (perform op) s fun _ s' => ∃ W', s'.Growing W' := by
  have F := G.sound.inv.faithful
  refine (G.sound.ends_perform ha).mono ?_
  rintro a _ ⟨h', W', b, I, rfl, hb, P⟩
  refine ⟨W', G.of_performed P fun p hp => ?_⟩
  obtain ⟨hr, hname⟩ := P.created hb F.count_pos hp
  refine ⟨hr, fun hst hbase => ?_⟩
  -- What is in the snapshot had an identity before.
  rw [World.Base, P.persists.snapshot, P.persists.rootValues] at hbase
  have hm : p ∈ W.objects := (G.sound.inv.snapshot hst).base_mem hbase
  have hlt := F.name_lt hm
  have hold := (P.persists.refers (.inl hm)).2
  omega

/-- **An access with its stubs.** -/
theorem Growing.ends_access {ac : CompiledAccess} (G : s.Growing W) (ha : s.AllowsAccess ac) :
    Ends (access ac) s fun _ s' => ∃ W', s'.Growing W' := by
  simp only [access, onHeap, ends_bind, ends_get, ends_onPart, ends_modify, ends_pure]
  refine (G.sound.ends_runAccess ha).and_after (ac.after_run s.reference s.heap) |>.mono ?_
  rintro r h' ⟨⟨W', b, I, P⟩, hr⟩
  refine ⟨W', G.of_performed P fun p hp => ?_⟩
  rw [hr] at hp
  cases hp

/-- **A step of a cycle.**  The first forgets what was published before. -/
theorem Growing.ends_advance (G : s.Growing W) (ha : s.stage = c.stage) :
    Ends (advance c) s fun _ s' => ∃ W', s'.Growing W' := by
  have F := G.sound.inv.faithful
  refine (G.sound.ends_advance ha).mono ?_
  rintro b _ ⟨h', W', rfl, A, hf, -, -, hW⟩
  refine ⟨W', (G.sound.enter A).1, ?_, ?_⟩
  · intro hst x hx
    show h'.view.Refers W' x
    have hold (hst : s.stage ≠ .idle) (hc : c ≠ .initMark) : s.heap.view.Refers W x :=
      G.refers hst x (by rwa [enter, if_neg hc] at hx)
    cases c with
    | initMark => cases hx
    | concurrentMark | finalMark =>
      obtain rfl := hW (by decide) (by decide)
      have hr := hold (by rw [ha]; decide) (by decide)
      exact .inl (F.current_of_calm (by rw [ha]; rfl) hr).1
    | evacuate | updateRefs =>
      exact ((hf rfl).2.refers (hold (by rw [ha]; decide) (by decide))).1
    | recycle => cases b <;> exact absurd rfl hst
  · intro hst x hx
    cases c with
    | initMark => cases hx
    | concurrentMark =>
      obtain rfl := hW (by decide) (by decide)
      exact G.fresh ha x hx
    | finalMark | evacuate | updateRefs | recycle => cases b <;> cases hst

/-- **A request to cancel.** -/
theorem Growing.ends_cancel (G : s.Growing W) :
    Ends (onHeap RegionHeap.cancel) s fun _ s' => s'.Growing W := by
  refine G.sound.ends_cancel.mono ?_
  rintro _ _ ⟨S, -, h', d, rfl, hv⟩
  refine ⟨S, fun hst x hx => ?_, G.fresh⟩
  have E : s.heap.view.Follows W h'.view W := by
    rw [hv]
    exact .of_eq rfl rfl rfl rfl
  exact (E.refers (G.refers hst x hx)).1

/-- What is stored bare is what a field may hold, where the update of references looks. -/
theorem Growing.fieldOk (G : s.Growing W) (ha : s.AllowsStore x i v)
    (hc : s.Covers (.store x i v)) :
    s.heap.view.FieldOk W s.stage x v := by
  have I := G.sound.inv
  rcases G.sound.operand ha.operand with h0 | hv
  · exact .inl h0
  · rcases hc with hl | h0 | hcan
    · cases hs : s.stage.stale with
      | true => exact .inr (.inr ⟨hv, .inl ⟨hs, hl⟩⟩)
      | false =>
        have hmark : s.stage = .marking := by
          rcases ha.stage with hst | hst | hst
          · exact hst
          · rw [hst] at hs
            cases hs
          · rw [hst] at hs
            cases hs
        exact .inr (.inl (I.faithful.current_of_calm (by rw [hmark]; rfl) hv))
    · exact .inl h0
    · exact .inr (.inl ((canonical_iff I hv).1 hcan))

/-- **A bare store** into an object that the update of references looks at is one of the ideal
heap. -/
theorem Growing.ends_storeAt (G : s.Growing W) (ha : s.AllowsStore x i v)
    (hc : s.Covers (.store x i v)) :
    Ends (Compiled.storeAt true { base := x, slot := Object.field x i, scratch₀ := v }) s.heap
      fun _ h' => ∃ W', s.heap.view.Simulates W h'.view W' s.stage []
        (W.ideal.setField (W.name x) i (W.name v)) := by
  have I := G.sound.inv
  have F := I.faithful
  obtain ⟨y, hy, hyx⟩ := ha.isNew.2
  have hst : s.stage ≠ .idle := by
    rintro hst
    rcases ha.stage with h | h | h <;> rw [hst] at h <;> cases h
  have hry : s.heap.view.Refers W y := G.refers hst y hy
  have hx : x ∈ W.objects := hyx ▸ (F.resolve_refers I.layout hry).1
  -- The object is no part of the snapshot, so nothing has to be recorded.
  have hbase (hmark : s.stage = .marking) : ¬ W.Base x := by
    have hcur : s.heap.view.Current W y := F.current_of_calm (by rw [hmark]; rfl) hry
    have hxy : x = y := hyx.symm.trans (F.resolve_current I.layout hcur)
    exact hxy ▸ G.fresh hmark y hy
  rw [Compiled.storeAt_eq, if_pos rfl, ends_storeSlot]
  have I' := I.storeField (x := v) hx ha.bound (Set.Subset.refl W.loose) (G.fieldOk ha hc)
    fun hmark hb => absurd hb (hbase hmark)
  have E := Evolves.storeField (x := v) I hx ha.bound
  exact ⟨_, I', E, rfl⟩

theorem Growing.ends_storeBare (G : s.Growing W) (ha : s.AllowsStore x i v)
    (hc : s.Covers (.store x i v)) :
    Ends (storeBare x i v) s fun _ s' => ∃ W', s'.Growing W' := by
  simp only [storeBare, onHeap, ends_bind, ends_onPart, ends_pure]
  refine (G.ends_storeAt ha hc).mono ?_
  rintro _ h' ⟨W', S⟩
  have G' := G.of_performed (S.done .poll) fun p hp => by cases hp
  rw [record_done] at G'
  exact ⟨W', G'⟩

/-- **A task** whose stores are covered. -/
theorem Growing.ends_runBare (G : s.Growing W) (ha : s.AllowsBare t) (hc : s.Covers t) :
    Ends (runBare t) s fun _ s' => ∃ W', s'.Growing W' := by
  cases t with
  | task t =>
    cases t with
    | command c =>
      cases c with
      | operation op => exact G.ends_perform ha
      | step c =>
        simp only [runBare, runTask, execute, ends_bind, ends_pure]
        exact G.ends_advance ha
      | cancel =>
        simp only [runBare, runTask, execute, ends_bind, ends_pure]
        exact G.ends_cancel.mono fun _ _ h => ⟨W, h⟩
    | access ac => exact G.ends_access ha
  | store x i v => exact G.ends_storeBare ha hc

end

/-! ## 4. The update of references -/

/-- What a field of the object at `x` holds. -/
def fieldAt (s : Session) (x i : Nat) : Nat := s.heap.core.memory.read (Object.field x i)

/-- What the update of references, from `s` to `t`, and the end of the cycle, to `u`, make of the
object at `x`: each field refers to the newest copy of what it referred to, which is in a region
that is still in use. -/
structure Repaired (s t u : Session) (x : Nat) : Prop where
  canonical : t.heap.Canonical x
  field : ∀ i < Object.refCount s.heap.core.memory x,
    t.fieldAt x i =
      Object.resolve s.heap.core.memory (s.fieldAt x i)
  clean : ∀ i < Object.refCount s.heap.core.memory x,
    t.fieldAt x i = null ∨
      (t.heap.Canonical (t.fieldAt x i) ∧
        (u.heap.view.regionOf (t.fieldAt x i)).state ≠ .empty)
  kept : ∀ i < Object.refCount s.heap.core.memory x,
    u.fieldAt x i = t.fieldAt x i

section
variable {s t u : Session} {W : World} {x i : Nat}

/-- A field of an object, once references are updated. -/
theorem Sound.field_clean (S : t.Sound W) (hst : t.stage = .updated ∨ t.stage = .idle)
    (hx : x ∈ W.objects) (hi : i < Object.refCount t.heap.core.memory x) :
    t.heap.view.Clean W (t.fieldAt x i) ∧
      W.name (t.fieldAt x i) = W.ideal.field (W.name x) i := by
  obtain ⟨hok, hname⟩ := S.inv.faithful.fields hx hi
  refine ⟨?_, hname⟩
  rcases hok with h0 | hcur | ⟨-, hstale | hloose⟩
  · exact .inl h0
  · exact .inr hcur
  · rcases hst with hst | hst <;> rw [hst] at hstale <;> cases hstale.1
  · rw [S.loose] at hloose
    cases hloose

/-- **Every object of the program is repaired.** -/
theorem Sound.repaired (S : s.Sound W) (T : t.Sound W) (U : u.Sound W) (hs : s.stage = .copied)
    (ht : t.stage = .updated) (hu : u.stage = .idle)
    (E : s.heap.view.Follows W t.heap.view W) (hx : x ∈ W.objects) : Repaired s t u x := by
  have I : s.heap.view.Inv W .copied [] := hs ▸ S.inv
  have hcur : t.heap.view.Current W x := E.current (I.faithful.current_of_mem hx)
  have hcount (t : Session) (T : t.Sound W) :
      Object.refCount t.heap.core.memory x = W.ideal.refs (W.name x) := T.inv.faithful.refs hx
  have hfield (i : Nat) (hi : i < Object.refCount s.heap.core.memory x) :=
    T.field_clean (.inl ht) hx (i := i) (by rwa [hcount t T, ← hcount s S])
  have hlast (i : Nat) (hi : i < Object.refCount s.heap.core.memory x) :=
    U.field_clean (.inr hu) hx (i := i) (by rwa [hcount u U, ← hcount s S])
  -- What is clean when references are updated is an object when the cycle ends.
  have hends {w : Nat} (hw : t.heap.view.Current W w) : u.heap.view.Current W w :=
    U.inv.faithful.current_of_calm (by rw [hu]; rfl) (.inl hw.1)
  refine ⟨(canonical_iff T.inv hcur.refers).2 hcur, fun i hi => ?_, fun i hi => ?_, fun i hi => ?_⟩
  · obtain ⟨hclean, hname⟩ := hfield i hi
    obtain ⟨hok, hold⟩ := I.faithful.fields hx hi
    obtain ⟨hnew, hres⟩ := I.clean_resolve (or_iff_not_imp_left.2 hok.refers)
    exact hclean.eq_of_name (E.clean hnew) T.inv.faithful
      (hname.trans (hold.symm.trans hres.symm))
  · refine (hfield i hi).1.imp_right fun hw => ⟨(canonical_iff T.inv hw.refers).2 hw, ?_⟩
    exact (U.inv.layout.bounds (U.inv.faithful.published hw.1)).state
  · obtain ⟨hclean, hname⟩ := hfield i hi
    obtain ⟨hclean', hname'⟩ := hlast i hi
    exact hclean'.eq_of_name (hclean.imp_right hends) U.inv.faithful (hname'.trans hname.symm)

/-- **The update of references and the end of the cycle** repair what was published in it. -/
theorem Growing.repairs (G : s.Growing W) (hst : s.stage = .copied) :
    ∃ a t b u, execute (.step .updateRefs) s = .ok a t ∧ execute (.step .recycle) t = .ok b u ∧
      ∀ x ∈ s.young, Repaired s t u (Object.resolve s.heap.core.memory x) := by
  have S := G.sound
  obtain ⟨b, t, hupdate, h', W', ht, A, hf, -, -, hW⟩ := S.ends_advance (c := .updateRefs) hst
  obtain rfl := hW (by decide) (by decide)
  obtain ⟨rfl, E⟩ := hf rfl
  obtain ⟨T, htst, E⟩ : t.Sound W' ∧ t.stage = .updated ∧
      s.heap.view.Follows W' t.heap.view W' := by
    subst ht
    exact ⟨(S.enter A).1, rfl, E⟩
  obtain ⟨b', u, hrecycle, h'', W'', hu, A', -, -, -, hW'⟩ := T.ends_advance (c := .recycle) htst
  obtain rfl := hW' (by decide) (by decide)
  obtain ⟨U, hust⟩ : u.Sound W'' ∧ u.stage = .idle := by
    subst hu
    exact ⟨(T.enter A').1, by cases b' <;> rfl⟩
  refine ⟨.flag true, t, .flag b', u, ?_, ?_, fun x hx => ?_⟩
  · simp only [execute, bind, EStateM.bind, hupdate, pure, EStateM.pure]
  · simp only [execute, bind, EStateM.bind, hrecycle, pure, EStateM.pure]
  · have hr := G.refers (by rw [hst]; decide) x hx
    exact S.repaired T U hst htst hust E (S.inv.faithful.resolve_refers S.inv.layout hr).1

end

section
variable {place : Place} {o : Options} {h : RegionHeap} {ts : List BareTask}

/-- **Bare stores are repaired.**  A program allocates in a cycle and stores into the new objects
without stubs, null or any copies of live objects, until references are updated.  Provided that an
object counts as live when an older copy is stored in it, the update makes every field of every
object that was published in the cycle refer to the newest copy of what it referred to, and no such
field refers into a region that is then emptied. -/
theorem bare_stores_repaired (hb : AnyHeap.build place o = .ok (.ok (.region h)))
    (hp : Permitted runBare (fun s t => s.AllowsBare t ∧ s.Covers t) ts (start h)) :
    ∃ as s, Action.runAll runBare ts (start h) = .ok as s ∧
      (s.stage = .copied → ∃ a t b u, execute (.step .updateRefs) s = .ok a t ∧
        execute (.step .recycle) t = .ok b u ∧
        ∀ x ∈ s.young, Repaired s t u (Object.resolve s.heap.core.memory x)) := by
  have G : (start h).Growing World.first :=
    ⟨sound_start hb, fun hst => absurd rfl hst, fun hst => by cases hst⟩
  obtain ⟨as, s, hrun, W, G⟩ := ends_runAll_inv (R := fun s => ∃ W, s.Growing W)
    (fun s t ⟨W, G⟩ ha => G.ends_runBare ha.1 ha.2) ⟨_, G⟩ hp
  exact ⟨as, s, hrun, G.repairs⟩

end

/-! ## 5. A store that is not repaired -/

/-- A sufficient condition, for which one only has to look: what is stored counts as live as it
is. -/
def AllowsLive (s : Session) : BareTask → Prop
  | .task t => s.AllowsTask t
  | .store x i v => (s.stage = .marking ∨ s.stage = .chosen ∨ s.stage = .copied) ∧ s.IsNew x ∧
    i < Object.refCount s.heap.core.memory x ∧ s.heap.view.Published v ∧ s.heap.view.Live v

theorem AllowsLive.bare {s : Session} {t : BareTask} (h : s.AllowsLive t) : s.AllowsBare t := by
  cases t with
  | task t => exact h
  | store x i v =>
    obtain ⟨hst, hnew, hi, hp, hl⟩ := h
    exact ⟨hst, hnew, hi, .inr (.inr ⟨hp, v, ⟨rfl, .inr hp⟩, hp, hl⟩)⟩

instance (s : Session) (t : BareTask) : Decidable (s.AllowsLive t) := by
  cases t <;> unfold AllowsLive <;> infer_instance

instance (s : Session) (t : BareTask) : Decidable (s.Covers t) := by
  cases t <;> unfold Covers <;> infer_instance

/-- As in `relocation`, the object that the first root refers to is about to be moved.  An object
with a field is published and rooted, and the address that the first root holds is stored in it. -/
def storeStale (before : List Command) (x : Nat) (h : RegionHeap) : List BareTask :=
  List.map (fun c : Command => .task (.command c))
    (relocation.take 12 ++ before ++ [.operation (.alloc 1 1 0), .operation (.newRoot 0)]) ++
  [.store (h.view.low + x) 0 (h.view.low + 3016), .task (.command (.step .evacuate))]

/-- An object in a new buffer is given a reference to where an object was, and is repaired. -/
theorem bare_stores_repaired_relocation : ∃ h as s,
    AnyHeap.build Place.first smallHeap = .ok (.ok (.region h)) ∧
    Permitted runBare (fun s t => s.AllowsBare t ∧ s.Covers t)
      (storeStale [.operation (.retireTlab 1)] 7624 h) (start h) ∧
    Action.runAll runBare (storeStale [.operation (.retireTlab 1)] 7624 h) (start h) = .ok as s ∧
    s.stage = .copied ∧
    (∃ x ∈ s.young, Object.resolve s.heap.core.memory (s.fieldAt x 0) ≠ s.fieldAt x 0) ∧
    ∃ a t b u, execute (.step .updateRefs) s = .ok a t ∧ execute (.step .recycle) t = .ok b u ∧
      ∀ x ∈ s.young, Repaired s t u (Object.resolve s.heap.core.memory x) := by
  obtain ⟨h, hb, hd⟩ := builds_iff.1 (show builds Place.first smallHeap (fun h =>
    decide (Permitted runBare (fun s t => s.AllowsLive t ∧ s.Covers t)
      (storeStale [.operation (.retireTlab 1)] 7624 h) (start h)) &&
    decide (Ends (Action.runAll runBare (storeStale [.operation (.retireTlab 1)] 7624 h)) (start h)
      fun _ s => s.stage = .copied ∧
        ∃ x ∈ s.young, Object.resolve s.heap.core.memory (s.fieldAt x 0) ≠ s.fieldAt x 0)) = true by
      decide +kernel)
  rw [Bool.and_eq_true, decide_eq_true_eq, decide_eq_true_eq] at hd
  obtain ⟨hlive, hends⟩ := hd
  have hp := hlive.mono fun _ _ ha => And.imp_left AllowsLive.bare ha
  obtain ⟨as, s, hrun, hrepaired⟩ := bare_stores_repaired hb hp
  obtain ⟨hst, hstale⟩ := hends.of_ok hrun
  exact ⟨h, as, s, hb, hp, hrun, hst, hstale, hrepaired hst⟩

/-- **A bare store is lost** in an object from a buffer that is older than the cycle, when marking
was over before the object was published.  After the update of references its field holds what it
held, and not what that resolves to; at the end of the cycle the region that it refers into is
emptied. -/
theorem bare_store_lost : ∃ h, AnyHeap.build Place.first smallHeap = .ok (.ok (.region h)) ∧
    Permitted runBare AllowsBare (storeStale [] 7152 h) (start h) ∧
    ∃ as s a t b u, Action.runAll runBare (storeStale [] 7152 h) (start h) = .ok as s ∧
      s.stage = .copied ∧ execute (.step .updateRefs) s = .ok a t ∧
      execute (.step .recycle) t = .ok b u ∧
      ∃ x ∈ s.young, t.heap.Canonical x ∧ t.fieldAt x 0 = s.fieldAt x 0 ∧
        t.fieldAt x 0 ≠ Object.resolve s.heap.core.memory (s.fieldAt x 0) ∧
        (u.heap.view.regionOf (t.fieldAt x 0)).state = .empty := by
  obtain ⟨h, hb, hd⟩ := builds_iff.1 (show builds Place.first smallHeap (fun h =>
    decide (Permitted runBare AllowsLive (storeStale [] 7152 h) (start h)) &&
    decide (Ends (Action.runAll runBare (storeStale [] 7152 h)) (start h) fun _ s =>
      s.stage = .copied ∧ Ends (execute (.step .updateRefs)) s fun _ t =>
        Ends (execute (.step .recycle)) t fun _ u =>
          ∃ x ∈ s.young, t.heap.Canonical x ∧ t.fieldAt x 0 = s.fieldAt x 0 ∧
            t.fieldAt x 0 ≠ Object.resolve s.heap.core.memory (s.fieldAt x 0) ∧
            (u.heap.view.regionOf (t.fieldAt x 0)).state = .empty)) = true by decide +kernel)
  rw [Bool.and_eq_true, decide_eq_true_eq, decide_eq_true_eq] at hd
  obtain ⟨hlive, as, s, hrun, hst, a, t, hupdate, b, u, hrecycle, hlost⟩ := hd
  exact ⟨h, hb, hlive.mono fun _ _ => AllowsLive.bare, as, s, a, t, b, u, hrun, hst, hupdate,
    hrecycle, hlost⟩

end Session

end ManagedHeap
