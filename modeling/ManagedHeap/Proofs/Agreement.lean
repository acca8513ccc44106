/-
# Two runs that agree

What a mutator does on a heap can be compared with what it does on another one.  Two runs of an
action *agree* if they begin in states that a relation holds of and, should both come to an end,
they give the same result and the relation holds of where they end (`Agrees`).  Nothing is said of a
run that stops with a fault, so the relation may leave out what only decides whether a run goes on.

Mutators reach a heap through the operations of `Heap` only, so heaps of which these operations
agree are heaps on which everything that a mutator does agrees: `Heap.Accords` lists what there is to
prove, and `Heap.Accords.agrees_run` is what follows.

* Section 1: the rules for actions that are put together.
* Section 2: the operations that a heap has.
* Section 3: allocation.
* Section 4: accesses and roots.
* Section 5: mutators, and all that they do.
-/
import ManagedHeap.Proofs.Mutators

namespace ManagedHeap

/-! ## 1. Actions -/

section
variable {σ τ α β : Type}

/-- Two runs of the action that begin in related states and come to an end give the same, and end in
related states. -/
def Agrees (R : σ → σ → Prop) (act : Action σ α) : Prop :=
  ∀ ⦃s t a b s' t'⦄, R s t → act s = .ok a s' → act t = .ok b t' → a = b ∧ R s' t'

/-- A sequence that came to its end. -/
theorem bind_eq_ok {act : Action σ α} {f : α → Action σ β} {s s'' : σ} {b : β} :
    (act >>= f) s = .ok b s'' ↔ ∃ a s', act s = .ok a s' ∧ f a s' = .ok b s'' := by
  constructor
  · intro h
    cases ha : act s with
    | ok a s' =>
      refine ⟨a, s', rfl, ?_⟩
      rwa [bind_of_ok ha] at h
    | error e s' =>
      simp only [bind, EStateM.bind, ha] at h
      cases h
  · rintro ⟨a, s', ha, hb⟩
    rwa [bind_of_ok ha]

/-- An action on a part that came to its end. -/
theorem onPart_eq_ok {get : σ → τ} {put : τ → σ → σ} {act : Action τ α} {s s' : σ} {a : α} :
    act.onPart get put s = .ok a s' ↔ ∃ x, act (get s) = .ok a x ∧ s' = put x s := by
  unfold Action.onPart
  constructor
  · intro h
    cases hact : act (get s) with
    | ok b x =>
      rw [hact] at h
      cases h
      exact ⟨x, rfl, rfl⟩
    | error e x =>
      rw [hact] at h
      cases h
  · rintro ⟨x, hx, rfl⟩
    rw [hx]

variable {R : σ → σ → Prop} {act : Action σ α}

/-- From one state there is one run. -/
theorem agrees_eq : Agrees Eq act := by
  intro s t a b s' t' hst ha hb
  subst hst
  rw [ha] at hb
  cases hb
  exact ⟨rfl, rfl⟩

namespace Agrees

protected theorem pure {a : α} : Agrees R (pure a) := by
  intro s t b c s' t' hR hb hc
  cases hb
  cases hc
  exact ⟨rfl, hR⟩

protected theorem throw {f : Fault} : Agrees R (throw f : Action σ α) := by
  intro s t a b s' t' _ ha
  cases ha

protected theorem lift {x : Except Fault α} : Agrees R (liftM x : Action σ α) := by
  cases x with
  | ok a => exact Agrees.pure
  | error f => exact Agrees.throw

/-- **Runs of a sequence agree if those of its parts do.** -/
protected theorem bind {f : α → Action σ β} (h : Agrees R act) (hf : ∀ a, Agrees R (f a)) :
    Agrees R (act >>= f) := by
  intro s t b c s'' t'' hR hb hc
  obtain ⟨a, s', ha, hb⟩ := bind_eq_ok.1 hb
  obtain ⟨a', t', ha', hc⟩ := bind_eq_ok.1 hc
  obtain ⟨rfl, hR'⟩ := h hR ha ha'
  exact hf a hR' hb hc

/-- What is done depends on what related states have in common. -/
protected theorem get_bind {f : σ → Action σ α}
    (h : ∀ ⦃s t⦄, R s t → f t = f s ∧ Agrees R (f s)) : Agrees R (get >>= f) := by
  intro s t a b s' t' hR ha hb
  obtain ⟨hf, hagree⟩ := h hR
  have hb' : f t t = .ok b t' := hb
  rw [hf] at hb'
  exact hagree hR ha hb'

protected theorem modify {f : σ → σ} (h : ∀ ⦃s t⦄, R s t → R (f s) (f t)) :
    Agrees R (modify f) := by
  intro s t a b s' t' hR ha hb
  cases ha
  cases hb
  exact ⟨rfl, h hR⟩

protected theorem ite {c : Prop} [Decidable c] {act' : Action σ α} (h : Agrees R act)
    (h' : Agrees R act') : Agrees R (if c then act else act') := by
  split
  · exact h
  · exact h'

/-- Runs on parts that agree are runs on the whole that do. -/
protected theorem onPart {get : σ → τ} {put : τ → σ → σ} {R' : τ → τ → Prop} {act : Action τ α}
    (h : Agrees R' act) (hget : ∀ ⦃s t⦄, R s t → R' (get s) (get t))
    (hput : ∀ ⦃s t x y⦄, R s t → R' x y → R (put x s) (put y t)) :
    Agrees R (act.onPart get put) := by
  intro s t a b s' t' hR ha hb
  obtain ⟨x, hx, rfl⟩ := onPart_eq_ok.1 ha
  obtain ⟨y, hy, rfl⟩ := onPart_eq_ok.1 hb
  obtain ⟨rfl, hxy⟩ := h (hget hR) hx hy
  exact ⟨rfl, hput hR hxy⟩

/-- A part that related states have in common, and of which something is kept. -/
protected theorem onKept {get : σ → τ} {put : τ → σ → σ} {P : τ → τ → Prop} {act : Action τ α}
    (h : Keeps P act) (hget : ∀ ⦃s t⦄, R s t → get t = get s)
    (hput : ∀ ⦃s t x⦄, R s t → P (get s) x → R (put x s) (put x t)) :
    Agrees R (act.onPart get put) := by
  intro s t a b s' t' hR ha hb
  obtain ⟨x, hx, rfl⟩ := onPart_eq_ok.1 ha
  obtain ⟨y, hy, rfl⟩ := onPart_eq_ok.1 hb
  obtain ⟨rfl, rfl⟩ := agrees_eq (hget hR).symm hx hy
  exact ⟨rfl, hput hR (h (get s) a x hx)⟩

/-- A part that related states have in common. -/
protected theorem onSame {get : σ → τ} {put : τ → σ → σ} {act : Action τ α}
    (hget : ∀ ⦃s t⦄, R s t → get t = get s) (hput : ∀ x ⦃s t⦄, R s t → R (put x s) (put x t)) :
    Agrees R (act.onPart get put) :=
  .onKept (P := fun _ _ => True) (fun _ _ _ _ => trivial) hget fun _ _ x hR _ => hput x hR

/-- **A loop over a list.** -/
protected theorem each {xs : List β} {f : β → Action σ Unit} (h : ∀ x, Agrees R (f x)) :
    Agrees R (Action.each xs f) := by
  induction xs with
  | nil => exact Agrees.pure
  | cons x rest ih => exact (h x).bind fun _ => ih

/-- **A loop over numbers.** -/
protected theorem upTo {start count : Nat} {f : Nat → Action σ Unit} (h : ∀ i, Agrees R (f i)) :
    Agrees R (Action.upTo start count f) := by
  induction count generalizing start with
  | zero => exact Agrees.pure
  | succ count ih => exact (h start).bind fun _ => ih

/-- An action that gives nothing, and of which it is known where it ends. -/
protected theorem of_after {act : Action σ Unit} {f : σ → σ}
    (h : ∀ s, After act s fun _ s' => s' = f s) (hR : ∀ ⦃s t⦄, R s t → R (f s) (f t)) :
    Agrees R act := by
  intro s t a b s' t' hst hs ht
  rw [h s a s' hs, h t b t' ht]
  exact ⟨rfl, hR hst⟩

/-- An action that gives nothing, and changes nothing that the relation sees. -/
protected theorem of_keeps {F : σ → σ → Prop} {act : Action σ Unit} (h : Keeps F act)
    (hR : ∀ ⦃s t s' t'⦄, R s t → F s s' → F t t' → R s' t') : Agrees R act :=
  fun s t _ _ s' t' hst hs ht => ⟨rfl, hR hst (h s () s' hs) (h t () t' ht)⟩

end Agrees

end

/-! ## 2. Heaps -/

/-- Two runs of what a heap does for its mutators agree. -/
structure Heap.Accords (H : Type) [Heap H] (R : H → H → Prop) : Prop where
  memory : ∀ ⦃h k⦄, R h k → (HasMemory.memory k : Memory) = HasMemory.memory h
  setMemory : ∀ m ⦃h k⦄, R h k → R (HasMemory.setMemory m h) (HasMemory.setMemory m k)
  mutators : ∀ ⦃h k⦄, R h k → (Heap.core k).mutators = (Heap.core h).mutators
  setMutators : ∀ x ⦃h k⦄, R h k →
    R (Heap.setCore { Heap.core h with mutators := x } h)
      (Heap.setCore { Heap.core k with mutators := x } k)
  maxTlab : ∀ ⦃h k⦄, R h k → Heap.maxTlab k = Heap.maxTlab h
  newRoot : ∀ v, Agrees R (Heap.onRoots (RootSet.newRoot v) : Action H Nat)
  dropRoot : ∀ slot, Agrees R (Mutator.dropRoot slot : Action H Unit)
  join : Agrees R (Heap.onSafepoint Safepoint.join : Action H Unit)
  leave : Agrees R (Heap.onSafepoint Safepoint.leave : Action H Unit)
  poll : Agrees R (Mutator.poll : Action H Bool)
  allocate : ∀ n, Agrees R (Heap.allocate n : Action H (Option Nat))
  allocateTlab : ∀ z n,
    Agrees R (Heap.allocateTlab z n : Action H (TlabSizing × Option (Nat × Nat)))
  retireTlab : ∀ a, Agrees R (Heap.retireTlab a : Action H Unit)
  postAlloc : ∀ o, Agrees R (Heap.postAlloc o : Action H Unit)
  registerBuffer : Agrees R (Heap.registerBuffer : Action H Nat)
  dropBuffer : ∀ b, Agrees R (Heap.dropBuffer b : Action H Unit)
  flush : ∀ b, Agrees R ((Heap.barriers (H := H)).flush b)
  writePre : ∀ b slot, Agrees R ((Heap.barriers (H := H)).writePre b slot)
  writePost : ∀ slot, Agrees R ((Heap.barriers (H := H)).writePost slot)
  load : ∀ slot v, Agrees R ((Heap.barriers (H := H)).load slot v)
  exchange : ∀ b slot expected new, Agrees R ((Heap.barriers (H := H)).exchange b slot expected new)
  copyPre : ∀ b range, Agrees R ((Heap.barriers (H := H)).copyPre b range)
  copyPost : ∀ range, Agrees R ((Heap.barriers (H := H)).copyPost range)
  clonePre : ∀ o, Agrees R ((Heap.barriers (H := H)).clonePre o)

namespace Heap.Accords

variable {H : Type} [Heap H] {R : H → H → Prop} (A : Heap.Accords H R)
  {α : Type} {m n o i size refs payload slot v buffer expected new : Nat}

include A

theorem agrees_onMemory {act : Action Memory α} : Agrees R (onMemory act : Action H α) :=
  .onSame A.memory A.setMemory

theorem agrees_getMemory : Agrees R (getMemory : Action H Memory) :=
  .get_bind fun h k hR => ⟨by rw [A.memory hR], .pure⟩

theorem agrees_loadSlot : Agrees R (loadSlot slot : Action H Nat) :=
  A.agrees_getMemory.bind fun _ => .pure

theorem agrees_storeSlot : Agrees R (storeSlot slot v : Action H Unit) := A.agrees_onMemory

theorem agrees_resolve : Agrees R (Mutator.resolve o : Action H Nat) := A.load none o

/-! ## 3. Allocation -/

theorem agrees_getState : Agrees R (Mutator.getState m : Action H Mutator) := by
  refine .get_bind fun h k hR => ⟨by rw [A.mutators hR], ?_⟩
  cases (Heap.core h).mutators[m]?.join with
  | none => exact .throw
  | some t => exact .pure

theorem agrees_setMutators (f : Array (Option Mutator) → Array (Option Mutator)) :
    Agrees R (Heap.modifyCore fun c => { c with mutators := f c.mutators } : Action H Unit) := by
  refine .modify fun h k hR => ?_
  have hset := A.setMutators (f (Heap.core h).mutators) hR
  dsimp only at hset ⊢
  rwa [A.mutators hR]

theorem agrees_setState {x : Option Mutator} : Agrees R (Mutator.setState m x : Action H Unit) :=
  A.agrees_setMutators (·.setIfInBounds m x)

theorem agrees_onTlab {act : Action Tlab α} : Agrees R (Mutator.onTlab m act : Action H α) := by
  refine A.agrees_getState.bind fun t => .onSame (fun _ _ _ => rfl) fun x h k hR => ?_
  rw [A.mutators hR]
  exact A.setMutators _ hR

theorem agrees_retireBuffer : Agrees R (Mutator.retireTlab m : Action H Unit) := by
  refine A.agrees_onTlab.bind fun r => ?_
  cases r with
  | none => exact .pure
  | some b => exact A.retireTlab _

theorem agrees_allocateSlow : Agrees R (Mutator.allocateSlow m n : Action H (Option Nat)) := by
  refine .get_bind fun h k hR => ⟨by rw [A.maxTlab hR], .ite (A.allocate _) ?_⟩
  refine A.agrees_retireBuffer.bind fun _ => A.agrees_getState.bind fun t => ?_
  refine (A.allocateTlab _ _).bind fun x => ?_
  obtain ⟨sizing, given⟩ := x
  refine A.agrees_setState.bind fun _ => ?_
  cases given with
  | none => exact A.allocate _
  | some x => exact A.agrees_onTlab.bind fun _ => A.agrees_onTlab

theorem agrees_allocate : Agrees R (Mutator.allocate m n : Action H (Option Nat)) := by
  refine .ite .pure (A.agrees_onTlab.bind fun r => ?_)
  cases r with
  | some a => exact .pure
  | none => exact A.agrees_allocateSlow

theorem agrees_publish : Agrees R (Mutator.publish n size refs : Action H Nat) :=
  A.agrees_onMemory.bind fun _ => (A.postAlloc _).bind fun _ => .pure

theorem agrees_allocateObject :
    Agrees R (Mutator.allocateObject m refs payload : Action H (Option Nat)) := by
  unfold Mutator.allocateObject
  cases Object.sizeFor refs payload with
  | none => exact .pure
  | some size =>
    refine A.agrees_allocate.bind fun r => ?_
    cases r with
    | none => exact .pure
    | some start => exact A.agrees_publish.bind fun _ => .pure

/-! ## 4. Accesses and roots -/

theorem agrees_read : Agrees R ((Heap.barriers (H := H)).read slot) :=
  A.agrees_loadSlot.bind fun _ => A.load _ _

theorem agrees_write : Agrees R ((Heap.barriers (H := H)).write buffer slot v) :=
  (A.writePre _ _).bind fun _ => A.agrees_storeSlot.bind fun _ => A.writePost _

theorem agrees_fieldSlot : Agrees R (Mutator.fieldSlot o i : Action H Nat) :=
  A.agrees_getMemory.bind fun _ => .lift

theorem agrees_loadRef : Agrees R (Mutator.loadRef o i : Action H Nat) :=
  A.agrees_resolve.bind fun _ => A.agrees_fieldSlot.bind fun _ => A.agrees_read

theorem agrees_storeRef : Agrees R (Mutator.storeRef m o i v : Action H Unit) :=
  A.agrees_resolve.bind fun _ => A.agrees_resolve.bind fun _ => A.agrees_fieldSlot.bind fun _ =>
    A.agrees_getState.bind fun _ => A.agrees_write

theorem agrees_casRef :
    Agrees R (Mutator.casRef m o i expected new : Action H CasOutcome) :=
  A.agrees_resolve.bind fun _ => A.agrees_resolve.bind fun _ => A.agrees_resolve.bind fun _ =>
    A.agrees_fieldSlot.bind fun _ => A.agrees_getState.bind fun _ => A.exchange _ _ _ _

theorem agrees_copyRef {src dst : SlotRange} {k : Nat} :
    Agrees R (Mutator.copyRef src dst k : Action H Unit) :=
  Agrees.lift.bind fun _ => A.agrees_read.bind fun _ => Agrees.lift.bind fun _ => A.agrees_storeSlot

theorem agrees_copyRefs {src si dst di len : Nat} :
    Agrees R (Mutator.copyRefs m src si dst di len : Action H Unit) := by
  refine .ite .pure ?_
  refine A.agrees_resolve.bind fun _ => A.agrees_resolve.bind fun _ => A.agrees_getMemory.bind fun _ => ?_
  refine Agrees.lift.bind fun _ => Agrees.lift.bind fun _ => Agrees.lift.bind fun _ => ?_
  refine Agrees.lift.bind fun _ => A.agrees_fieldSlot.bind fun _ => Agrees.lift.bind fun _ => ?_
  refine A.agrees_fieldSlot.bind fun _ => Agrees.lift.bind fun _ => A.agrees_getState.bind fun _ => ?_
  exact (A.copyPre _ _).bind fun _ => (Agrees.each fun _ => A.agrees_copyRef).bind fun _ =>
    A.copyPost _

theorem agrees_cloneObject : Agrees R (Mutator.cloneObject m o : Action H (Option Nat)) := by
  refine A.agrees_resolve.bind fun src => (A.clonePre _).bind fun _ => ?_
  refine A.agrees_getMemory.bind fun memory => A.agrees_allocate.bind fun r => ?_
  cases r with
  | none => exact .pure
  | some start => exact A.agrees_onMemory.bind fun _ => (A.postAlloc _).bind fun _ => .pure

theorem agrees_payloadWord : Agrees R (Mutator.payloadWord o n : Action H Nat) :=
  A.agrees_resolve.bind fun _ => A.agrees_getMemory.bind fun _ => .lift

/-! ## 5. Mutators -/

theorem agrees_create : Agrees R (Mutator.create : Action H Nat) := by
  refine A.registerBuffer.bind fun buffer => A.join.bind fun _ => .get_bind fun h k hR => ?_
  have hpush := A.agrees_setMutators (·.push (some { buffer }))
  exact ⟨by rw [A.mutators hR], hpush.bind fun _ => .pure⟩

theorem agrees_destroy : Agrees R (Mutator.destroy m : Action H Unit) :=
  A.agrees_getState.bind fun _ => (A.agrees_getState.bind fun _ => A.flush _).bind fun _ =>
    A.agrees_retireBuffer.bind fun _ => A.leave.bind fun _ => (A.dropBuffer _).bind fun _ =>
      A.agrees_setState

/-- **Two runs of whatever a mutator does agree**, whatever references it uses. -/
theorem agrees_run {ref : Nat → Nat} (op : Operation) : Agrees R (op.run ref : Action H Answer) := by
  cases op with
  | alloc m refs payload => exact A.agrees_allocateObject.bind fun _ => .pure
  | allocRaw m size => exact A.agrees_allocate.bind fun _ => .pure
  | clone m src => exact A.agrees_cloneObject.bind fun _ => .pure
  | loadRef src i => exact A.agrees_loadRef.bind fun _ => .pure
  | storeRef m src i value => exact A.agrees_storeRef.bind fun _ => .pure
  | casRef m src i expected new => exact A.agrees_casRef.bind fun _ => .pure
  | copyRefs m src si dst di len => exact A.agrees_copyRefs.bind fun _ => .pure
  | loadWord src offset =>
    exact (A.agrees_payloadWord.bind fun _ => A.agrees_loadSlot).bind fun _ => .pure
  | storeWord src offset x =>
    exact (A.agrees_payloadWord.bind fun _ => A.agrees_storeSlot).bind fun _ => .pure
  | resolve src => exact A.agrees_resolve.bind fun _ => .pure
  | newRoot value => exact (A.agrees_resolve.bind fun _ => A.newRoot _).bind fun _ => .pure
  | loadRoot slot => exact A.agrees_read.bind fun _ => .pure
  | storeRoot slot value =>
    exact (A.agrees_resolve.bind fun _ => A.agrees_storeSlot).bind fun _ => .pure
  | dropRoot slot => exact (A.dropRoot _).bind fun _ => .pure
  | retireTlab m => exact A.agrees_retireBuffer.bind fun _ => .pure
  | flush m => exact (A.agrees_getState.bind fun _ => A.flush _).bind fun _ => .pure
  | create => exact A.agrees_create.bind fun _ => .pure
  | destroy m => exact A.agrees_destroy.bind fun _ => .pure
  | poll => exact A.poll.bind fun _ => .pure

end Heap.Accords

end ManagedHeap
