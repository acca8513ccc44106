/-
# What heaps do for mutators

Mutators reach a heap through the operations of `Heap` only.  So a preorder that these operations
keep is kept by everything that a mutator does, with whatever references: `Heap.Upholds` lists what
there is to prove of a heap, and `Heap.Upholds.keeps_run` is what follows.  A heap is also asked for
memory and for collections directly, and time passes on it; `Request` has all of that.

* Section 1: the operations that a heap has.
* Section 2: allocation.
* Section 3: accesses and roots.
* Section 4: mutators, and all that they do.
* Section 5: what else a heap is asked for, in any order.
-/
import ManagedHeap.Proofs.Partial
import ManagedHeap.Proofs.Program

namespace ManagedHeap

/-! ## 1. Heaps -/

/-- What a heap does for its mutators leads to a state that `R` relates to the one before. -/
structure Heap.Upholds (H : Type) [Heap H] (R : H → H → Prop) : Prop where
  memory : ∀ h m, R h (HasMemory.setMemory m h)
  roots : ∀ h r m, R h (Heap.setCore { Heap.core h with roots := r, memory := m } h)
  mutators : ∀ h x, R h (Heap.setCore { Heap.core h with mutators := x } h)
  safepoint : ∀ h s, R h (Heap.setSafepoint s h)
  allocate : ∀ n, Keeps R (Heap.allocate n)
  allocateTlab : ∀ z n, Keeps R (Heap.allocateTlab z n)
  retireTlab : ∀ a, Keeps R (Heap.retireTlab a)
  postAlloc : ∀ o, Keeps R (Heap.postAlloc o)
  registerBuffer : Keeps R Heap.registerBuffer
  dropBuffer : ∀ b, Keeps R (Heap.dropBuffer b)
  flush : ∀ b, Keeps R (Heap.barriers.flush b)
  writePre : ∀ b slot, Keeps R (Heap.barriers.writePre b slot)
  writePost : ∀ slot, Keeps R (Heap.barriers.writePost slot)
  load : ∀ slot v, Keeps R (Heap.barriers.load slot v)
  exchange : ∀ b slot expected new, Keeps R (Heap.barriers.exchange b slot expected new)
  copyPre : ∀ b range, Keeps R (Heap.barriers.copyPre b range)
  copyPost : ∀ range, Keeps R (Heap.barriers.copyPost range)
  clonePre : ∀ o, Keeps R (Heap.barriers.clonePre o)

namespace Heap.Upholds

variable {H : Type} [Heap H] {R : H → H → Prop} (U : Heap.Upholds H R)
  {m n o i size refs payload slot v buffer expected new : Nat}

include U

theorem keeps_onMemory {α : Type} {act : Action Memory α} : Keeps R (onMemory act : Action H α) :=
  keeps_onPart U.memory

theorem keeps_onRoots {α : Type} {act : Action (RootSet × Memory) α} :
    Keeps R (Heap.onRoots act : Action H α) := keeps_onPart fun h x => U.roots h x.1 x.2

theorem keeps_storeSlot : Keeps R (storeSlot slot v : Action H Unit) := U.keeps_onMemory

theorem keeps_setState {x : Option Mutator} : Keeps R (Mutator.setState m x : Action H Unit) :=
  keeps_modify fun h => U.mutators h _

theorem keeps_dropRoot : Keeps R (Mutator.dropRoot slot : Action H Unit) :=
  keeps_modify fun h => U.roots h _ (Heap.core h).memory

theorem keeps_resolve : Keeps R (Mutator.resolve o : Action H Nat) := U.load none o

variable [IsPreorder H R]

theorem keeps_onSafepoint {act : Action Safepoint Unit} :
    Keeps R (Heap.onSafepoint act : Action H Unit) := by
  refine keeps_get.bind fun h => ?_
  cases Heap.safepoint? h with
  | none => exact keeps_pure
  | some s => exact keeps_onPart fun h s => U.safepoint h s

/-! ## 2. Allocation -/

omit U in
theorem keeps_getState : Keeps R (Mutator.getState m : Action H Mutator) := by
  refine keeps_get.bind fun h => ?_
  cases (Heap.core h).mutators[m]?.join with
  | none => exact keeps_throw
  | some t => exact keeps_pure

theorem keeps_onTlab {α : Type} {act : Action Tlab α} :
    Keeps R (Mutator.onTlab m act : Action H α) :=
  keeps_getState.bind fun _ => keeps_onPart fun h _ => U.mutators h _

theorem keeps_retireBuffer : Keeps R (Mutator.retireTlab m : Action H Unit) := by
  refine U.keeps_onTlab.bind fun r => ?_
  cases r with
  | none => exact keeps_pure
  | some b => exact U.retireTlab _

theorem keeps_allocateSlow : Keeps R (Mutator.allocateSlow m n : Action H (Option Nat)) := by
  refine keeps_get.bind fun h => Keeps.ite (U.allocate _) ?_
  refine U.keeps_retireBuffer.bind fun _ => keeps_getState.bind fun t => ?_
  refine (U.allocateTlab _ _).bind fun x => ?_
  obtain ⟨sizing, given⟩ := x
  refine U.keeps_setState.bind fun _ => ?_
  cases given with
  | none => exact U.allocate _
  | some x => exact U.keeps_onTlab.bind fun _ => U.keeps_onTlab

theorem keeps_allocate : Keeps R (Mutator.allocate m n : Action H (Option Nat)) := by
  refine Keeps.ite keeps_pure (U.keeps_onTlab.bind fun r => ?_)
  cases r with
  | some a => exact keeps_pure
  | none => exact U.keeps_allocateSlow

theorem keeps_publish : Keeps R (Mutator.publish n size refs : Action H Nat) :=
  U.keeps_onMemory.bind fun _ => (U.postAlloc _).bind fun _ => keeps_pure

theorem keeps_allocateObject :
    Keeps R (Mutator.allocateObject m refs payload : Action H (Option Nat)) := by
  unfold Mutator.allocateObject
  cases Object.sizeFor refs payload with
  | none => exact keeps_pure
  | some size =>
    refine U.keeps_allocate.bind fun r => ?_
    cases r with
    | none => exact keeps_pure
    | some start => exact U.keeps_publish.bind fun _ => keeps_pure

/-! ## 3. Accesses and roots -/

theorem keeps_read : Keeps R ((Heap.barriers (H := H)).read slot) :=
  keeps_loadSlot.bind fun _ => U.load _ _

theorem keeps_write : Keeps R ((Heap.barriers (H := H)).write buffer slot v) :=
  (U.writePre _ _).bind fun _ => U.keeps_storeSlot.bind fun _ => U.writePost _

omit U in
theorem keeps_fieldSlot : Keeps R (Mutator.fieldSlot o i : Action H Nat) :=
  keeps_getMemory.bind fun _ => keeps_lift

theorem keeps_loadRef : Keeps R (Mutator.loadRef o i : Action H Nat) :=
  U.keeps_resolve.bind fun _ => keeps_fieldSlot.bind fun _ => U.keeps_read

theorem keeps_storeRef : Keeps R (Mutator.storeRef m o i v : Action H Unit) :=
  U.keeps_resolve.bind fun _ => U.keeps_resolve.bind fun _ => keeps_fieldSlot.bind fun _ =>
    keeps_getState.bind fun _ => U.keeps_write

theorem keeps_casRef : Keeps R (Mutator.casRef m o i expected new : Action H CasOutcome) :=
  U.keeps_resolve.bind fun _ => U.keeps_resolve.bind fun _ => U.keeps_resolve.bind fun _ =>
    keeps_fieldSlot.bind fun _ => keeps_getState.bind fun _ => U.exchange _ _ _ _

theorem keeps_copyRef {src dst : SlotRange} {k : Nat} :
    Keeps R (Mutator.copyRef src dst k : Action H Unit) :=
  keeps_lift.bind fun _ => U.keeps_read.bind fun _ => keeps_lift.bind fun _ => U.keeps_storeSlot

theorem keeps_copyRefs {src si dst di len : Nat} :
    Keeps R (Mutator.copyRefs m src si dst di len : Action H Unit) := by
  refine Keeps.ite keeps_pure ?_
  refine U.keeps_resolve.bind fun _ => U.keeps_resolve.bind fun _ => keeps_getMemory.bind fun _ => ?_
  refine keeps_lift.bind fun _ => keeps_lift.bind fun _ => keeps_lift.bind fun _ => ?_
  refine keeps_lift.bind fun _ => keeps_fieldSlot.bind fun _ => keeps_lift.bind fun _ => ?_
  refine keeps_fieldSlot.bind fun _ => keeps_lift.bind fun _ => keeps_getState.bind fun _ => ?_
  exact (U.copyPre _ _).bind fun _ => (keeps_each fun _ => U.keeps_copyRef).bind fun _ =>
    U.copyPost _

theorem keeps_cloneObject : Keeps R (Mutator.cloneObject m o : Action H (Option Nat)) := by
  refine U.keeps_resolve.bind fun src => (U.clonePre _).bind fun _ => ?_
  refine keeps_getMemory.bind fun memory => U.keeps_allocate.bind fun r => ?_
  cases r with
  | none => exact keeps_pure
  | some start => exact U.keeps_onMemory.bind fun _ => (U.postAlloc _).bind fun _ => keeps_pure

theorem keeps_payloadWord : Keeps R (Mutator.payloadWord o n : Action H Nat) :=
  U.keeps_resolve.bind fun _ => keeps_getMemory.bind fun _ => keeps_lift

theorem keeps_newRoot : Keeps R (Mutator.newRoot v : Action H Nat) :=
  U.keeps_resolve.bind fun _ => U.keeps_onRoots

theorem keeps_storeRoot : Keeps R (Mutator.storeRoot slot v : Action H Unit) :=
  U.keeps_resolve.bind fun _ => U.keeps_storeSlot

/-! ## 4. Mutators -/

theorem keeps_create : Keeps R (Mutator.create : Action H Nat) :=
  U.registerBuffer.bind fun _ => U.keeps_onSafepoint.bind fun _ => keeps_get.bind fun _ =>
    keeps_modify_bind (fun h => U.mutators h _) fun _ => keeps_pure

theorem keeps_flush : Keeps R (Mutator.flush m : Action H Unit) :=
  keeps_getState.bind fun _ => U.flush _

theorem keeps_destroy : Keeps R (Mutator.destroy m : Action H Unit) :=
  keeps_getState.bind fun _ => U.keeps_flush.bind fun _ => U.keeps_retireBuffer.bind fun _ =>
    U.keeps_onSafepoint.bind fun _ => (U.dropBuffer _).bind fun _ => U.keeps_setState

theorem keeps_poll : Keeps R (Mutator.poll : Action H Bool) := by
  refine keeps_get.bind fun h => ?_
  cases Heap.safepoint? h with
  | none => exact keeps_pure
  | some s => exact keeps_onPart fun h s => U.safepoint h s

/-- **Whatever a mutator does keeps what the heap upholds**, whatever references it uses. -/
theorem keeps_run {ref : Nat → Nat} (op : Operation) : Keeps R (op.run ref : Action H Answer) := by
  cases op with
  | alloc m refs payload => exact U.keeps_allocateObject.bind fun _ => keeps_pure
  | allocRaw m size => exact U.keeps_allocate.bind fun _ => keeps_pure
  | clone m src => exact U.keeps_cloneObject.bind fun _ => keeps_pure
  | loadRef src i => exact U.keeps_loadRef.bind fun _ => keeps_pure
  | storeRef m src i value => exact U.keeps_storeRef.bind fun _ => keeps_pure
  | casRef m src i expected new => exact U.keeps_casRef.bind fun _ => keeps_pure
  | copyRefs m src si dst di len => exact U.keeps_copyRefs.bind fun _ => keeps_pure
  | loadWord src offset =>
    exact (U.keeps_payloadWord.bind fun _ => keeps_loadSlot).bind fun _ => keeps_pure
  | storeWord src offset x =>
    exact (U.keeps_payloadWord.bind fun _ => U.keeps_storeSlot).bind fun _ => keeps_pure
  | resolve src => exact U.keeps_resolve.bind fun _ => keeps_pure
  | newRoot value => exact U.keeps_newRoot.bind fun _ => keeps_pure
  | loadRoot slot => exact U.keeps_read.bind fun _ => keeps_pure
  | storeRoot slot value => exact U.keeps_storeRoot.bind fun _ => keeps_pure
  | dropRoot slot => exact U.keeps_dropRoot.bind fun _ => keeps_pure
  | retireTlab m => exact U.keeps_retireBuffer.bind fun _ => keeps_pure
  | flush m => exact U.keeps_flush.bind fun _ => keeps_pure
  | create => exact U.keeps_create.bind fun _ => keeps_pure
  | destroy m => exact U.keeps_destroy.bind fun _ => keeps_pure
  | poll => exact U.keeps_poll.bind fun _ => keeps_pure

end Heap.Upholds

/-! ## 5. Requests -/

/-- What a heap is asked for, by its mutators or for them. -/
inductive Request where
  /-- An operation of a mutator, on any addresses. -/
  | operation (op : Operation)
  /-- An allocation outside of buffers. -/
  | allocate (size : Nat)
  /-- An allocation of a buffer. -/
  | allocateTlab (sizing : TlabSizing) (minSize : Nat)
  /-- A buffer that starts at an address is retired. -/
  | retireTlab (start : Nat)
  /-- An allocation by a mutator that asks for a collection when there is no room. -/
  | allocateOrCollect (m size : Nat)
  | collect (cause : Cause)
  | sleep (time : Nat)
  | verify
  | leave
  | join
  deriving DecidableEq, Repr

/-- Serve a request. -/
def Request.run {H : Type} [Heap H] : Request → Action H Answer
  | operation op => op.run id
  | allocate size => do return .memory (← Heap.allocate size)
  | allocateTlab sizing minSize => do
    let (_, tlab) ← Heap.allocateTlab sizing minSize
    return .memory (tlab.map Prod.fst)
  | retireTlab start => do
    Heap.retireTlab start
    return .done
  | allocateOrCollect m size => do return .memory (← Mutator.allocateOrCollect m size)
  | collect cause => do
    Heap.collect cause
    return .done
  | sleep time => do
    Heap.sleep time
    return .done
  | verify => do return .flag (← Heap.verify).isOk
  | leave => do
    Heap.onSafepoint Safepoint.leave
    return .done
  | join => do
    Heap.onSafepoint Safepoint.join
    return .done

/-- Whatever a heap is asked for leads to a state that `R` relates to the one before. -/
structure Heap.Sustains (H : Type) [Heap H] (R : H → H → Prop) : Prop extends Heap.Upholds H R where
  journal : ∀ h x, R h (Heap.setCore { Heap.core h with journal := x } h)
  clock : ∀ h t, R h (Heap.setCore { Heap.core h with clock := t } h)
  collect : ∀ cause, Keeps R (Heap.collect cause)
  idle : Keeps R Heap.idle
  verify : Keeps R Heap.verify

namespace Heap.Sustains

variable {H : Type} [Heap H] {R : H → H → Prop} [IsPreorder H R] (U : Heap.Sustains H R)
  {m n : Nat}

include U

theorem keeps_collect {cause : Cause} : Keeps R (Mutator.collect cause : Action H Unit) := by
  have hsafe {act : Action Safepoint Unit} :
      Keeps R (Action.upTo 0 1 fun _ => (Heap.onSafepoint act : Action H Unit)) :=
    keeps_upTo fun _ => U.keeps_onSafepoint
  exact hsafe.bind fun _ => (U.collect _).bind fun _ => hsafe.bind fun _ => keeps_pure

theorem keeps_allocateOrCollect :
    Keeps R (Mutator.allocateOrCollect m n : Action H (Option Nat)) := by
  have hnote (e : Event) : Keeps R (Heap.note e) := keeps_modify fun h => U.journal h _
  refine U.keeps_allocate.bind fun r => ?_
  cases r with
  | some a => exact keeps_pure
  | none =>
    refine U.keeps_collect.bind fun _ => U.keeps_allocate.bind fun r => ?_
    cases r with
    | some a => exact keeps_pure
    | none =>
      exact keeps_get.bind fun _ => Keeps.ite ((hnote _).bind fun _ => keeps_throw)
        ((hnote _).bind fun _ => keeps_pure)

/-- **Whatever a heap is asked for keeps what it sustains.** -/
theorem keeps_request (r : Request) : Keeps R (r.run : Action H Answer) := by
  cases r with
  | operation op => exact U.keeps_run op
  | allocate n => exact (U.allocate n).bind fun _ => keeps_pure
  | allocateTlab z n => exact (U.allocateTlab z n).bind fun _ => keeps_pure
  | retireTlab a => exact (U.retireTlab a).bind fun _ => keeps_pure
  | allocateOrCollect m n => exact U.keeps_allocateOrCollect.bind fun _ => keeps_pure
  | collect cause => exact (U.collect cause).bind fun _ => keeps_pure
  | sleep t =>
    have hclock : Keeps R (Heap.modifyCore fun c => { c with clock := c.clock + t } : Action H Unit) :=
      keeps_modify fun h => U.clock h _
    exact (hclock.bind fun _ => U.idle).bind fun _ => keeps_pure
  | verify => exact U.verify.bind fun _ => keeps_pure
  | leave | join => exact U.keeps_onSafepoint.bind fun _ => keeps_pure

end Heap.Sustains

end ManagedHeap
