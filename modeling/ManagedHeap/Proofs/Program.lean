/-
# Programs on a heap

A program is a list of commands: operations of its mutators, steps of a cycle, and requests to
cancel one.  It names a reference by its place among those that it was given since the last step of
a cycle, so it has no means to keep one across such a step but a root.  The `Session` is the heap
and what the program has: references, roots and mutators.

The same program runs on the ideal heap.  There a reference is the identity of an object, a step of
a cycle does nothing, and an allocation finds room when it does on the real heap.

`Session.Allows` says which commands a program may give: operations on objects that are not null,
inside of their bounds and by mutators and roots that it has, and the steps of a cycle in their
order.
-/
import ManagedHeap.Proofs.Ideal
import ManagedHeap.Proofs.References
import ManagedHeap.Mutator
import ManagedHeap.RegionHeap.Cycle

namespace ManagedHeap

/-! ## 1. Running a list of commands -/

section
variable {σ τ γ α β : Type}

/-- Run commands in order.  Gives their answers. -/
def Action.runAll (step : γ → Action σ α) : List γ → Action σ (List α)
  | [] => return []
  | c :: rest => do
    let a ← step c
    let as ← runAll step rest
    return a :: as

/-- Each command is allowed when its turn comes. -/
def Permitted (step : γ → Action σ α) (allows : σ → γ → Prop) : List γ → σ → Prop
  | [], _ => True
  | c :: rest, s => allows s c ∧
    match step c s with
    | .ok _ s' => Permitted step allows rest s'
    | .error _ _ => True

/-- Another run of the commands, which knows the answers of the first.  Gives its own answers. -/
def followAll (next : γ → α → τ → β × τ) : List γ → List α → τ → List β × τ
  | c :: rest, a :: as, t =>
    let (b, t) := next c a t
    let (bs, t) := followAll next rest as t
    (b :: bs, t)
  | _, _, t => ([], t)

instance Permitted.decidable {step : γ → Action σ α} {allows : σ → γ → Prop}
    [∀ s c, Decidable (allows s c)] (cs : List γ) (s : σ) :
    Decidable (Permitted step allows cs s) :=
  match cs with
  | [] => isTrue trivial
  | c :: rest =>
    match h : step c s with
    | .ok _ s' =>
      have : Decidable (Permitted step allows rest s') := decidable rest s'
      decidable_of_iff (allows s c ∧ Permitted step allows rest s') (by simp [Permitted, h])
    | .error _ _ => decidable_of_iff (allows s c) (by simp [Permitted, h])

variable {step : γ → Action σ α} {allows : σ → γ → Prop} {s : σ} {t : τ}

/-- **A simulation holds along a run** if each command that is allowed keeps it, and the answers
agree. -/
theorem ends_runAll (next : γ → α → τ → β × τ) {R : σ → τ → Prop} {Q : α → β → Prop}
    (hstep : ∀ s t c, R s t → allows s c →
      Ends (step c) s fun a s' => Q a (next c a t).1 ∧ R s' (next c a t).2)
    (hR : R s t) {cs : List γ} (hp : Permitted step allows cs s) :
    Ends (Action.runAll step cs) s fun as s' =>
      List.Forall₂ Q as (followAll next cs as t).1 ∧ R s' (followAll next cs as t).2 := by
  induction cs generalizing s t with
  | nil => exact ends_pure.2 ⟨.nil, hR⟩
  | cons c rest ih =>
    obtain ⟨ha, hrest⟩ := hp
    obtain ⟨a, s', hs, hq, hR'⟩ := hstep s t c hR ha
    rw [hs] at hrest
    simp only [Action.runAll, ends_bind]
    refine ⟨a, s', hs, (ih hR' hrest).mono ?_⟩
    rintro as s'' ⟨hqs, hR''⟩
    exact ends_pure.2 ⟨.cons hq hqs, hR''⟩

/-- An invariant holds along a run. -/
theorem ends_runAll_inv {R : σ → Prop}
    (hstep : ∀ s c, R s → allows s c → Ends (step c) s fun _ s' => R s')
    (hR : R s) {cs : List γ} (hp : Permitted step allows cs s) :
    Ends (Action.runAll step cs) s fun _ s' => R s' :=
  (ends_runAll (fun _ _ _ => ((), ())) (R := fun s (_ : Unit) => R s)
    (Q := fun _ (_ : Unit) => True) (t := ())
    (fun s _ c h ha => (hstep s c h ha).mono fun _ _ h => ⟨trivial, h⟩) hR hp).mono
      fun _ _ h => h.2

theorem runAll_cons_eq_ok {c : γ} {rest : List γ} {as : List α} {s' : σ} :
    Action.runAll step (c :: rest) s = .ok as s' ↔ ∃ a s₁ bs, step c s = .ok a s₁ ∧
      Action.runAll step rest s₁ = .ok bs s' ∧ as = a :: bs := by
  have hends : Action.runAll step (c :: rest) s = .ok as s' ↔
      Ends (Action.runAll step (c :: rest)) s fun x y => x = as ∧ y = s' := by
    constructor
    · exact fun h => ⟨as, s', h, rfl, rfl⟩
    · rintro ⟨_, _, h, rfl, rfl⟩
      exact h
  rw [hends]
  simp only [Action.runAll, ends_bind, ends_pure]
  constructor
  · rintro ⟨a, s₁, h₁, bs, s₂, h₂, rfl, rfl⟩
    exact ⟨a, s₁, bs, h₁, h₂, rfl⟩
  · rintro ⟨a, s₁, bs, h₁, h₂, rfl⟩
    exact ⟨a, s₁, h₁, bs, s', h₂, rfl, rfl⟩

/-- One command more. -/
theorem runAll_snoc {cs : List γ} {c : γ} {as : List α} {a : α} {s' s'' : σ}
    (h : Action.runAll step cs s = .ok as s') (hc : step c s' = .ok a s'') :
    Action.runAll step (cs ++ [c]) s = .ok (as ++ [a]) s'' := by
  induction cs generalizing s as with
  | nil =>
    cases h
    exact runAll_cons_eq_ok.2 ⟨a, s'', [], hc, rfl, rfl⟩
  | cons d rest ih =>
    obtain ⟨b, s₁, bs, h₁, h₂, rfl⟩ := runAll_cons_eq_ok.1 h
    exact runAll_cons_eq_ok.2 ⟨b, s₁, bs ++ [a], h₁, ih h₂, rfl⟩

theorem runAll_snoc_eq_ok {cs : List γ} {c : γ} {as : List α} {s'' : σ} :
    Action.runAll step (cs ++ [c]) s = .ok as s'' ↔ ∃ bs s' a,
      Action.runAll step cs s = .ok bs s' ∧ step c s' = .ok a s'' ∧ as = bs ++ [a] := by
  constructor
  · intro h
    induction cs generalizing s as with
    | nil =>
      obtain ⟨a, s₁, bs, h₁, h₂, rfl⟩ := runAll_cons_eq_ok.1 h
      cases h₂
      exact ⟨[], s, a, rfl, h₁, rfl⟩
    | cons d rest ih =>
      obtain ⟨b, s₁, bs, h₁, h₂, rfl⟩ := runAll_cons_eq_ok.1 h
      obtain ⟨cs', s', a, h₃, h₄, rfl⟩ := ih h₂
      exact ⟨b :: cs', s', a, runAll_cons_eq_ok.2 ⟨b, s₁, cs', h₁, h₃, rfl⟩, h₄, rfl⟩
  · rintro ⟨bs, s', a, h₁, h₂, rfl⟩
    exact runAll_snoc h₁ h₂

/-- What is permitted is so by laxer rules. -/
theorem Permitted.mono {allows' : σ → γ → Prop} {cs : List γ} (hp : Permitted step allows cs s)
    (h : ∀ s c, allows s c → allows' s c) : Permitted step allows' cs s := by
  induction cs generalizing s with
  | nil => trivial
  | cons c rest ih =>
    obtain ⟨ha, hrest⟩ := hp
    refine ⟨h s c ha, ?_⟩
    split at hrest
    · exact ih hrest
    · trivial

/-- Commands of one sort are permitted as such. -/
theorem Permitted.only {p : γ → Prop} {cs : List γ} (hp : Permitted step allows cs s)
    (h : ∀ c ∈ cs, p c) : Permitted step (fun s c => allows s c ∧ p c) cs s := by
  induction cs generalizing s with
  | nil => trivial
  | cons c rest ih =>
    obtain ⟨ha, hrest⟩ := hp
    refine ⟨⟨ha, h c List.mem_cons_self⟩, ?_⟩
    split at hrest
    · exact ih hrest fun d hd => h d (List.mem_cons_of_mem _ hd)
    · trivial

/-- The commands at the end of a permitted list are permitted after the others. -/
theorem Permitted.append {cs ds : List γ} (hp : Permitted step allows (cs ++ ds) s) :
    Permitted step allows cs s ∧
      ∀ {as s'}, Action.runAll step cs s = .ok as s' → Permitted step allows ds s' := by
  induction cs generalizing s with
  | nil =>
    refine ⟨trivial, fun h => ?_⟩
    cases h
    exact hp
  | cons d rest ih =>
    obtain ⟨ha, hrest⟩ := hp
    cases hd : step d s with
    | ok a s₁ =>
      rw [hd] at hrest
      obtain ⟨hp, hlast⟩ := ih hrest
      refine ⟨⟨ha, by rw [hd]; exact hp⟩, fun h => ?_⟩
      obtain ⟨b, s₂, bs, h₁, h₂, -⟩ := runAll_cons_eq_ok.1 h
      rw [hd] at h₁
      cases h₁
      exact hlast h₂
    | error f s₁ =>
      refine ⟨⟨ha, by rw [hd]; trivial⟩, fun h => ?_⟩
      obtain ⟨b, s₂, bs, h₁, -⟩ := runAll_cons_eq_ok.1 h
      rw [hd] at h₁
      cases h₁

/-- The last command of a permitted list is allowed after the others. -/
theorem Permitted.snoc {cs : List γ} {c : γ} (hp : Permitted step allows (cs ++ [c]) s) :
    Permitted step allows cs s ∧
      ∀ {as s'}, Action.runAll step cs s = .ok as s' → allows s' c :=
  hp.append.imp_right fun hlast _ _ h => (hlast h).1

end

/-! ## 2. Operations and steps -/

/-- An operation of the mutator with the number `m`, where it needs one.  Objects and references
are named by their place among the references that the program has, roots by their slots. -/
inductive Operation where
  /-- Allocate an object with null fields and a payload of zeros. -/
  | alloc (m refs payload : Nat)
  /-- Allocate memory that becomes no object. -/
  | allocRaw (m size : Nat)
  | clone (m src : Nat)
  | loadRef (src i : Nat)
  | storeRef (m src i value : Nat)
  | casRef (m src i expected new : Nat)
  | copyRefs (m src si dst di len : Nat)
  | loadWord (src offset : Nat)
  | storeWord (src offset word : Nat)
  | resolve (src : Nat)
  | newRoot (value : Nat)
  | loadRoot (slot : Nat)
  | storeRoot (slot value : Nat)
  | dropRoot (slot : Nat)
  | retireTlab (m : Nat)
  | flush (m : Nat)
  | create
  | destroy (m : Nat)
  | poll
  deriving DecidableEq, Repr

/-- A step of a cycle. -/
inductive CycleStep where
  | initMark
  | concurrentMark
  | finalMark
  | evacuate
  | updateRefs
  | recycle
  deriving DecidableEq, Repr

/-- What a program does next. -/
inductive Command where
  | operation (op : Operation)
  | step (c : CycleStep)
  | cancel
  deriving DecidableEq, Repr

/-- What a program is given. -/
inductive Answer where
  | done
  | flag (b : Bool)
  | word (x : Nat)
  | slot (a : Nat)
  | mutator (m : Nat)
  | reference (v : Nat)
  /-- A new object, if it found room. -/
  | object (v? : Option Nat)
  /-- The start of allocated memory, if there was room. -/
  | memory (a? : Option Nat)
  /-- What a compare-and-swap found in place of the expected object, if it failed. -/
  | swap (witness? : Option Nat)
  deriving DecidableEq, Repr

namespace Answer

/-- The new object. -/
def created : Answer → List Nat
  | object v? => v?.toList
  | _ => []

/-- The references that the program is given. -/
def references : Answer → List Nat
  | reference v => [v]
  | object v? => v?.toList
  | swap witness? => witness?.toList
  | _ => []

/-- Whether an allocation found room. -/
def found : Answer → Bool
  | object v? => v?.isSome
  | memory a? => a?.isSome
  | flag b => b
  | _ => false

/-- What a program sees of a reference alone: whether it is null. -/
def sight (v : Nat) : Nat := if v = null then 0 else 1

/-- What a program sees of an answer alone.  Addresses are nothing to it, nor are the numbers of
mutators. -/
def seen : Answer → Answer
  | reference v => reference (sight v)
  | object v? => object (v?.map sight)
  | memory a? => memory (a?.map fun _ => 0)
  | swap witness? => swap (witness?.map sight)
  | mutator _ => mutator 0
  | a => a

end Answer

/-! ## 3. The real heap -/

/-- A heap, and what a program has of it. -/
structure Session where
  heap : RegionHeap
  /-- How far the cycle has come. -/
  stage : Stage := .idle
  /-- The references that the program was given since the last step of a cycle. -/
  held : List Nat := []
  /-- The slots of its roots. -/
  handles : List Nat := []
  /-- The numbers of its mutators. -/
  mutators : List Nat := []
  /-- The objects that were published since the last cycle began, by their first addresses. -/
  young : List Nat := []

/-- Run an operation on a heap, on the references that a function gives for its operands. -/
def Operation.run {H : Type} [Heap H] (ref : Nat → Nat) : Operation → Action H Answer
  | alloc m refs payload => do return .object (← Mutator.allocateObject m refs payload)
  | allocRaw m size => do return .memory (← Mutator.allocate m size)
  | clone m src => do return .object (← Mutator.cloneObject m (ref src))
  | loadRef src i => do return .reference (← Mutator.loadRef (ref src) i)
  | storeRef m src i value => do
    Mutator.storeRef m (ref src) i (ref value)
    return .done
  | casRef m src i expected new => do
    return .swap (← Mutator.casRef m (ref src) i (ref expected) (ref new)).witness?
  | copyRefs m src si dst di len => do
    Mutator.copyRefs m (ref src) si (ref dst) di len
    return .done
  | loadWord src offset => do return .word (← Mutator.loadWord (ref src) offset)
  | storeWord src offset word => do
    Mutator.storeWord (ref src) offset word
    return .done
  | resolve src => do return .reference (← Mutator.resolve (ref src))
  | newRoot value => do return .slot (← Mutator.newRoot (ref value))
  | loadRoot slot => do return .reference (← Mutator.loadRoot slot)
  | storeRoot slot value => do
    Mutator.storeRoot slot (ref value)
    return .done
  | dropRoot slot => do
    Mutator.dropRoot slot
    return .done
  | retireTlab m => do
    Mutator.retireTlab m
    return .done
  | flush m => do
    Mutator.flush m
    return .done
  | create => do return .mutator (← Mutator.create)
  | destroy m => do
    Mutator.destroy m
    return .done
  | poll => do return .flag (← Mutator.poll)

namespace CycleStep

/-- Run a step.  Gives whether the cycle goes on. -/
def run : CycleStep → Action RegionHeap Bool
  | initMark => RegionHeap.initMark
  | concurrentMark => RegionHeap.concurrentMark
  | finalMark => RegionHeap.finalMark
  | evacuate => do
    RegionHeap.evacuate
    return true
  | updateRefs => do
    RegionHeap.updateRefs
    return true
  | recycle => do
    RegionHeap.recycle
    return true

/-- The stage that a step belongs to. -/
def stage : CycleStep → Stage
  | initMark => .idle
  | concurrentMark | finalMark => .marking
  | evacuate => .chosen
  | updateRefs => .copied
  | recycle => .updated

/-- The stage after a step, given whether the cycle goes on. -/
def next : CycleStep → Bool → Stage
  | initMark, true | concurrentMark, true => .marking
  | finalMark, true => .chosen
  | evacuate, true => .copied
  | updateRefs, true => .updated
  | recycle, true | _, false => .idle

end CycleStep

namespace Session

/-- A heap with a program that has nothing yet. -/
def start (heap : RegionHeap) : Session := { heap }

/-- The reference at a place, null if the program has none there. -/
def reference (s : Session) (k : Nat) : Nat := s.held.getD k null

/-- Run an action on the heap. -/
def onHeap {α : Type} (act : Action RegionHeap α) : Action Session α :=
  act.onPart Session.heap fun heap s => { s with heap }

/-- The roots that the program has after an operation. -/
def handlesAfter (s : Session) : Operation → Answer → List Nat
  | .dropRoot slot, _ => s.handles.filter (· ≠ slot)
  | _, .slot a => s.handles ++ [a]
  | _, _ => s.handles

/-- The mutators that the program has after an operation. -/
def mutatorsAfter (s : Session) : Operation → Answer → List Nat
  | .destroy m, _ => s.mutators.filter (· ≠ m)
  | _, .mutator m => s.mutators ++ [m]
  | _, _ => s.mutators

/-- What the program has after an operation. -/
def record (s : Session) (op : Operation) (a : Answer) : Session :=
  { s with
    held := s.held ++ a.references
    handles := s.handlesAfter op a
    mutators := s.mutatorsAfter op a
    young := s.young ++ a.created }

/-- An operation of a mutator. -/
def perform (op : Operation) : Action Session Answer := do
  let s ← get
  let a ← onHeap (op.run s.reference)
  modify (·.record op a)
  return a

/-- What the program has after a step of a cycle. -/
def enter (s : Session) (c : CycleStep) (goesOn : Bool) : Session :=
  { s with
    stage := c.next goesOn
    held := []
    young := if c = .initMark then [] else s.young }

/-- A step of a cycle, with all mutators outside of the safepoint.  The program keeps no reference
across it. -/
def advance (c : CycleStep) : Action Session Bool := do
  let goesOn ← onHeap (Mutator.allParked c.run)
  modify (·.enter c goesOn)
  return goesOn

/-- Run a command. -/
def execute : Command → Action Session Answer
  | .operation op => perform op
  | .step c => do return .flag (← advance c)
  | .cancel => do return .flag (← onHeap RegionHeap.cancel)

/-! ## 4. What a program may do -/

/-- The copy of the object at a place that the program may access. -/
def object (s : Session) (k : Nat) : Nat := Object.resolve s.heap.core.memory (s.reference k)

/-- A reference at a place is not null. -/
def IsObject (s : Session) (k : Nat) : Prop := s.reference k ≠ null

/-- The object at a place has `len` fields from `i` on. -/
def HasFields (s : Session) (k i len : Nat) : Prop :=
  s.IsObject k ∧ i + len ≤ Object.refCount s.heap.core.memory (s.object k)

/-- The payload of the object at a place has a word at an offset. -/
def HasWord (s : Session) (k offset : Nat) : Prop :=
  s.IsObject k ∧ wordBytes ∣ offset ∧
    offset + wordBytes ≤ Object.payloadBytes s.heap.core.memory (s.object k)

/-- The operation is on objects, within their bounds, and by a mutator that the program has. -/
def AllowsOperation (s : Session) : Operation → Prop
  | .alloc m _ _ | .allocRaw m _ | .retireTlab m | .flush m | .destroy m => m ∈ s.mutators
  | .clone m src => m ∈ s.mutators ∧ s.IsObject src
  | .loadRef src i => s.HasFields src i 1
  | .storeRef m src i _ | .casRef m src i _ _ => m ∈ s.mutators ∧ s.HasFields src i 1
  | .copyRefs m src si dst di len =>
    m ∈ s.mutators ∧ (len = 0 ∨ (s.HasFields src si len ∧ s.HasFields dst di len))
  | .loadWord src offset | .storeWord src offset _ => s.HasWord src offset
  | .loadRoot slot | .storeRoot slot _ | .dropRoot slot => slot ∈ s.handles
  | .resolve _ | .newRoot _ | .create | .poll => True

/-- The steps of a cycle come in their order; a request to cancel may come at any time. -/
def Allows (s : Session) : Command → Prop
  | .operation op => s.AllowsOperation op
  | .step c => s.stage = c.stage
  | .cancel => True

instance (s : Session) (op : Operation) : Decidable (s.AllowsOperation op) := by
  cases op <;> unfold AllowsOperation <;> unfold HasFields HasWord IsObject <;> infer_instance

instance (s : Session) (c : Command) : Decidable (s.Allows c) := by
  cases c <;> unfold Allows <;> infer_instance

/-- Two references that a program has are to one object. -/
def Same (s : Session) (j k : Nat) : Prop :=
  s.reference j = s.reference k ∨ (s.IsObject j ∧ s.IsObject k ∧ s.object j = s.object k)

end Session

/-! ## 5. The ideal heap -/

/-- The ideal heap, and the identities of the objects that a program has references to. -/
structure IdealSession where
  heap : IdealHeap := {}
  held : List Nat := []

/-- What an operation does on the ideal heap, given whether an allocation finds room.  A payload has
whole words. -/
def Operation.ideal (ref : Nat → Nat) (room : Bool) (h : IdealHeap) :
    Operation → Answer × IdealHeap
  | alloc _ refs payload =>
    if room then (.object (some h.count), h.alloc refs ((payload + 7) / 8 * 8))
    else (.object none, h)
  | allocRaw _ _ => (.memory (if room then some 0 else none), h)
  | clone _ src =>
    if room then (.object (some h.count), h.clone (ref src)) else (.object none, h)
  | loadRef src i => (.reference (h.field (ref src) i), h)
  | storeRef _ src i value => (.done, h.setField (ref src) i (ref value))
  | casRef _ src i expected new =>
    if h.field (ref src) i = ref expected then (.swap none, h.setField (ref src) i (ref new))
    else (.swap (some (h.field (ref src) i)), h)
  | copyRefs _ src si dst di len => (.done, h.copyFields (ref src) si (ref dst) di len)
  | loadWord src offset => (.word (h.word (ref src) offset), h)
  | storeWord src offset word => (.done, h.setWord (ref src) offset word)
  | resolve src => (.reference (ref src), h)
  | newRoot value => (.slot h.nextSlot, h.addRoot (ref value))
  | loadRoot slot => (.reference (h.root slot), h)
  | storeRoot slot value => (.done, h.setRoot slot (ref value))
  | dropRoot _ | retireTlab _ | flush _ | destroy _ => (.done, h)
  | create => (.mutator 0, h)
  | poll => (.flag false, h)

namespace IdealSession

/-- The object at a place. -/
def reference (t : IdealSession) (k : Nat) : Nat := t.held.getD k null

/-- Run a command, given the answer that it has on the real heap.  Of that answer only matters
whether an allocation found room; whether a cycle goes on is nothing that the ideal heap knows. -/
def execute (c : Command) (real : Answer) (t : IdealSession) : Answer × IdealSession :=
  match c with
  | .operation op =>
    let (a, heap) := op.ideal t.reference real.found t.heap
    (a, { heap, held := t.held ++ a.references })
  | .step _ => (real, { t with held := [] })
  | .cancel => (real, t)

end IdealSession

end ManagedHeap
