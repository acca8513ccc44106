/-
# Operations of a program

An operation that a program may give ends, and does on the heap what `Operation.ideal` does on the
ideal heap: `Performed` says so, and what the operation keeps.  The answers are to be the same as
far as a program sees them, and the references that it is given are to the objects with the
identities that the ideal heap gives.

`Session.Sound` is what holds of a session between two commands, and operations keep it.  They need
less: `Session.Ready` leaves open who has the buffers that a region counts.
-/
import ManagedHeap.Proofs.Program
import ManagedHeap.Proofs.Creation
import Mathlib.Data.List.GetD

namespace ManagedHeap

/-! ## 1. What an operation does -/

/-- For which mutator an operation allocated, and the range that it was given: its start and its
size. -/
def Operation.given (memory : Memory) : Operation → Answer → Option (Nat × Nat × Nat)
  | .alloc m _ _, .object (some o) | .clone m _, .object (some o) =>
    some (m, o, Object.size memory o)
  | .allocRaw m k, .memory (some a) => some (m, a, Mutator.roundedSize k)
  | _, _ => none

/-- An answer that gives no memory, no mutator and no root. -/
def Answer.plain : Answer → Bool
  | .done | .flag _ | .word _ | .reference _ | .swap _ => true
  | _ => false

theorem Operation.given_of_plain {memory : Memory} {op : Operation} {a : Answer}
    (h : a.plain = true) : op.given memory a = none := by
  cases a <;> cases h <;> cases op <;> rfl

namespace HeapView

/-- An operation has given `a` and has done what took the ideal heap to `I`, with `b`. -/
structure Performed (V : HeapView) (W : World) (V' : HeapView) (W' : World) (st : Stage)
    (op : Operation) (a b : Answer) (I : IdealHeap) (ts : List MarkTask := []) : Prop where
  inv : V'.Inv W' st ts
  persists : V.Persists W V' W'
  ideal : W'.ideal = I
  seen : a.seen = b.seen
  names : a.references.map W'.name = b.references
  refers : ∀ v ∈ a.references, v = 0 ∨ V'.Refers W' v
  /-- All that is handed out is current, but for what a compare-and-swap found. -/
  clean : ∀ v ∈ a.references, a = .swap (some v) ∨ V'.Clean W' v
  bound : ∀ {m}, (V.mutator? m).isSome = true → op = .destroy m ∨ (V'.mutator? m).isSome = true
  made : ∀ {m}, a = .mutator m → (V'.mutator? m).isSome = true
  roots : ∀ {slot}, V.HasRoot slot → op = .dropRoot slot ∨ V'.HasRoot slot
  rooted : ∀ {slot}, a = .slot slot → V'.HasRoot slot
  given : ∀ {m x n}, op.given V'.memory a = some (m, x, n) → V.Gives V' m x n
  raw : ∀ {m k x}, op = .allocRaw m k → a = .memory (some x) → V'.Claim x (Mutator.roundedSize k)

section
variable {V V' : HeapView} {W W' : World} {st : Stage} {op : Operation} {I J : IdealHeap}
  {r? : Option Nat} {v n : Nat} {a b : Answer} {ts : List MarkTask}

theorem Evolves.hasRoot (E : V.Evolves W V' W') (h : V.HasRoot v) : V'.HasRoot v := by
  obtain ⟨c, hc, hl, hs⟩ := h
  exact ⟨c, E.handles hc hl, hl, hs⟩

/-- An operation with a plain answer. -/
theorem Simulates.plain (S : V.Simulates W V' W' st ts I) (ha : a.plain = true)
    (hseen : a.seen = b.seen) (hnames : a.references.map W'.name = b.references)
    (hrefers : ∀ v ∈ a.references, v = 0 ∨ V'.Refers W' v)
    (hclean : ∀ v ∈ a.references, a = .swap (some v) ∨ V'.Clean W' v) :
    V.Performed W V' W' st op a b I ts where
  inv := S.inv
  persists := S.evolves.toPersists
  ideal := S.ideal
  seen := hseen
  names := hnames
  refers := hrefers
  clean := hclean
  bound h := .inr (S.evolves.bound h)
  made h := by
    rw [h] at ha
    cases ha
  roots h := .inr (S.evolves.hasRoot h)
  rooted h := by
    rw [h] at ha
    cases ha
  given h := by
    rw [Operation.given_of_plain ha] at h
    cases h
  raw _ h := by
    rw [h] at ha
    cases ha

/-- An operation with a plain answer that is no reference. -/
theorem Simulates.value (S : V.Simulates W V' W' st ts I) (ha : a.plain = true)
    (hr : a.references = []) : V.Performed W V' W' st op a a I ts :=
  S.plain ha rfl (by rw [hr]; rfl) (by simp [hr]) (by simp [hr])

/-- An operation that gives nothing. -/
theorem Simulates.done (op : Operation) (S : V.Simulates W V' W' st ts I) :
    V.Performed W V' W' st op .done .done I ts := S.value rfl rfl

theorem Faithful.sight_name (F : V.Faithful W st) (h : v = 0 ∨ V.Refers W v) :
    Answer.sight (W.name v) = Answer.sight v := by
  rcases h with rfl | h
  · rw [F.name_zero]
  · have h1 := F.name_refers_pos h
    have hp : v ≠ null := fun he => by
      rw [he, show W.name null = 0 from F.name_zero] at h1
      exact Nat.lt_irrefl 0 h1
    have hn : W.name v ≠ null := Nat.ne_of_gt h1
    rw [Answer.sight, Answer.sight, if_neg hn, if_neg hp]

/-- An operation that gives a reference. -/
theorem Simulates.reference (S : V.Simulates W V' W' st ts I) (h : V'.Clean W' v)
    (hn : W'.name v = n) : V.Performed W V' W' st op (.reference v) (.reference n) I ts :=
  S.plain rfl (by rw [Answer.seen, Answer.seen, ← hn, S.inv.faithful.sight_name h.names.1])
    (by rw [← hn]; rfl) (fun _ hw => List.mem_singleton.1 hw ▸ h.names.1)
    fun _ hw => .inr (List.mem_singleton.1 hw ▸ h)

end

end HeapView

namespace Mutator

open HeapView

/-- A compare-and-swap. -/
theorem Exchanged.performed {V V' : HeapView} {W W' : World} {st : Stage} {op : Operation}
    {out : CasOutcome} {o i n x : Nat} {ts : List MarkTask}
    (X : Exchanged V W V' W' st ts out o i n x) :
    V.Performed W V' W' st op (.swap out.witness?)
      (if W.ideal.field o i = n then .swap none else .swap (some (W.ideal.field o i)))
      (if W.ideal.field o i = n then W.ideal.setField o i x else W.ideal) ts := by
  by_cases he : W.ideal.field o i = n
  · obtain ⟨hw, S⟩ := X.swapped he
    rw [if_pos he, if_pos he, hw]
    exact S.value rfl rfl
  · obtain ⟨w, hw, S, hn⟩ := X.failed he
    rw [if_neg he, if_neg he, hw]
    refine S.plain rfl ?_ (by rw [← hn.2]; rfl) (fun _ hw' => List.mem_singleton.1 hw' ▸ hn.1)
      fun _ hw' => .inl (by rw [List.mem_singleton.1 hw'])
    rw [Answer.seen, Answer.seen, ← hn.2, Option.map_some, Option.map_some,
      S.inv.faithful.sight_name hn.1]

/-- An allocation of an object. -/
theorem Allocates.performed {V V' : HeapView} {W : World} {st : Stage} {op : Operation} {m : Nat}
    {J : IdealHeap} {r? : Option Nat} {ts : List MarkTask} (A : Allocates V W st ts J m r? V')
    (hop : ∀ memory o, op.given memory (.object (some o)) = some (m, o, Object.size memory o))
    (hnone : ∀ memory, op.given memory (.object none) = none) :
    ∃ W', V.Performed W V' W' st op (.object r?)
      (if r?.isSome then (.object (some W.ideal.count), J) else (.object none, W.ideal)).1
      (if r?.isSome then (Answer.object (some W.ideal.count), J) else (.object none, W.ideal)).2
      ts := by
  cases r? with
  | none =>
    obtain ⟨W', S⟩ := A
    exact ⟨W', { S.done op with
      seen := rfl
      names := rfl
      clean := by simp [Answer.references]
      made := fun h => by cases h
      rooted := fun h => by cases h
      given := fun h => by
        rw [hnone] at h
        cases h
      raw := fun _ h => by cases h }⟩
  | some o =>
    obtain ⟨W', S, ho, hn, hgives⟩ := A
    exact ⟨W', { S.done op with
      seen := by
        show Answer.object (some _) = Answer.object (some _)
        rw [← hn, S.inv.faithful.sight_name (.inr ho.refers)]
      names := by
        show [W'.name o] = [W.ideal.count]
        rw [hn]
      refers := fun w hw => List.mem_singleton.1 hw ▸ .inr ho.refers
      clean := fun w hw => .inr (List.mem_singleton.1 hw ▸ .inr ho)
      made := fun h => by cases h
      rooted := fun h => by cases h
      given := fun h => by
        rw [hop] at h
        cases h
        exact hgives
      raw := fun _ h => by cases h }⟩

end Mutator

/-! ## 2. The invariant of a session -/

/-- What operations need, and keep. -/
structure Session.Ready (s : Session) (W : World) (ts : List MarkTask := []) : Prop where
  inv : s.heap.view.Inv W s.stage ts
  inStage : s.heap.view.InStage s.stage
  loose : W.loose = ∅
  joined : s.heap.view.joined = s.heap.view.count
  pending : s.heap.view.pending = false
  balanced : s.heap.view.Balanced
  mutators : ∀ m ∈ s.mutators, (s.heap.view.mutator? m).isSome = true
  handles : ∀ slot ∈ s.handles, s.heap.view.HasRoot slot
  held : ∀ v ∈ s.held, v = 0 ∨ s.heap.view.Refers W v

/-- What holds between two commands: the buffers are those of the mutators as well. -/
structure Session.Sound (s : Session) (W : World) (ts : List MarkTask := []) : Prop
    extends s.Ready W ts where
  counted : s.heap.view.Counted none

/-- The ideal session that a session stands for. -/
def Session.ideal (s : Session) (W : World) : IdealSession := ⟨W.ideal, s.held.map W.name⟩

namespace Session.Ready

open HeapView Mutator

variable {s : Session} {W : World} {ts : List MarkTask} {m k i len offset slot : Nat}
  {op : Operation} {a b : Answer}

/-- What a program has at a place is null or refers to an object. -/
theorem reference (S : s.Ready W ts) (k : Nat) :
    s.heap.view.Names W (s.reference k) ((s.ideal W).reference k) := by
  have hn : (s.held.map W.name).getD k 0 = W.name (s.held.getD k 0) := by
    have h := List.getD_map (l := s.held) (n := k) (d := 0) W.name
    rwa [S.inv.faithful.name_zero] at h
  refine ⟨?_, hn.symm⟩
  by_cases hk : k < s.held.length
  · rw [Session.reference, List.getD_eq_getElem _ _ hk]
    exact S.held _ (List.getElem_mem hk)
  · exact .inl (List.getD_eq_default _ _ (Nat.le_of_not_lt hk))

theorem refers (S : s.Ready W ts) (h : s.IsObject k) : s.heap.view.Refers W (s.reference k) :=
  (S.reference k).1.resolve_left h

/-- The bounds of fields are those of the ideal object. -/
theorem fields (S : s.Ready W ts) (h : s.HasFields k i len) :
    s.heap.view.Refers W (s.reference k) ∧
      i + len ≤ W.ideal.refs (W.name (s.reference k)) := by
  have hr := S.refers h.1
  obtain ⟨hmem, hname⟩ := S.inv.faithful.resolve_refers S.inv.layout hr
  refine ⟨hr, ?_⟩
  rw [← hname, ← S.inv.faithful.refs hmem]
  exact h.2

theorem field (S : s.Ready W ts) (h : s.HasFields k i 1) :
    s.heap.view.Refers W (s.reference k) ∧ i < W.ideal.refs (W.name (s.reference k)) :=
  S.fields h

theorem word (S : s.Ready W ts) (h : s.HasWord k offset) :
    s.heap.view.Refers W (s.reference k) ∧ 8 ∣ offset ∧
      offset + 8 ≤ W.ideal.bytes (W.name (s.reference k)) := by
  have hr := S.refers h.1
  obtain ⟨hmem, hname⟩ := S.inv.faithful.resolve_refers S.inv.layout hr
  refine ⟨hr, h.2.1, ?_⟩
  rw [← hname, ← S.inv.faithful.bytes hmem]
  exact h.2.2

theorem mutator (S : s.Ready W ts) (h : m ∈ s.mutators) :
    ∃ t, s.heap.view.mutator? m = some t := Option.isSome_iff_exists.1 (S.mutators m h)

/-- A copy of no fields is nothing. -/
theorem copyFields_zero (h : IdealHeap) (src si dst di : Nat) : h.copyFields src si dst di 0 = h := by
  have : (fun i => if di ≤ i ∧ i < di + 0 then h.field src (si + (i - di)) else h.field dst i) =
      h.field dst := by
    funext i
    exact if_neg (by omega)
  rw [IdealHeap.copyFields, this, Function.update_eq_self]

/-! ## 3. Every operation -/

/-- **An operation that a program may give ends**, and does on the heap what it does on the ideal
heap. -/
theorem ends_run (S : s.Ready W ts) (ha : s.AllowsOperation op) :
    Ends (op.run s.reference) s.heap fun a h' => ∃ W',
      s.heap.view.Performed W h'.view W' s.stage op a
        (op.ideal (s.ideal W).reference a.found W.ideal).1
        (op.ideal (s.ideal W).reference a.found W.ideal).2 ts := by
  have I := S.inv
  have hs := S.inStage
  have href (k : Nat) : (s.ideal W).reference k = W.name (s.reference k) := (S.reference k).2.symm
  cases op with
  | alloc m refs payload =>
    obtain ⟨t, hm⟩ := S.mutator ha
    simp only [Operation.run, ends_bind, ends_pure]
    exact (ends_allocateObject I hs hm).mono fun _ _ A =>
      Allocates.performed A (fun _ _ => rfl) fun _ => rfl
  | allocRaw m k =>
    obtain ⟨t, hm⟩ := S.mutator ha
    simp only [Operation.run, ends_bind, ends_pure]
    refine (ends_allocate_simulates I hm).mono ?_
    rintro r? h' ⟨A, O⟩
    refine ⟨W, ?_⟩
    exact { A.done (.allocRaw m k) with
      seen := by
        show Answer.memory _ = Answer.memory _
        cases r? <;> rfl
      names := rfl
      refers := by simp [Answer.references]
      clean := by simp [Answer.references]
      made := fun h => by cases h
      rooted := fun h => by cases h
      given := fun {m' x n} h => by
        cases r? with
        | none => cases h
        | some y =>
          cases h
          exact (O x rfl).2
      raw := fun {m' k' x} he hx => by
        cases he
        cases hx
        exact (O x rfl).1 }
  | clone m src =>
    obtain ⟨t, hm⟩ := S.mutator ha.1
    simp only [Operation.run, ends_bind, ends_pure]
    refine (ends_cloneObject I hs hm (S.refers ha.2)).mono fun _ _ A => ?_
    simp only [Operation.ideal, href]
    exact Allocates.performed A (fun _ _ => rfl) fun _ => rfl
  | loadRef src i =>
    obtain ⟨hr, hi⟩ := S.field ha
    simp only [Operation.run, ends_bind, ends_pure]
    refine (ends_loadRef I hs hr hi).mono ?_
    rintro _ _ ⟨W', A, hc, hn⟩
    refine ⟨W', ?_⟩
    simp only [Operation.ideal, href]
    exact A.reference hc hn
  | storeRef m src i value =>
    obtain ⟨t, hm⟩ := S.mutator ha.1
    obtain ⟨hr, hi⟩ := S.field ha.2
    simp only [Operation.run, ends_bind, ends_pure]
    refine (ends_storeRef I hs hm hr hi (S.reference value)).mono ?_
    rintro _ _ ⟨W', A, -⟩
    refine ⟨W', ?_⟩
    simp only [Operation.ideal, href src]
    exact A.done _
  | casRef m src i expected new =>
    obtain ⟨t, hm⟩ := S.mutator ha.1
    obtain ⟨hr, hi⟩ := S.field ha.2
    simp only [Operation.run, ends_bind, ends_pure]
    refine (ends_casRef I hs hm hr hi (S.reference expected) (S.reference new)).mono ?_
    rintro _ _ ⟨W', X, -⟩
    refine ⟨W', ?_⟩
    simp only [Operation.ideal, href src, apply_ite Prod.fst, apply_ite Prod.snd]
    exact X.performed
  | copyRefs m src si dst di len =>
    obtain ⟨t, hm⟩ := S.mutator ha.1
    simp only [Operation.run, ends_bind, ends_pure]
    by_cases hlen : len = 0
    · subst hlen
      simp only [copyRefs, if_true, ends_pure, Operation.ideal, copyFields_zero]
      exact ⟨W, Simulates.done _ ⟨I, Evolves.refl _ _, rfl⟩⟩
    · obtain ⟨h1, h2⟩ := ha.2.resolve_left hlen
      obtain ⟨hr, hi⟩ := S.fields h1
      obtain ⟨hr', hi'⟩ := S.fields h2
      refine (ends_copyRefs I hs hm hlen hr hr' hi hi').mono ?_
      rintro _ _ ⟨W', A, -⟩
      refine ⟨W', ?_⟩
      simp only [Operation.ideal, href]
      exact A.done _
  | loadWord src offset =>
    obtain ⟨hr, hk, hle⟩ := S.word ha
    simp only [Operation.run, ends_bind, ends_pure]
    refine (ends_loadWord I hs hr hk hle).mono ?_
    rintro _ _ ⟨hx, W', A⟩
    refine ⟨W', ?_⟩
    simp only [Operation.ideal, href, hx]
    exact A.value rfl rfl
  | storeWord src offset x =>
    obtain ⟨hr, hk, hle⟩ := S.word ha
    simp only [Operation.run, ends_bind, ends_pure]
    refine (ends_storeWord I hs hr hk hle).mono ?_
    rintro _ _ ⟨W', A⟩
    refine ⟨W', ?_⟩
    simp only [Operation.ideal, href]
    exact A.done _
  | resolve src =>
    simp only [Operation.run, ends_bind, ends_pure]
    refine (ends_resolve I hs (S.reference src).1).mono ?_
    rintro r h' ⟨W', R, _⟩
    refine ⟨W', ?_⟩
    have A : s.heap.view.Simulates W h'.view W' s.stage ts W.ideal := R.toTransparent.simulates
    exact A.reference R.result (R.name.trans (href src).symm)
  | newRoot value =>
    simp only [Operation.run, ends_bind, ends_pure]
    refine (ends_newRoot I hs (S.reference value)).mono ?_
    rintro slot h' ⟨hx, hroot, W', A⟩
    refine ⟨W', ?_⟩
    simp only [Operation.ideal, ← hx]
    exact { A.done (.newRoot value) with
      seen := rfl
      names := rfl
      clean := by simp [Answer.references]
      made := fun h => by cases h
      rooted := fun h => by
        cases h
        exact hroot
      given := fun h => by cases h
      raw := fun h => by cases h }
  | loadRoot slot =>
    simp only [Operation.run, ends_bind, ends_pure]
    refine (ends_loadRoot I hs (S.handles slot ha)).mono ?_
    rintro _ _ ⟨W', A, hc, hn⟩
    exact ⟨W', A.reference hc hn⟩
  | storeRoot slot value =>
    simp only [Operation.run, ends_bind, ends_pure]
    have hge : rootBase ≤ slot := by
      obtain ⟨c, hc, -, rfl⟩ := S.handles slot ha
      exact I.layout.slot_ge hc
    refine (ends_storeRoot I hs hge (S.reference value)).mono ?_
    rintro _ _ ⟨W', A⟩
    refine ⟨W', ?_⟩
    exact A.done _
  | dropRoot slot =>
    simp only [Operation.run, ends_bind, ends_pure]
    refine (ends_dropRoot I).mono ?_
    rintro _ h' ⟨I', P, hm, hroot⟩
    refine ⟨W, ?_⟩
    exact
      { inv := I'
        persists := P
        ideal := rfl
        seen := rfl
        names := rfl
        refers := by simp [Answer.references]
        clean := by simp [Answer.references]
        bound := fun h => .inr (by rwa [HeapView.mutator?, hm])
        made := fun h => by cases h
        roots := fun {x} h => by
          by_cases he : x = slot
          · exact .inl (he ▸ rfl)
          · exact .inr (hroot he h)
        rooted := fun h => by cases h
        given := fun h => by cases h
        raw := fun h => by cases h }
  | retireTlab m =>
    obtain ⟨t, hm⟩ := S.mutator ha
    simp only [Operation.run, ends_bind, ends_pure]
    refine (ends_retireTlab_simulates I hm).mono ?_
    rintro _ _ ⟨A, _⟩
    exact ⟨W, A.done _⟩
  | flush m =>
    obtain ⟨t, hm⟩ := S.mutator ha
    simp only [Operation.run, ends_bind, ends_pure]
    refine (ends_flush I hm).mono ?_
    rintro _ _ ⟨A, _⟩
    exact ⟨W, A.done _⟩
  | create =>
    simp only [Operation.run, ends_bind, ends_pure]
    refine (ends_create I S.pending).mono ?_
    rintro k h' ⟨hk, A⟩
    refine ⟨W, ?_⟩
    exact { A.done .create with
      seen := rfl
      names := rfl
      clean := by simp [Answer.references]
      made := fun h => by
        cases h
        exact hk
      rooted := fun h => by cases h
      given := fun h => by cases h
      raw := fun h => by cases h }
  | destroy m =>
    obtain ⟨t, hm⟩ := S.mutator ha
    simp only [Operation.run, ends_bind, ends_pure]
    refine (ends_destroy I hm S.joined).mono ?_
    rintro _ h' ⟨I', P, hroots, hb⟩
    refine ⟨W, ?_⟩
    exact
      { inv := I'
        persists := P
        ideal := rfl
        seen := rfl
        names := rfl
        refers := by simp [Answer.references]
        clean := by simp [Answer.references]
        bound := fun {x} h => by
          by_cases he : x = m
          · exact .inl (he ▸ rfl)
          · exact .inr (hb he h)
        made := fun h => by cases h
        roots := fun h => .inr (by rwa [HasRoot, hroots])
        rooted := fun h => by cases h
        given := fun h => by cases h
        raw := fun h => by cases h }
  | poll =>
    have hp : s.heap.safepoint.pending = false := S.pending
    have hsp : Heap.safepoint? s.heap = some s.heap.safepoint := rfl
    simp only [Operation.run, Mutator.poll, ends_bind, ends_get, hsp, ends_onPart, Safepoint.poll, hp,
      ends_ite, ends_pure]
    refine ⟨(fun h => by cases h), fun _ => ⟨W, ?_⟩⟩
    have A : s.heap.view.Simulates W s.heap.view W s.stage ts W.ideal := ⟨I, Evolves.refl _ _, rfl⟩
    exact A.value rfl rfl

end Session.Ready

end ManagedHeap
