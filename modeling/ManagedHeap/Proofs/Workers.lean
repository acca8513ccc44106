/-
# Marking by any number of workers

The collector marks with several workers, while mutators run.  What a worker finds first, and whose
step comes next, is not known: `Crew` is what each worker has begun, and `CrewStep` lets any of them
go on, with any grey object or completed buffer when it has begun nothing.

* Section 1: crews.  Each of their steps keeps the invariant of marking.
* Section 2: a crew is never stuck, and cannot go on for ever; when it stops, nothing is left to be
  marked.
* Section 3: the code that marks alone is a crew of one.
-/
import ManagedHeap.Proofs.Marking
import Mathlib.Algebra.BigOperators.Fin
import Mathlib.Data.List.FinRange
import Mathlib.Logic.Relation

namespace ManagedHeap

open Relation

/-! ## 1. Crews -/

/-- A sum over workers, when one of them changes. -/
theorem sum_update {α : Type} {n : Nat} (f : α → Nat) (c : Fin n → α) (k : Fin n) (a : α) :
    ∑ j, f (Function.update c k a j) + f (c k) = ∑ j, f (c j) + f a := by
  have hmem : k ∈ Finset.univ := Finset.mem_univ k
  have hrest : ∑ j ∈ Finset.univ.erase k, f (Function.update c k a j) =
      ∑ j ∈ Finset.univ.erase k, f (c j) := by
    refine Finset.sum_congr rfl fun j hj => ?_
    rw [Function.update_of_ne (Finset.ne_of_mem_erase hj)]
  have h1 := Finset.sum_erase_add Finset.univ (fun j => f (Function.update c k a j)) hmem
  have h2 := Finset.sum_erase_add Finset.univ (fun j => f (c j)) hmem
  rw [hrest, Function.update_self] at h1
  omega

/-- What each of `n` workers has begun. -/
abbrev Crew (n : Nat) := Fin n → List MarkTask

namespace Crew

variable {n : Nat} {c : Crew n} {k : Fin n} {l : List MarkTask} {t : MarkTask}

/-- No worker has begun anything. -/
def idle : Crew n := fun _ => []

/-- The tasks of all workers. -/
def tasks (c : Crew n) : List MarkTask := (List.finRange n).flatMap c

/-- The crew when one worker has other tasks. -/
def set (c : Crew n) (k : Fin n) (l : List MarkTask) : Crew n := Function.update c k l

theorem set_self : c.set k (c k) = c := Function.update_eq_self k c

@[simp] theorem set_apply_self : (c.set k l) k = l := by simp [set]

theorem set_set {l' : List MarkTask} : (c.set k l).set k l' = c.set k l' := by
  simp [set]

theorem tasks_idle : (idle : Crew n).tasks = [] := by simp [tasks, idle]

/-- A number for each worker, added up. -/
def total (f : List MarkTask → Nat) (c : Crew n) : Nat := ∑ k, f (c k)

theorem total_set (f : List MarkTask → Nat) :
    total f (c.set k l) + f (c k) = total f c + f l := sum_update f c k l

theorem count_tasks : c.tasks.count t = total (List.count t) c := by
  rw [tasks, List.count_flatMap, total, Fin.sum_univ_def]
  rfl

/-- The tasks of a worker that has other tasks, and of the others. -/
theorem tasks_set_perm : (c.set k l).tasks.Perm (l ++ (c.set k []).tasks) := by
  refine List.perm_iff_count.2 fun t => ?_
  have h1 := total_set (c := c) (k := k) (l := l) (List.count t)
  have h2 := total_set (c := c) (k := k) (l := []) (List.count t)
  rw [List.count_append, count_tasks, count_tasks]
  rw [List.count_nil] at h2
  omega

/-- The tasks of one worker, and of the others. -/
theorem tasks_perm : c.tasks.Perm (c k ++ (c.set k []).tasks) := by
  have h := tasks_set_perm (c := c) (k := k) (l := c k)
  rwa [set_self] at h

end Crew

/-- A step of one worker of a crew. -/
inductive CrewStep {n : Nat} : RegionHeap × Crew n → RegionHeap × Crew n → Prop where
  | step {h h' : RegionHeap} {c : Crew n} (k : Fin n) {l : List MarkTask} :
    RegionHeap.WorkerStep (h, c k) (h', l) → CrewStep (h, c) (h', c.set k l)

/-- A crew of `n` workers that has begun nothing takes a heap to one where nothing is left to be
marked. -/
def Drains (n : Nat) (h h' : RegionHeap) : Prop :=
  ReflTransGen CrewStep (h, (Crew.idle : Crew n)) (h', Crew.idle) ∧ RegionHeap.Finished h'.view

namespace HeapView

variable {V : HeapView} {W : World} {st : Stage} {ts ts' : List MarkTask}

/-- In which order tasks are listed does not matter. -/
theorem Inv.reorder (I : V.Inv W st ts) (h : ts.Perm ts') : V.Inv W st ts' := by
  refine ⟨I.layout, I.faithful, fun hst => ?_⟩
  have hacc {v : Nat} (ha : V.Accounted ts v) : V.Accounted ts' v :=
    ha.imp_right (Or.imp_right h.mem_iff.1)
  have huntr {o i : Nat} (hu : V.Untraced ts o i) : V.Untraced ts' o i :=
    hu.imp_right (Or.imp_right (Or.imp h.mem_iff.1 h.mem_iff.1))
  exact (I.snapshot hst).step (Marks.refl V) (fun _ => hacc) (fun _ _ hu => .inl (huntr hu))
    (fun _ hl => .inl hl) id (I.snapshot hst).grey fun ht => (I.snapshot hst).tasks (h.mem_iff.2 ht)

end HeapView

variable {h h' : RegionHeap} {W : World} {O : Set Nat} {n : Nat} {c c' : Crew n}

/-- **A step of a crew** leaves a heap that can be traced. -/
theorem CrewStep.traceable (K : CrewStep (h, c) (h', c')) (T : h.view.Traceable O c.tasks) :
    h'.view.Traceable O c'.tasks ∧ h.view.Marks h'.view := by
  cases K with
  | @step _ _ _ k l K =>
    obtain ⟨T', M⟩ := K.traceable (T.reorder Crew.tasks_perm)
    exact ⟨T'.reorder Crew.tasks_set_perm.symm, M⟩

/-- **A step of a crew** keeps the invariant. -/
theorem CrewStep.inv (K : CrewStep (h, c) (h', c'))
    (I : h.view.Inv W .marking c.tasks) :
    h'.view.Inv W .marking c'.tasks ∧ h.view.Marks h'.view := by
  cases K with
  | @step _ _ _ k l K =>
    obtain ⟨I', M⟩ := K.inv (I.reorder Crew.tasks_perm)
    exact ⟨I'.reorder Crew.tasks_set_perm.symm, M⟩

/-- Many steps of a crew keep the invariant. -/
theorem CrewStep.inv_steps (K : ReflTransGen CrewStep (h, c) (h', c'))
    (I : h.view.Inv W .marking c.tasks) :
    h'.view.Inv W .marking c'.tasks ∧ h.view.Marks h'.view := by
  obtain ⟨x, hx⟩ : ∃ x, x = (h', c') := ⟨_, rfl⟩
  rw [← hx] at K
  induction K generalizing h' c' with
  | refl =>
    cases hx
    exact ⟨I, .refl _⟩
  | @tail y z _ hstep ih =>
    subst hx
    obtain ⟨h₁, c₁⟩ := y
    obtain ⟨I₁, M₁⟩ := ih rfl
    obtain ⟨I₂, M₂⟩ := hstep.inv I₁
    exact ⟨I₂, M₁.trans M₂⟩

/-! ## 2. Crews come to their end -/

namespace MarkTask

/-- How many steps are left of a task, at most. -/
def weight : MarkTask → Nat
  | slot _ => 3
  | entry _ => 2
  | push _ => 1

/-- An object that is marked and not grey yet. -/
def isPush : MarkTask → Bool
  | push _ => true
  | _ => false

end MarkTask

/-- What a worker has left to do of its tasks. -/
def tasksWeight : List MarkTask → Nat
  | [] => 0
  | t :: ts => t.weight + tasksWeight ts

/-- The objects that a worker is to make grey. -/
def pushes (ts : List MarkTask) : Nat := ts.countP MarkTask.isPush

section
variable {V : HeapView} {ts ts' : List MarkTask} {a v o : Nat}

@[simp] theorem pushes_nil : pushes [] = 0 := rfl

@[simp] theorem pushes_slot : pushes (.slot a :: ts) = pushes ts := by
  simp [pushes, MarkTask.isPush]

@[simp] theorem pushes_entry : pushes (.entry v :: ts) = pushes ts := by
  simp [pushes, MarkTask.isPush]

@[simp] theorem pushes_push : pushes (.push o :: ts) = pushes ts + 1 := by
  simp [pushes, List.countP_cons, MarkTask.isPush]

@[simp] theorem pushes_append : pushes (ts ++ ts') = pushes ts + pushes ts' := List.countP_append

/-- What a worker takes it has yet to load or to mark. -/
@[simp] theorem pushes_slotTasks : pushes (V.slotTasks o) = 0 := by
  refine List.countP_eq_zero.2 fun t ht => ?_
  obtain ⟨i, -, rfl⟩ := List.mem_map.1 ht
  simp [MarkTask.isPush]

@[simp] theorem pushes_entries {b : List Nat} : pushes (b.map .entry) = 0 := by
  refine List.countP_eq_zero.2 fun t ht => ?_
  obtain ⟨v, -, rfl⟩ := List.mem_map.1 ht
  simp [MarkTask.isPush]

end

namespace RegionHeap

open HeapView

variable {h h' : RegionHeap} {O : Set Nat} {ts ts' os : List MarkTask} {t : MarkTask}

/-- **A worker that has begun something can go on.** -/
theorem exists_workerStep (T : h.view.Traceable O (t :: ts ++ os)) :
    ∃ x, WorkerStep (h, t :: ts) x := by
  cases t with
  | slot a => exact ⟨_, .load⟩
  | push o => exact ⟨_, .push⟩
  | entry v =>
    by_cases h0 : v = null
    · subst h0
      exact ⟨_, .drop⟩
    · have hmem := (T.tasks List.mem_cons_self).resolve_left h0
      obtain ⟨new, h₁, hrun, -⟩ := ends_markObject T.layout (T.published hmem)
      exact ⟨_, .mark h0 hrun⟩

/-- A worker that has begun nothing can go on while something is left to be marked. -/
theorem exists_workerStep_of_idle (hf : ¬ Finished h.view) : ∃ x, WorkerStep (h, []) x := by
  cases hg : h.queue.grey.pop? with
  | some x => exact ⟨_, .takeGrey (l := []) (Queue.toList_of_pop? hg) rfl⟩
  | none =>
    cases hd : h.satb.completed.pop? with
    | some x => exact ⟨_, .takeCompleted (l := []) (Queue.toList_of_pop? hd) rfl⟩
    | none => exact absurd ⟨(Queue.pop?_eq_none_iff _).1 hg, (Queue.pop?_eq_none_iff _).1 hd⟩ hf

/-- **Each step of a worker leaves less to do**: less work, counting what is to be made grey, or as
much and less of the tasks. -/
theorem WorkerStep.decreases (K : WorkerStep (h, ts) (h', ts'))
    (T : h.view.Traceable O (ts ++ os)) :
    h'.view.work + pushes ts' < h.view.work + pushes ts ∨
      (h'.view.work + pushes ts' = h.view.work + pushes ts ∧ tasksWeight ts' < tasksWeight ts) := by
  cases K with
  | @takeGrey _ o l r g hg hg' =>
    left
    have hwork := work_takeGrey hg hg'
    rw [pushes_slotTasks, pushes_nil]
    omega
  | @takeCompleted _ b l r d hd hd' =>
    left
    have hwork := work_takeCompleted hd hd'
    rw [pushes_entries, pushes_nil]
    omega
  | load =>
    right
    simp [tasksWeight, MarkTask.weight]
  | drop =>
    right
    simp [tasksWeight, MarkTask.weight]
  | @mark _ _ v new rest hv hrun =>
    right
    have hmem := (T.tasks List.mem_cons_self).resolve_left hv
    have M := (ends_markObject T.layout (T.published hmem)).of_ok hrun
    have hcount := M.count
    have hwork : h'.view.work + new.toNat = h.view.work := by
      simp only [work, M.grey, M.satb]
      omega
    have hpush : pushes (if new then [.push v] else []) = new.toNat := by
      cases new <;> simp
    have hweight : tasksWeight ((if new then [.push v] else []) ++ rest) =
        tasksWeight rest + new.toNat := by
      cases new <;> simp [tasksWeight, MarkTask.weight, Nat.add_comm]
    have hle : new.toNat ≤ 1 := Bool.toNat_le new
    have hentry : tasksWeight (.entry v :: rest) = tasksWeight rest + 2 := by
      simp [tasksWeight, MarkTask.weight, Nat.add_comm]
    rw [pushes_append, pushes_entry, hpush]
    omega
  | @push _ o _ =>
    right
    constructor
    · rw [pushes_push, work_push]
      omega
    · simp [tasksWeight, MarkTask.weight]

end RegionHeap

section
variable {h h' : RegionHeap} {W : World} {O : Set Nat} {n : Nat} {c c' : Crew n}

theorem CrewStep.decreases (K : CrewStep (h, c) (h', c')) (T : h.view.Traceable O c.tasks) :
    h'.view.work + c'.total pushes < h.view.work + c.total pushes ∨
      (h'.view.work + c'.total pushes = h.view.work + c.total pushes ∧
        c'.total tasksWeight < c.total tasksWeight) := by
  cases K with
  | @step _ _ _ k l K =>
    have h1 := Crew.total_set (c := c) (k := k) (l := l) pushes
    have h2 := Crew.total_set (c := c) (k := k) (l := l) tasksWeight
    rcases K.decreases (T.reorder Crew.tasks_perm) with hlt | ⟨heq, hlt⟩
    · left
      omega
    · right
      constructor
      · omega
      · omega

/-- **A crew cannot go on for ever.** -/
theorem crew_acc (T : h.view.Traceable O c.tasks) :
    Acc (fun y x : RegionHeap × Crew n => CrewStep x y) (h, c) := by
  -- The induction is on the work and, while that stays, on what is left of the tasks.
  induction hw : h.view.work + c.total pushes using Nat.strong_induction_on generalizing h c with
  | _ w ihw =>
  induction hq : c.total tasksWeight using Nat.strong_induction_on generalizing h c with
  | _ q ihq =>
    refine ⟨_, fun y K => ?_⟩
    obtain ⟨h', c'⟩ := y
    have T' := (K.traceable T).1
    rcases K.decreases T with hlt | ⟨heq, hlt⟩
    · exact ihw _ (hw ▸ hlt) T' rfl
    · exact ihq _ (hq ▸ hlt) T' (heq.trans hw) rfl

/-- **A crew is not stuck** as long as something is begun or left to be marked. -/
theorem exists_crewStep (T : h.view.Traceable O c.tasks) (hn : 0 < n)
    (hleft : ¬ (c = Crew.idle ∧ RegionHeap.Finished h.view)) : ∃ y, CrewStep (h, c) y := by
  by_cases hc : ∃ k, c k ≠ []
  · obtain ⟨k, hk⟩ := hc
    obtain ⟨t, ts, hts⟩ := List.exists_cons_of_ne_nil hk
    have T₁ : h.view.Traceable O (t :: ts ++ (c.set k []).tasks) := by
      rw [← hts]
      exact T.reorder Crew.tasks_perm
    obtain ⟨⟨h', l⟩, K⟩ := RegionHeap.exists_workerStep T₁
    exact ⟨_, .step k (hts ▸ K)⟩
  · have hidle : c = Crew.idle := funext fun k => by
      by_contra hk
      exact hc ⟨k, hk⟩
    subst hidle
    obtain ⟨⟨h', l⟩, K⟩ :=
      RegionHeap.exists_workerStep_of_idle fun hf => hleft ⟨rfl, hf⟩
    exact ⟨_, .step (c := Crew.idle) ⟨0, hn⟩ K⟩

/-- **Marking comes to an end**, with nothing left to be marked. -/
theorem exists_drains (I : h.view.Inv W .marking []) (hn : 0 < n) : ∃ h', Drains n h h' := by
  have hacc : ∀ x : RegionHeap × Crew n, Acc (fun y x => CrewStep x y) x →
      x.1.view.Traceable W.objects x.2.tasks →
      ∃ h', ReflTransGen CrewStep x (h', Crew.idle) ∧ RegionHeap.Finished h'.view := by
    intro x hx
    induction hx with
    | intro x _ ih =>
      intro T
      by_cases hleft : x.2 = Crew.idle ∧ RegionHeap.Finished x.1.view
      · obtain ⟨h₁, c₁⟩ := x
        obtain ⟨rfl, hf⟩ := hleft
        exact ⟨h₁, .refl, hf⟩
      · obtain ⟨y, K⟩ := exists_crewStep T hn hleft
        obtain ⟨h', K', hf⟩ := ih y K (CrewStep.traceable K T).1
        exact ⟨h', .head K K', hf⟩
  have T₀ : h.view.Traceable W.objects (Crew.idle : Crew n).tasks := by
    rw [Crew.tasks_idle]
    exact I.traceable
  exact hacc (h, Crew.idle) (crew_acc T₀) T₀

end

/-! ## 3. The code is a crew of one -/

/-- What a worker does is done in a crew as well. -/
theorem RegionHeap.WorkerSteps.crew {n : Nat} {c : Crew n} {k : Fin n} {x y : RegionHeap × List MarkTask}
    (K : RegionHeap.WorkerSteps x y) :
    ReflTransGen CrewStep (x.1, c.set k x.2) (y.1, c.set k y.2) := by
  induction K with
  | refl => exact .refl
  | @tail y z _ hstep ih =>
    refine ih.tail ?_
    have hk : RegionHeap.WorkerStep (y.1, (c.set k y.2) k) (z.1, z.2) := by
      rw [Crew.set_apply_self]
      exact hstep
    have := CrewStep.step k hk
    rwa [Crew.set_set] at this

/-- **The code that marks is a crew of one worker**, which stops early only when it may. -/
theorem RegionHeap.ends_drain_drains {h : RegionHeap} {W : World} {cancellable : Bool}
    (I : h.view.Inv W .marking []) :
    Ends (RegionHeap.drain cancellable) h fun _ h' => cancellable = true ∨ Drains 1 h h' := by
  refine (RegionHeap.ends_drain_inv I).mono ?_
  rintro b h' ⟨hno, hyes⟩
  cases b with
  | false => exact .inl (hno rfl).1
  | true =>
    obtain ⟨-, -, K, hf⟩ := hyes rfl
    have hset : (Crew.idle : Crew 1).set 0 [] = Crew.idle := Crew.set_self
    have := RegionHeap.WorkerSteps.crew (c := (Crew.idle : Crew 1)) (k := 0) K
    rw [hset] at this
    exact .inr ⟨this, hf⟩

end ManagedHeap
