/-
# The workers of a marking, and how they find out that it is over

A worker that sees no grey object looks for a completed buffer, and when there is none either it
counts itself as idle and waits.  It goes back to work when it sees some again, and leaves when all
workers are counted.  Nothing of this is one step: between what a worker saw and what it does about it
the others go on (`PoolStep`).  Looking in vain while it waits changes nothing, and is no step.

That no work is lost rests on one observation.  Only a worker that is busy makes objects grey, and it
looks for grey objects again before it looks for anything else; completed buffers only become fewer.
So there is a busy worker for what is grey, and a busy one or one that is to look at the buffers for
what is completed (`Pool.Ok`).  When all have left there is none.

* Section 1: workers and their steps.
* Section 2: the invariant.
* Section 3: what is left to do, which every step lowers; so a pool cannot go on for ever.
* Section 4: a pool is not stuck before all have left.
* Section 5: what marking gives, when all have left and it was not stopped.
* Section 6: the code that marks alone is a pool of one worker.
* Section 7: marking ends, and traces each object once.
-/
import ManagedHeap.Proofs.Tracing
import ManagedHeap.Proofs.Cancellation
import Mathlib.Data.Prod.Lex
import Mathlib.Order.WellFounded

namespace ManagedHeap

open Relation RegionHeap

/-! ## 1. Pools -/

/-- What a worker does. -/
inductive Duty where
  /-- It has tasks, or looks for a grey object when it has none. -/
  | busy (ts : List MarkTask)
  /-- It saw no grey object, and is to look for a completed buffer. -/
  | looked
  /-- It saw no completed buffer either, and is to count itself as idle. -/
  | starved
  /-- It counts as idle. -/
  | waiting
  /-- It saw work while it was waiting, and still counts as idle. -/
  | waking
  | gone

namespace Duty

/-- The tasks that a worker has begun. -/
def tasks : Duty → List MarkTask
  | busy ts => ts
  | _ => []

/-- How often a worker counts as idle. -/
def idle : Duty → Nat
  | busy _ => 0
  | looked => 0
  | starved => 0
  | _ => 1

/-- It looks for grey objects before it does anything about what it saw. -/
def seeks : Duty → Bool
  | busy _ => true
  | _ => false

/-- It looks for completed buffers before it counts as idle. -/
def seeksBuffers : Duty → Bool
  | busy _ => true
  | looked => true
  | _ => false

theorem seeksBuffers_of_seeks {d : Duty} (h : d.seeks = true) : d.seeksBuffers = true := by
  cases d with
  | busy ts => rfl
  | _ => cases h

end Duty

/-- A pool of `n` workers: the heap, what each worker does, the count of idle ones, and the objects
that were traced. -/
structure Pool (n : Nat) where
  heap : RegionHeap
  duty : Fin n → Duty
  idle : Nat
  done : List Nat

namespace Pool

variable {n : Nat}

/-- The workers begin to look for work. -/
def start (h : RegionHeap) : Pool n := ⟨h, fun _ => .busy [], 0, []⟩

/-- The pool when one worker does something else. -/
def give (p : Pool n) (k : Fin n) (d : Duty) : Pool n := { p with duty := Function.update p.duty k d }

/-- What each worker has begun. -/
def crew (p : Pool n) : Crew n := fun k => (p.duty k).tasks

/-- A number for each worker, added up. -/
def total (f : Duty → Nat) (p : Pool n) : Nat := ∑ k, f (p.duty k)

/-- All workers have left. -/
def Over (p : Pool n) : Prop := ∀ k, p.duty k = .gone

/-- The workers may stop early, and were asked to. -/
def Cancelled (cancellable : Bool) (p : Pool n) : Prop :=
  cancellable = true ∧ p.heap.cancelRequested = true

/-- What marking gives when all have left: whether it was not to be stopped. -/
def finished (cancellable : Bool) (p : Pool n) : Bool := !(cancellable && p.heap.cancelRequested)

end Pool

/-- **A step of a pool.**  One of its workers goes on, with any grey object or completed buffer, or
the cycle is asked to stop. -/
inductive PoolStep {n : Nat} (cancellable : Bool) : Pool n → Pool n → Prop where
  | take {p : Pool n} {k : Fin n} {o : Nat} {l r : List Nat} {g : Queue Nat} :
    p.duty k = .busy [] → p.heap.queue.grey.toList = l ++ o :: r → g.toList = l ++ r →
      PoolStep cancellable p { p.give k (.busy (p.heap.view.slotTasks o)) with
        heap := { p.heap with queue := { p.heap.queue with grey := g } }
        done := p.done ++ [o] }
  | look {p : Pool n} {k : Fin n} : p.duty k = .busy [] → p.heap.queue.grey.toList = [] →
      PoolStep cancellable p (p.give k .looked)
  | takeBuffer {p : Pool n} {k : Fin n} {b : List Nat} {l r : List (List Nat)}
      {c : Queue (List Nat)} :
    p.duty k = .looked → p.heap.satb.completed.toList = l ++ b :: r → c.toList = l ++ r →
      PoolStep cancellable p { p.give k (.busy (b.map .entry)) with
        heap := { p.heap with satb := { p.heap.satb with completed := c } } }
  | miss {p : Pool n} {k : Fin n} : p.duty k = .looked → p.heap.satb.completed.toList = [] →
      PoolStep cancellable p (p.give k .starved)
  | rest {p : Pool n} {k : Fin n} : p.duty k = .starved →
      PoolStep cancellable p { p.give k .waiting with idle := p.idle + 1 }
  | task {p : Pool n} {k : Fin n} {t : MarkTask} {ts ts' : List MarkTask} {h' : RegionHeap} :
    p.duty k = .busy (t :: ts) → WorkerStep (p.heap, t :: ts) (h', ts') →
      PoolStep cancellable p { p.give k (.busy ts') with heap := h' }
  | wake {p : Pool n} {k : Fin n} : p.duty k = .waiting → ¬ Finished p.heap.view →
      PoolStep cancellable p (p.give k .waking)
  | back {p : Pool n} {k : Fin n} : p.duty k = .waking →
      PoolStep cancellable p { p.give k (.busy []) with idle := p.idle - 1 }
  | leave {p : Pool n} {k : Fin n} : p.duty k = .waiting → p.idle = n →
      PoolStep cancellable p (p.give k .gone)
  | quit {p : Pool n} {k : Fin n} : p.Cancelled cancellable →
    p.duty k = .busy [] ∨ p.duty k = .waiting → PoolStep cancellable p (p.give k .gone)
  | request {p : Pool n} {h' : RegionHeap} : p.heap.cancelRequested = false →
    cancel p.heap = .ok true h' → PoolStep cancellable p { p with heap := h' }

namespace Pool

/-- Many steps of a pool. -/
def Runs {n : Nat} (cancellable : Bool) : Pool n → Pool n → Prop := ReflTransGen (PoolStep cancellable)

variable {n : Nat} {p q : Pool n} {k j : Fin n} {d : Duty} {cancellable : Bool}

@[simp] theorem duty_give_self : (p.give k d).duty k = d := by
  simp [give]

theorem duty_give_of_ne (h : j ≠ k) : (p.give k d).duty j = p.duty j := by
  simp [give, h]

theorem crew_give : (p.give k d).crew = p.crew.set k d.tasks := by
  funext j
  by_cases hj : j = k
  · subst hj
    simp [crew]
  · rw [crew, duty_give_of_ne hj, Crew.set, Function.update_of_ne hj, crew]

theorem crew_give_of_tasks (h : d.tasks = (p.duty k).tasks) : (p.give k d).crew = p.crew := by
  rw [crew_give, h]
  exact Crew.set_self

theorem total_give (f : Duty → Nat) : (p.give k d).total f + f (p.duty k) = p.total f + f d :=
  sum_update f p.duty k d

theorem crew_start {h : RegionHeap} : (start h : Pool n).crew.tasks = [] := Crew.tasks_idle

theorem crew_of_over (ho : p.Over) : p.crew.tasks = [] := by
  have hidle : p.crew = Crew.idle := funext fun k => by
    rw [crew, ho k]
    rfl
  rw [hidle, Crew.tasks_idle]

/-- The tasks of one worker, and of the others. -/
theorem tasks_perm : p.crew.tasks.Perm ((p.duty k).tasks ++ (p.crew.set k []).tasks) :=
  Crew.tasks_perm

/-- What a worker does with its tasks is a step of the crew. -/
theorem crewStep_give {h' : RegionHeap} (K : WorkerStep (p.heap, (p.duty k).tasks) (h', d.tasks)) :
    CrewStep (p.heap, p.crew) (h', (p.give k d).crew) := by
  rw [crew_give]
  exact .step k K

/-! ## 2. No work is lost -/

/-- **The invariant of a pool** that began to mark `h`. -/
structure Ok (h : RegionHeap) (O : Set Nat) (cancellable : Bool) (p : Pool n) : Prop where
  traceable : p.heap.view.Traceable O p.crew.tasks
  headway : ∃ new, Headway h p.heap p.crew.tasks p.done new
  idle : ¬ p.Cancelled cancellable → p.idle = p.total Duty.idle
  grey : ¬ p.Cancelled cancellable → p.heap.queue.grey.toList ≠ [] → ∃ k, (p.duty k).seeks = true
  completed : ¬ p.Cancelled cancellable → p.heap.satb.completed.toList ≠ [] →
    ∃ k, (p.duty k).seeksBuffers = true

namespace Ok

variable {d' : Duty} {h h' : RegionHeap} {O : Set Nat} {done' : List Nat} {ts' : List MarkTask}

/-- It holds at first, as all workers look for work. -/
theorem start (T : h.view.Traceable O []) (hn : 0 < n) :
    (Pool.start h : Pool n).Ok h O cancellable where
  traceable := by
    rw [crew_start]
    exact T
  headway := by
    rw [crew_start]
    exact ⟨_, .start h⟩
  idle _ := by simp [Pool.start, total, Duty.idle]
  grey _ _ := ⟨⟨0, hn⟩, rfl⟩
  completed _ _ := ⟨⟨0, hn⟩, rfl⟩

/-- A worker that only changes what it is about keeps the invariant, if it leaves to others nothing
that it looks for. -/
theorem turn (K : p.Ok h O cancellable) (hk : p.duty k = d) (d' : Duty)
    (htasks : d'.tasks = d.tasks) {i : Nat}
    (hidle : ¬ p.Cancelled cancellable → i + d.idle = p.idle + d'.idle)
    (hgrey : ¬ p.Cancelled cancellable → p.heap.queue.grey.toList ≠ [] →
      d.seeks = true → d'.seeks = true)
    (hcompleted : ¬ p.Cancelled cancellable → p.heap.satb.completed.toList ≠ [] →
      d.seeksBuffers = true → d'.seeksBuffers = true) :
    ({ p.give k d' with idle := i } : Pool n).Ok h O cancellable := by
  subst hk
  have hcrew : ({ p.give k d' with idle := i } : Pool n).crew = p.crew := crew_give_of_tasks htasks
  have hother {f : Duty → Bool} (hf : f (p.duty k) = true → f d' = true)
      (hex : ∃ j, f (p.duty j) = true) : ∃ j, f ((p.give k d').duty j) = true := by
    obtain ⟨j, hj⟩ := hex
    by_cases hjk : j = k
    · subst hjk
      exact ⟨j, by rw [duty_give_self]; exact hf hj⟩
    · exact ⟨j, by rw [duty_give_of_ne hjk]; exact hj⟩
  refine ⟨?_, ?_, fun hc => ?_, fun hc hg => ?_, fun hc hb => ?_⟩
  · rw [hcrew]
    exact K.traceable
  · rw [hcrew]
    exact K.headway
  · have hsum := total_give (p := p) (k := k) (d := d') Duty.idle
    have hold := K.idle hc
    have hnew := hidle hc
    show i = (p.give k d').total Duty.idle
    omega
  · exact hother (hgrey hc hg) (K.grey hc hg)
  · exact hother (hcompleted hc hb) (K.completed hc hb)

/-- A worker that does not look for work keeps it, too. -/
theorem turn_of_not (K : p.Ok h O cancellable) (hk : p.duty k = d) (d' : Duty)
    (hs : d.seeksBuffers = false) (htasks : d'.tasks = d.tasks) {i : Nat}
    (hidle : ¬ p.Cancelled cancellable → i + d.idle = p.idle + d'.idle) :
    ({ p.give k d' with idle := i } : Pool n).Ok h O cancellable := by
  have hnot : ¬ d.seeksBuffers = true := by simp [hs]
  exact K.turn hk d' htasks hidle (fun _ _ h => absurd (Duty.seeksBuffers_of_seeks h) hnot)
    fun _ _ h => absurd h hnot

/-- A worker that has begun something, or begins it, keeps the invariant. -/
theorem work (K : p.Ok h O cancellable) (hidle : (p.duty k).idle = 0)
    (W : WorkerStep (p.heap, (p.duty k).tasks) (h', ts'))
    (hstep : ∀ {os : List MarkTask} {new : Finset Nat},
      Headway h p.heap ((p.duty k).tasks ++ os) p.done new →
      p.heap.view.Traceable O ((p.duty k).tasks ++ os) →
      ∃ new', Headway h h' (ts' ++ os) done' new') :
    ({ p.give k (.busy ts') with heap := h', done := done' } : Pool n).Ok h O cancellable := by
  have W' : CrewStep (p.heap, p.crew) (h', (p.give k (.busy ts')).crew) := crewStep_give W
  obtain ⟨T, M⟩ := W'.traceable K.traceable
  have hbusy : ((p.give k (.busy ts')).duty k).seeks = true := by
    rw [duty_give_self]
    rfl
  have hcancel : h'.cancelRequested = p.heap.cancelRequested :=
    congrArg HeapView.cancelRequested M.frame
  refine ⟨T, ?_, fun hc => ?_, fun _ _ => ⟨k, hbusy⟩, fun _ _ => ⟨k, ?_⟩⟩
  · obtain ⟨new, H⟩ := K.headway
    obtain ⟨new', H'⟩ := hstep (H.reorder tasks_perm) (K.traceable.reorder tasks_perm)
    have hset : (ts' ++ (p.crew.set k []).tasks).Perm (p.give k (.busy ts')).crew.tasks := by
      rw [crew_give]
      exact Crew.tasks_set_perm.symm
    exact ⟨new', H'.reorder hset⟩
  · have hc' : ¬ p.Cancelled cancellable := fun hp => hc ⟨hp.1, hcancel.trans hp.2⟩
    have hsum := total_give (p := p) (k := k) (d := .busy ts') Duty.idle
    have hold := K.idle hc'
    have hnew : (Duty.busy ts').idle = 0 := rfl
    show p.idle = (p.give k (.busy ts')).total Duty.idle
    omega
  · rw [duty_give_self]
    rfl

/-- Being asked to stop keeps the invariant. -/
theorem request (K : p.Ok h O cancellable) (hrun : cancel p.heap = .ok true h') :
    ({ p with heap := h' } : Pool n).Ok h O cancellable := by
  have hview := view_of_cancel hrun
  have hqueue := queue_of_cancel hrun
  have hcancel : h'.cancelRequested = true := congrArg HeapView.cancelRequested hview
  have hsatb : h'.satb = p.heap.satb := congrArg HeapView.satb hview
  have hmemory : h'.view.memory = p.heap.view.memory := by rw [hview]
  have hregion : h'.view.region = p.heap.view.region := by rw [hview]
  have hcancelled : ¬ ({ p with heap := h' } : Pool n).Cancelled cancellable →
      ¬ p.Cancelled cancellable := fun hc hp => hc ⟨hp.1, hcancel⟩
  refine ⟨?_, ?_, fun hc => K.idle (hcancelled hc), fun hc hg => ?_, fun hc hb => ?_⟩
  · show h'.view.Traceable O p.crew.tasks
    rw [hview]
    exact K.traceable.setControl
  · obtain ⟨new, H⟩ := K.headway
    have hpending {v : Nat} : Pending h'.view p.crew.tasks v ↔
        Pending p.heap.view p.crew.tasks v := pending_congr hmemory hsatb
    refine ⟨new, H.move hmemory (fun _ => ?_) hregion (fun _ => ?_) ?_
      (fun _ hv => hpending.2 hv) (fun hv => H.called (hpending.1 hv)) fun ho _ => .inl ho⟩
    · rw [hview]
      rfl
    · rw [hqueue]
      rfl
    · rw [hqueue]
      rfl
  · exact K.grey (hcancelled hc) (hqueue ▸ hg)
  · exact K.completed (hcancelled hc) (hsatb ▸ hb)

/-- **Each step of a pool keeps the invariant.** -/
theorem step (K : p.Ok h O cancellable) (S : PoolStep cancellable p q) : q.Ok h O cancellable := by
  cases S with
  | @take k o l r g hd hg hg' =>
    have htasks : (p.duty k).tasks = [] := by rw [hd, Duty.tasks]
    refine K.work (by rw [hd, Duty.idle]) (by rw [htasks]; exact .takeGrey hg hg') fun H _ => ?_
    rw [htasks] at H
    exact ⟨_, H.takeGrey hg hg'⟩
  | look hd hg =>
    exact K.turn hd .looked rfl (fun _ => rfl) (fun _ hg' => absurd hg hg') fun _ _ _ => rfl
  | @takeBuffer k b l r c hd hc hc' =>
    have htasks : (p.duty k).tasks = [] := by
      rw [hd]
      rfl
    refine K.work (by rw [hd, Duty.idle]) (by rw [htasks]; exact .takeCompleted hc hc')
      fun H _ => ?_
    rw [htasks] at H
    exact ⟨_, H.takeCompleted hc hc'⟩
  | miss hd hb =>
    exact K.turn hd .starved rfl (fun _ => rfl) (fun _ _ hs => by cases hs) fun _ hb' => absurd hb hb'
  | rest hd => exact K.turn_of_not hd .waiting rfl rfl fun _ => rfl
  | @task k t ts ts' h' hd W =>
    have htasks : (p.duty k).tasks = t :: ts := by rw [hd, Duty.tasks]
    refine K.work (by rw [hd, Duty.idle]) (by rw [htasks]; exact W) fun H T => ?_
    rw [htasks] at H T
    exact H.task T W
  | wake hd _ => exact K.turn_of_not hd .waking rfl rfl fun _ => rfl
  | @back k hd =>
    refine K.turn hd (.busy []) rfl (fun hc => ?_) (fun _ _ _ => rfl) fun _ _ _ => rfl
    have hold := K.idle hc
    have hsum := total_give (p := p) (k := k) (d := .busy []) Duty.idle
    rw [hd] at hsum
    simp only [Duty.idle] at hsum ⊢
    omega
  | leave hd _ => exact K.turn_of_not hd .gone rfl rfl fun _ => rfl
  | quit hc hd =>
    rcases hd with hd | hd
    · exact K.turn hd .gone rfl (fun hn => absurd hc hn) (fun hn => absurd hc hn) fun hn => absurd hc hn
    · exact K.turn hd .gone rfl (fun hn => absurd hc hn) (fun hn => absurd hc hn) fun hn => absurd hc hn
  | request _ hrun => exact K.request hrun

theorem runs (K : p.Ok h O cancellable) (R : Runs cancellable p q) : q.Ok h O cancellable := by
  induction R with
  | refl => exact K
  | tail _ S ih => exact ih.step S

end Ok

/-! ## 3. A pool cannot go on for ever -/

end Pool

namespace Duty

/-- Where a worker is.  The workers go round: they look for grey objects, then for completed buffers,
count themselves, wait, and wake. -/
def place : Duty → Nat
  | busy _ => 0
  | looked => 1
  | starved => 2
  | waiting => 3
  | waking => 4
  | gone => 0

/-- How far a worker that has not left is from the place `s`. -/
def rank (s : Nat) : Duty → Nat
  | gone => 0
  | d => 1 + (s + 5 - d.place) % 5

variable {d d' : Duty} {s : Nat}

theorem place_lt (d : Duty) : d.place < 5 := by
  cases d <;> simp [place]

theorem rank_eq (hd : d ≠ gone) : d.rank s = 1 + (s + 5 - d.place) % 5 := by
  cases d with
  | gone => exact absurd rfl hd
  | _ => rfl

theorem rank_gone_lt (hd : d ≠ gone) : gone.rank s < d.rank s := by
  rw [rank_eq hd, rank]
  omega

/-- A worker that goes on from another place than `s` is nearer to `s`. -/
theorem rank_lt (hs : s < 5) (hd : d ≠ gone) (hd' : d' ≠ gone)
    (hnext : d'.place = (d.place + 1) % 5) (hne : d.place ≠ s) : d'.rank s < d.rank s := by
  have hlt := d.place_lt
  rw [rank_eq hd, rank_eq hd', hnext]
  omega

end Duty

namespace Pool

variable {n : Nat} {p q : Pool n} {k : Fin n} {d d' : Duty} {cancellable : Bool} {h h' : RegionHeap}
  {O : Set Nat}

/-- The place from which no worker goes on round.  Where there is something to be seen, looking is not
in vain, and where there is nothing, no worker wakes. -/
def halt (p : Pool n) : Nat :=
  if p.heap.queue.grey.toList ≠ [] then 0
  else if p.heap.satb.completed.toList ≠ [] then 1
  else 3

theorem halt_lt (p : Pool n) : p.halt < 5 := by
  unfold halt
  split_ifs <;> omega

theorem halt_ne_zero (hg : p.heap.queue.grey.toList = []) : p.halt ≠ 0 := by
  simp only [halt, hg, ne_eq, not_true, if_false]
  split_ifs <;> simp

theorem halt_ne_one (hb : p.heap.satb.completed.toList = []) : p.halt ≠ 1 := by
  simp only [halt, hb, ne_eq, not_true, if_false]
  split_ifs <;> simp

theorem halt_ne_three (hf : ¬ Finished p.heap.view) : p.halt ≠ 3 := by
  intro h3
  refine hf (show p.heap.queue.grey.toList = [] ∧ p.heap.satb.completed.toList = [] from ?_)
  unfold halt at h3
  split_ifs at h3 with hg hb
  · cases h3
  · exact ⟨of_not_not hg, of_not_not hb⟩

/-- No worker is bound to stay where it is to count itself, nor to wake from waiting. -/
theorem halt_ne (p : Pool n) : p.halt ≠ 2 ∧ p.halt ≠ 4 := by
  unfold halt
  split_ifs <;> omega

/-- How far the workers are from where they cannot go on. -/
def rank (p : Pool n) : Nat := p.total (Duty.rank p.halt)

/-- **What is left to do**: to be asked to stop, then the work, then the tasks that are begun, and last
what the workers do about what they see. -/
def left (p : Pool n) : Nat ×ₗ Nat ×ₗ Nat ×ₗ Nat :=
  toLex (if p.heap.cancelRequested = true then 0 else 1,
    toLex (p.heap.view.work + p.crew.total pushes,
      toLex (p.crew.total tasksWeight, p.rank)))

/-- A worker that only changes what it is about, and is nearer to where it cannot go on. -/
theorem left_turn {i : Nat} (hk : p.duty k = d) (d' : Duty) (htasks : d'.tasks = d.tasks)
    (hrank : d'.rank p.halt < d.rank p.halt) :
    ({ p.give k d' with idle := i } : Pool n).left < p.left := by
  subst hk
  have hcrew : ({ p.give k d' with idle := i } : Pool n).crew = p.crew := crew_give_of_tasks htasks
  have hless : ({ p.give k d' with idle := i } : Pool n).rank < p.rank := by
    have hsum := total_give (p := p) (k := k) (d := d') (Duty.rank p.halt)
    show (p.give k d').total (Duty.rank p.halt) < p.total (Duty.rank p.halt)
    omega
  rw [left, left, hcrew]
  exact Prod.Lex.right _ (Prod.Lex.right _ (Prod.Lex.right _ hless))

/-- A worker that goes on round. -/
theorem left_next {i : Nat} (hk : p.duty k = d) (d' : Duty) (htasks : d'.tasks = d.tasks)
    (hd : d ≠ .gone) (hd' : d' ≠ .gone) (hnext : d'.place = (d.place + 1) % 5) (hne : p.halt ≠ d.place) :
    ({ p.give k d' with idle := i } : Pool n).left < p.left :=
  left_turn hk d' htasks (Duty.rank_lt p.halt_lt hd hd' hnext hne.symm)

/-- A worker that leaves. -/
theorem left_gone (hk : p.duty k = d) (htasks : d.tasks = []) (hd : d ≠ .gone) :
    (p.give k .gone).left < p.left :=
  left_turn hk .gone htasks.symm (Duty.rank_gone_lt hd)

/-- A worker that does something with its tasks leaves less. -/
theorem left_work {ts' : List MarkTask} {done' : List Nat}
    (T : p.heap.view.Traceable O p.crew.tasks)
    (W : WorkerStep (p.heap, (p.duty k).tasks) (h', ts')) :
    ({ p.give k (.busy ts') with heap := h', done := done' } : Pool n).left < p.left := by
  have W' : CrewStep (p.heap, p.crew) (h', (p.give k (.busy ts')).crew) := crewStep_give W
  have hcancel : h'.cancelRequested = p.heap.cancelRequested :=
    congrArg HeapView.cancelRequested (W'.traceable T).2.frame
  rw [left, left]
  show toLex (if h'.cancelRequested = true then 0 else 1,
    toLex (h'.view.work + (p.give k (.busy ts')).crew.total pushes, _)) < _
  rw [hcancel]
  refine Prod.Lex.right _ ?_
  rcases W'.decreases T with hwork | ⟨hwork, hweight⟩
  · exact Prod.Lex.left _ _ hwork
  · rw [hwork]
    exact Prod.Lex.right _ (Prod.Lex.left _ _ hweight)

/-- **Each step of a pool leaves less to do.** -/
theorem left_lt (S : PoolStep cancellable p q) (T : p.heap.view.Traceable O p.crew.tasks) :
    q.left < p.left := by
  cases S with
  | @take k o l r g hd hg hg' =>
    refine left_work T (k := k) ?_
    rw [hd]
    exact .takeGrey hg hg'
  | @takeBuffer k b l r c hd hc hc' =>
    refine left_work T (k := k) ?_
    rw [hd]
    exact .takeCompleted hc hc'
  | @task k t ts ts' h' hd W =>
    refine left_work T (k := k) ?_
    rw [hd]
    exact W
  | look hd hg => exact left_next hd .looked rfl nofun nofun rfl (halt_ne_zero hg)
  | miss hd hb => exact left_next hd .starved rfl nofun nofun rfl (halt_ne_one hb)
  | rest hd => exact left_next hd .waiting rfl nofun nofun rfl p.halt_ne.1
  | wake hd hf => exact left_next hd .waking rfl nofun nofun rfl (halt_ne_three hf)
  | back hd => exact left_next hd (.busy []) rfl nofun nofun rfl p.halt_ne.2
  | leave hd _ => exact left_gone hd rfl nofun
  | quit _ hd =>
    rcases hd with hd | hd
    · exact left_gone hd rfl nofun
    · exact left_gone hd rfl nofun
  | @request h' hno hrun =>
    have hcancel : h'.cancelRequested = true :=
      congrArg HeapView.cancelRequested (view_of_cancel hrun)
    rw [left, left]
    refine Prod.Lex.left _ _ ?_
    simp [hno, hcancel]

/-- **A pool cannot go on for ever.** -/
theorem not_endless (T : h.view.Traceable O []) (hn : 0 < n) :
    ¬ ∃ f : Nat → Pool n, f 0 = start h ∧ ∀ i, PoolStep cancellable (f i) (f (i + 1)) := by
  rintro ⟨f, hstart, hstep⟩
  have hok (i : Nat) : (f i).Ok h O cancellable := by
    induction i with
    | zero =>
      rw [hstart]
      exact .start T hn
    | succ i ih => exact ih.step (hstep i)
  obtain ⟨i, hi⟩ := WellFounded.not_rel_apply_succ (r := (· < ·)) fun i => (f i).left
  exact hi (left_lt (hstep i) (hok i).traceable)

/-! ## 4. A pool is not stuck -/

/-- A worker that neither waits nor has left can go on. -/
theorem exists_step_of_awake (T : p.heap.view.Traceable O p.crew.tasks) (hgone : p.duty k ≠ .gone)
    (hwaiting : p.duty k ≠ .waiting) : ∃ q, PoolStep cancellable p q := by
  cases hd : p.duty k with
  | busy ts =>
    cases ts with
    | nil =>
      cases hg : p.heap.queue.grey.pop? with
      | none => exact ⟨_, .look hd ((Queue.pop?_eq_none_iff _).1 hg)⟩
      | some x => exact ⟨_, .take (l := []) hd (Queue.toList_of_pop? hg) rfl⟩
    | cons t ts =>
      have T' : p.heap.view.Traceable O ((p.duty k).tasks ++ (p.crew.set k []).tasks) :=
        T.reorder tasks_perm
      rw [hd] at T'
      obtain ⟨⟨h', ts'⟩, W⟩ := exists_workerStep T'
      exact ⟨_, .task hd W⟩
  | looked =>
    cases hb : p.heap.satb.completed.pop? with
    | none => exact ⟨_, .miss hd ((Queue.pop?_eq_none_iff _).1 hb)⟩
    | some x => exact ⟨_, .takeBuffer (l := []) hd (Queue.toList_of_pop? hb) rfl⟩
  | starved => exact ⟨_, .rest hd⟩
  | waiting => exact absurd hd hwaiting
  | waking => exact ⟨_, .back hd⟩
  | gone => exact absurd hd hgone

/-- **A pool is not stuck** before all its workers have left. -/
theorem Ok.over_or_step (K : p.Ok h O cancellable) : p.Over ∨ ∃ q, PoolStep cancellable p q := by
  by_cases hawake : ∃ k, p.duty k ≠ .gone ∧ p.duty k ≠ .waiting
  · obtain ⟨k, hgone, hwaiting⟩ := hawake
    exact .inr (exists_step_of_awake K.traceable hgone hwaiting)
  · by_cases hwaiting : ∃ k, p.duty k = .waiting
    · obtain ⟨k, hk⟩ := hwaiting
      by_cases hc : p.Cancelled cancellable
      · exact .inr ⟨_, .quit hc (.inr hk)⟩
      · -- All the others wait or have left, so each of the workers is counted.
        have hone (j : Fin n) : (p.duty j).idle = 1 := by
          by_cases hj : p.duty j = .gone
          · rw [hj]
            rfl
          · rw [show p.duty j = .waiting from by_contra fun hw => hawake ⟨j, hj, hw⟩]
            rfl
        have hall : p.idle = n := by
          rw [K.idle hc, total, Finset.sum_congr rfl fun j _ => hone j]
          simp
        exact .inr ⟨_, .leave hk hall⟩
    · refine .inl fun k => ?_
      by_contra hk
      exact hawake ⟨k, hk, fun hw => hwaiting ⟨k, hw⟩⟩

end Pool

/-! ## 5. What marking gives -/

namespace RegionHeap

/-- **What marking a heap gives**: no work is left, and each object that was grey or is newly marked
was traced once.  The new marks, what the regions count, and the count of marked objects are those of
the set `new`. -/
structure Traced (h : RegionHeap) (new : Finset Nat) (h' : RegionHeap) (done : List Nat) : Prop where
  finished : Finished h'.view
  nodup : done.Nodup
  mem_done : ∀ o, o ∈ done ↔ o ∈ h.queue.grey.toList ∨ o ∈ new
  hasMark : ∀ o, h'.view.HasMark o ↔ h.view.HasMark o ∨ o ∈ new
  markedBytes : ∀ i, (h'.view.region i).markedBytes = (h.view.region i).markedBytes +
    ∑ o ∈ new with h.view.index o = i, Object.size h.view.memory o
  marked : h'.queue.marked = h.queue.marked + new.card

/-- When no work is left, each object was traced once, if what was grey was marked, and grey once. -/
theorem Headway.traced {h h' : RegionHeap} {done : List Nat} {new : Finset Nat}
    (H : Headway h h' [] done new) (hf : Finished h'.view) (hnodup : h.queue.grey.toList.Nodup)
    (hmarked : ∀ o ∈ h.queue.grey.toList, h.view.HasMark o) : h.Traced new h' done := by
  have hgrey : h'.queue.grey.toList = [] := hf.1
  have hcount (o : Nat) : done.count o = h.queue.grey.toList.count o + if o ∈ new then 1 else 0 := by
    rw [← H.objects o, hgrey]
    simp
  refine ⟨hf, List.nodup_iff_count_le_one.2 fun o => ?_, fun o => ?_, fun o => H.hasMark, H.bytes, ?_⟩
  · have hle : h.queue.grey.toList.count o ≤ 1 := List.nodup_iff_count_le_one.1 hnodup o
    rw [hcount]
    by_cases hn : o ∈ new
    · have hno : o ∉ h.queue.grey.toList := fun ho => (H.due hn).markable.2.2 (hmarked o ho)
      rw [List.count_eq_zero.2 hno, if_pos hn]
    · rw [if_neg hn]
      exact hle
  · rw [← List.count_pos_iff, ← List.count_pos_iff (l := h.queue.grey.toList), hcount]
    by_cases hn : o ∈ new
    · simp [hn]
    · simp [hn]
  · rw [← H.marked]
    simp [pushes]

end RegionHeap

namespace Pool

variable {n : Nat} {p q : Pool n} {k : Fin n} {cancellable : Bool} {h h' : RegionHeap} {O : Set Nat}

/-- **When all workers have left no work is left**, unless they were asked to leave. -/
theorem Ok.finished (K : p.Ok h O cancellable) (ho : p.Over) (hf : p.finished cancellable = true) :
    Finished p.heap.view := by
  have hc : ¬ p.Cancelled cancellable := by
    rintro ⟨hc, hr⟩
    rw [Pool.finished, hc, hr] at hf
    cases hf
  constructor
  · by_contra hg
    obtain ⟨k, hk⟩ := K.grey hc hg
    rw [ho k] at hk
    cases hk
  · by_contra hb
    obtain ⟨k, hk⟩ := K.completed hc hb
    rw [ho k] at hk
    cases hk

/-- So what is newly marked is what was due. -/
theorem Ok.exists_headway (K : p.Ok h O cancellable) (ho : p.Over)
    (hf : p.finished cancellable = true) :
    ∃ new, Headway h p.heap [] p.done new ∧ ∀ o, o ∈ new ↔ h.view.Due o := by
  obtain ⟨new, H⟩ := K.headway
  rw [crew_of_over ho] at H
  exact ⟨new, H, fun o => H.mem_iff (K.finished ho hf)⟩

/-! ## 6. The code is a pool of one -/

/-- A pool of one worker. -/
def alone (h : RegionHeap) (d : Duty) (i : Nat) (done : List Nat) : Pool 1 := ⟨h, fun _ => d, i, done⟩

section
variable {h₁ h₂ : RegionHeap} {d d' : Duty} {i : Nat} {done : List Nat}

theorem give_alone : (alone h d i done).give 0 d' = alone h d' i done := by
  have hduty : Function.update (fun _ : Fin 1 => d) 0 d' = fun _ => d' := by
    funext k
    rw [Subsingleton.elim k 0, Function.update_self]
  rw [give, alone, hduty, alone]

theorem over_alone : (alone h .gone i done).Over := fun _ => rfl

/-- The worker does its tasks. -/
theorem runs_tasks {x y : RegionHeap × List MarkTask} (W : TaskSteps x y) :
    Runs cancellable (alone x.1 (.busy x.2) i done) (alone y.1 (.busy y.2) i done) := by
  induction W with
  | refl => exact .refl
  | @tail y z _ W ih =>
    obtain ⟨h₁, ts₁⟩ := y
    obtain ⟨h₂, ts₂⟩ := z
    obtain ⟨t, ts, rfl⟩ := List.exists_cons_of_ne_nil W.1
    have S : PoolStep cancellable (alone h₁ (.busy (t :: ts)) i done) _ := .task (k := 0) rfl W.2
    rw [give_alone] at S
    exact ih.tail S

/-- A round of the worker. -/
theorem runs_round (R : Round h₁ h₂) : ∃ done',
    Runs cancellable (alone h₁ (.busy []) i done) (alone h₂ (.busy []) i done') := by
  cases R with
  | @grey o g hg W =>
    have S : PoolStep cancellable (alone h₁ (.busy []) i done) _ := .take (k := 0) (l := []) rfl hg rfl
    rw [give_alone] at S
    exact ⟨_, .head S (runs_tasks W)⟩
  | @completed b c hg hc W =>
    have S₁ : PoolStep cancellable (alone h₁ (.busy []) i done) _ := .look (k := 0) rfl hg
    rw [give_alone] at S₁
    have S₂ : PoolStep cancellable (alone h₁ .looked i done) _ :=
      .takeBuffer (k := 0) (l := []) rfl hc rfl
    rw [give_alone] at S₂
    exact ⟨_, .head S₁ (.head S₂ (runs_tasks W))⟩

theorem runs_rounds (R : ReflTransGen Round h₁ h₂) : ∃ done',
    Runs cancellable (alone h₁ (.busy []) i done) (alone h₂ (.busy []) i done') := by
  induction R with
  | refl => exact ⟨_, .refl⟩
  | tail _ R ih =>
    obtain ⟨done₁, ih⟩ := ih
    obtain ⟨done₂, R'⟩ := runs_round R
    exact ⟨done₂, ih.trans R'⟩

/-- The worker finds nothing more, counts itself, and leaves. -/
theorem runs_leave (hf : Finished h.view) :
    Runs cancellable (alone h (.busy []) 0 done) (alone h .gone 1 done) := by
  have S₁ : PoolStep cancellable (alone h (.busy []) 0 done) _ := .look (k := 0) rfl hf.1
  have S₂ : PoolStep cancellable (alone h .looked 0 done) _ := .miss (k := 0) rfl hf.2
  have S₃ : PoolStep cancellable (alone h .starved 0 done) _ := .rest (k := 0) rfl
  have S₄ : PoolStep cancellable (alone h .waiting 1 done) _ := .leave (k := 0) rfl rfl
  rw [give_alone] at S₁ S₂ S₃ S₄
  exact .head S₁ (.head S₂ (.head S₃ (.single S₄)))

end

/-- **The code that marks is a pool of one worker.** -/
theorem ends_drain_runs (cancellable : Bool) (T : h.view.Traceable O []) :
    Ends (drain cancellable) h fun b h' => ∃ p : Pool 1, Runs cancellable (start h) p ∧ p.Over ∧
      p.heap = h' ∧ p.finished cancellable = b := by
  refine (ends_drain T).mono ?_
  rintro b h' ⟨hno, hyes⟩
  cases b with
  | false =>
    obtain ⟨hc, hr, rfl⟩ := hno rfl
    have S : PoolStep cancellable (alone h' (.busy []) 0 []) _ := .quit (k := 0) ⟨hc, hr⟩ (.inl rfl)
    rw [give_alone] at S
    exact ⟨_, .single S, over_alone, rfl, by simp [Pool.finished, alone, hc, hr]⟩
  | true =>
    obtain ⟨hc, R⟩ := hyes rfl
    obtain ⟨done, hrounds⟩ : ∃ done, Runs cancellable (alone h (.busy []) 0 [])
        (alone h' (.busy []) 0 done) := runs_rounds R.1
    have hcancel : h'.cancelRequested = h.cancelRequested :=
      congrArg HeapView.cancelRequested (R.steps.traceable T).2.frame
    refine ⟨_, hrounds.trans (runs_leave R.2), over_alone, rfl, ?_⟩
    rw [Pool.finished, alone, hcancel, hc]
    rfl

end Pool

/-! ## 7. Marking ends, and traces each object once -/

/-- **What `n` workers that mark `h` come to.**  They do not go on for ever, and are not stuck before all
have left; and when all have left, and were not asked to, they have marked the objects in `new`. -/
structure Pool.Settles (n : Nat) (cancellable : Bool) (h : RegionHeap) (new : Finset Nat) : Prop where
  not_endless : ¬ ∃ f : Nat → Pool n, f 0 = .start h ∧ ∀ i, PoolStep cancellable (f i) (f (i + 1))
  over_or_step : ∀ {p : Pool n}, Pool.Runs cancellable (.start h) p →
    p.Over ∨ ∃ q, PoolStep cancellable p q
  traced : ∀ {p : Pool n}, Pool.Runs cancellable (.start h) p → p.Over →
    p.finished cancellable = true → h.Traced new p.heap p.done

namespace RegionHeap

/-- **Marking terminates and traces each object once.**  Let the objects of a set `O` be published and
refer to each other, and let what is queued be among them; let the grey objects be marked, and grey
once.  Then the heap alone tells which objects will be marked, however many workers there are and
in whatever order they take grey objects and completed buffers.  The code is a pool of one worker. -/
theorem traced_once {h : RegionHeap} {O : Set Nat} (T : h.view.Traceable O [])
    (hnodup : h.queue.grey.toList.Nodup) (hmarked : ∀ o ∈ h.queue.grey.toList, h.view.HasMark o) :
    ∃ new : Finset Nat, (∀ o, o ∈ new ↔ h.view.Due o) ∧ ∀ cancellable,
      (∀ n, 0 < n → Pool.Settles n cancellable h new) ∧
      Ends (drain cancellable) h fun b h' => ∃ p : Pool 1, Pool.Runs cancellable (.start h) p ∧
        p.Over ∧ p.heap = h' ∧ p.finished cancellable = b := by
  -- The set is what the code marks when it is not stopped.
  obtain ⟨b, h', -, p, hruns, hover, -, -⟩ := Pool.ends_drain_runs false T
  have K : p.Ok h O false := (Pool.Ok.start T Nat.one_pos).runs hruns
  obtain ⟨new, -, hnew⟩ := K.exists_headway hover rfl
  refine ⟨new, hnew, fun cancellable => ⟨fun n hn => ?_, Pool.ends_drain_runs cancellable T⟩⟩
  have hok {p : Pool n} (hp : Pool.Runs cancellable (.start h) p) : p.Ok h O cancellable :=
    (Pool.Ok.start T hn).runs hp
  refine ⟨Pool.not_endless T hn, fun hp => (hok hp).over_or_step, fun {p} hp ho hf => ?_⟩
  obtain ⟨new', H, hnew'⟩ := (hok hp).exists_headway ho hf
  have heq : new' = new := Finset.ext fun o => (hnew' o).trans (hnew o).symm
  exact (heq ▸ H).traced ((hok hp).finished ho hf) hnodup hmarked

/-- Two objects refer to each other, and the first one to itself.  It is the only root, so it is grey
when marking begins.  Then its reference to the other one is overwritten, which is in a completed
buffer for that. -/
def cyclicPair : List Command := [
  .operation .create, .operation (.alloc 0 2 16), .operation (.alloc 0 1 16),
  .operation (.storeRef 0 0 0 1), .operation (.storeRef 0 0 1 0), .operation (.storeRef 0 1 0 0),
  .operation (.newRoot 0), .step .initMark, .operation (.loadRoot rootBase),
  .operation (.storeRef 0 0 0 0), .operation (.flush 0)]

theorem traced_once_cyclicPair : ∃ h as s,
    AnyHeap.build Place.first smallHeap = .ok (.ok (.region h)) ∧
    Action.runAll Session.execute cyclicPair (Session.start h) = .ok as s ∧
    s.heap.queue.grey.toList.length = 1 ∧ s.heap.satb.completed.toList.length = 1 ∧
    (∃ O, s.heap.view.Traceable O []) ∧ s.heap.queue.grey.toList.Nodup ∧
    (∀ o ∈ s.heap.queue.grey.toList, s.heap.view.HasMark o) ∧
    ∃ new : Finset Nat, (∀ o, o ∈ new ↔ s.heap.view.Due o) ∧ ∀ cancellable,
      (∀ n, 0 < n → Pool.Settles n cancellable s.heap new) ∧
      Ends (drain cancellable) s.heap fun b h' => ∃ p : Pool 1,
        Pool.Runs cancellable (.start s.heap) p ∧
        p.Over ∧ p.heap = h' ∧ p.finished cancellable = b := by
  obtain ⟨h, hb, hcheck⟩ := Session.builds_iff.1 (show Session.builds Place.first smallHeap (fun h =>
    decide (Permitted Session.execute Session.Allows cyclicPair (Session.start h)) &&
    decide (Ends (Action.runAll Session.execute cyclicPair) (Session.start h) fun _ s =>
      s.stage = .marking ∧ s.heap.queue.grey.toList.Nodup ∧
        s.heap.queue.grey.toList.length = 1 ∧ s.heap.satb.completed.toList.length = 1 ∧
        ∀ o ∈ s.heap.queue.grey.toList, s.heap.view.isNew o = false)) = true by decide +kernel)
  rw [Bool.and_eq_true, decide_eq_true_eq, decide_eq_true_eq] at hcheck
  obtain ⟨hp, hends⟩ := hcheck
  obtain ⟨as, s, hrun, W, S, -⟩ := Session.ends_program hb hp
  obtain ⟨hst, hnodup, hgrey, hcompleted, hnew⟩ := hends.of_ok hrun
  have T := (hst ▸ S.inv : s.heap.view.Inv W .marking []).traceable
  have hmarked : ∀ o ∈ s.heap.queue.grey.toList, s.heap.view.HasMark o := by
    intro o ho
    by_contra hno
    have := (T.layout.isNew_iff (T.published (T.grey ho))).2 hno
    rw [hnew o ho] at this
    cases this
  exact ⟨h, as, s, hb, hrun, hgrey, hcompleted, ⟨_, T⟩, hnodup, hmarked,
    traced_once T hnodup hmarked⟩

end RegionHeap

end ManagedHeap
