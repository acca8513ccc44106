/-
# What is recorded comes out once

`Recorded` in `Records` says where a reference waits.  Here it is counted how often, and in which
order: a buffer that is recorded into is followed through its handovers, until it is forgotten
(`Traffic`).  Nothing is counted that was recorded before the buffers were last abandoned.

Main statement: `nothing_lost`.  What was recorded is what was taken, what waits in completed
buffers and in others, and what was in a buffer when that was dropped, each as often as it was
recorded.  The handovers of one buffer, in the order in which they are taken, are what was recorded
in it, in that order.  No buffer reaches the capacity.

* Section 1: what an operation does to the entries of each buffer and to the completed ones.
* Section 2: the names of buffers, and their sizes.
* Section 3: the bag of what waits.
* Section 4: operations with a record of what they moved, and the invariant of their runs.
-/
import ManagedHeap.Proofs.Records
import Mathlib.Algebra.BigOperators.Group.Multiset.Basic

namespace ManagedHeap

namespace SatbQueues

variable {q : SatbQueues} {id j v : Nat} {e : Queue Nat}

/-! ## 1. Entries and completed buffers -/

theorem entries_eq_empty (h : id ∉ q.ids) : q.entries id = ∅ := by
  have hf : q.buffers.find? (·.id = id) = none := by
    refine List.find?_eq_none.2 fun b hb he => h ?_
    exact List.mem_map.2 ⟨b, hb, by simpa using he⟩
  rw [entries, hf]
  rfl

theorem entries_setEntries (h : id ∈ q.ids) :
    (q.setEntries id e).entries j = if j = id then e else q.entries j := by
  have hp : ((fun b : SatbBuffer => decide (b.id = j)) ∘
      fun b : SatbBuffer => if b.id = id then { b with entries := e } else b) =
        fun b => decide (b.id = j) := by
    funext b
    simp only [Function.comp_apply]
    split <;> rfl
  rw [entries, setEntries, List.find?_map, hp]
  cases hf : q.buffers.find? (·.id = j) with
  | none =>
    have hj : j ≠ id := by
      rintro rfl
      obtain ⟨b, hb, rfl⟩ := List.mem_map.1 h
      simpa using List.find?_eq_none.1 hf b hb
    rw [if_neg hj, entries, hf]
    rfl
  | some b =>
    have hb : b.id = j := by simpa using List.find?_some hf
    rw [entries, hf]
    by_cases hj : j = id
    · simp [hj, hb]
    · simp [hj, hb]

@[simp] theorem entries_complete : (q.complete e).entries j = q.entries j := by
  unfold complete
  split <;> rfl

@[simp] theorem completed_setEntries : (q.setEntries id e).completed = q.completed := rfl

@[simp] theorem capacity_setEntries : (q.setEntries id e).capacity = q.capacity := rfl

@[simp] theorem capacity_complete : (q.complete e).capacity = q.capacity := by
  unfold complete
  split <;> rfl

theorem completed_complete : (q.complete e).completed.toList =
    q.completed.toList ++ if e.toList = [] then [] else [e.toList] := by
  unfold complete
  by_cases h : e.toList = []
  · rw [if_pos ((Queue.isEmpty_iff e).2 h), if_pos h, List.append_nil]
  · rw [if_neg fun he => h ((Queue.isEmpty_iff e).1 he), if_neg h, Queue.toList_push]

/-- The buffer with a name is full with one more reference. -/
def FilledBy (q : SatbQueues) (id v : Nat) : Prop :=
  q.capacity ≤ ((q.entries id).push v).size

instance : Decidable (q.FilledBy id v) := inferInstanceAs (Decidable (_ ≤ _))

theorem enqueue_of_filled (h : q.FilledBy id v) :
    q.enqueue id v = (q.setEntries id ∅).complete ((q.entries id).push v) := if_pos h

theorem enqueue_of_not_filled (h : ¬ q.FilledBy id v) :
    q.enqueue id v = q.setEntries id ((q.entries id).push v) := if_neg h

/-- What is handed over when a buffer is flushed goes to the end of the completed ones. -/
theorem completed_flush : (q.flush id).completed.toList = q.completed.toList ++
    if (q.entries id).toList = [] then [] else [(q.entries id).toList] := by
  rw [flush, completed_complete, completed_setEntries]

theorem entries_flush_eq (h : id ∈ q.ids) :
    (q.flush id).entries j = if j = id then ∅ else q.entries j := by
  rw [flush, entries_complete, entries_setEntries h]

@[simp] theorem capacity_flush : (q.flush id).capacity = q.capacity := by simp [flush]

@[simp] theorem entries_abandon : q.abandon.entries j = ∅ := by
  have hp : ((fun b : SatbBuffer => decide (b.id = j)) ∘
      fun b : SatbBuffer => { b with entries := ∅ }) = fun b => decide (b.id = j) := rfl
  rw [entries, abandon, List.find?_map, hp]
  cases q.buffers.find? (·.id = j) <;> rfl

theorem ids_drop : (q.drop id).ids = q.ids.filter fun j => j = shared || j ≠ id := by
  rw [ids, ids, drop, List.filter_map]
  rfl

theorem entries_drop (hid : id ≠ shared) :
    (q.drop id).entries j = if j = id then ∅ else q.entries j := by
  by_cases hj : j = id
  · subst hj
    rw [if_pos rfl, entries_eq_empty]
    simp [ids_drop, hid]
  · have hp (b : SatbBuffer) : (decide (b.id = shared || b.id ≠ id) && decide (b.id = j)) =
        decide (b.id = j) := by
      by_cases hb : b.id = j
      · simp [hb, hj]
      · simp [hb]
    simp only [entries, drop, if_neg hj, List.find?_filter]
    congr 3
    funext b
    simpa using hp b

/-- A new buffer is empty. -/
theorem entries_register : q.register.entries j = q.entries j := by
  simp only [entries, register, List.find?_append]
  cases hf : q.buffers.find? (·.id = j) with
  | some b => rfl
  | none =>
    by_cases hj : q.registered = j
    · simp [hj]
    · simp [hj]

/-- Taking a completed buffer is taking the first. -/
theorem completed_pop : q.completed.toList = q.pop.1.toList ++ q.pop.2.completed.toList := by
  cases hp : q.pop with
  | mk r q' =>
    cases r with
    | none =>
      have hq' : q' = q := by
        unfold pop at hp
        split at hp <;> simp_all
      rw [hq']
      rfl
    | some l =>
      obtain ⟨c, hc, rfl⟩ := pop_eq_some hp
      exact hc

theorem pop_snd : q.pop.2 = { q with completed := q.pop.2.completed } := by
  unfold pop
  split <;> rfl

@[simp] theorem ids_pop : q.pop.2.ids = q.ids := by
  rw [pop_snd]
  rfl

@[simp] theorem entries_pop : q.pop.2.entries j = q.entries j := by
  rw [pop_snd]
  rfl

@[simp] theorem buffers_pop : q.pop.2.buffers = q.buffers := by
  rw [pop_snd]

@[simp] theorem capacity_pop : q.pop.2.capacity = q.capacity := by
  rw [pop_snd]

@[simp] theorem registered_pop : q.pop.2.registered = q.registered := by
  rw [pop_snd]

/-! ## 2. Names and sizes -/

/-- Each buffer has a name of its own, none that is to be given, and compiled code has a buffer. -/
structure Named (q : SatbQueues) : Prop where
  nodup : q.ids.Nodup
  lt : ∀ id ∈ q.ids, id < q.registered
  shared_mem : shared ∈ q.ids

theorem Named.of_ids {q' : SatbQueues} (N : q.Named) (h : q'.ids = q.ids)
    (hr : q'.registered = q.registered) : q'.Named :=
  ⟨h ▸ N.nodup, fun id hid => hr ▸ N.lt id (h ▸ hid), h ▸ N.shared_mem⟩

theorem Named.register (N : q.Named) : q.register.Named := by
  have hids : q.register.ids = q.ids ++ [q.registered] := by simp [ids, SatbQueues.register]
  refine ⟨?_, fun id hid => ?_, ?_⟩
  · rw [hids]
    refine List.nodup_append.2 ⟨N.nodup, by simp, fun a ha b hb => ?_⟩
    have := N.lt a ha
    have : b = q.registered := by simpa using hb
    omega
  · rw [hids, List.mem_append] at hid
    rcases hid with h | h
    · exact Nat.lt_succ_of_lt (N.lt id h)
    · rw [List.mem_singleton.1 h]
      exact Nat.lt_succ_self _
  · rw [hids]
    exact List.mem_append_left _ N.shared_mem

theorem Named.drop (N : q.Named) : (q.drop id).Named := by
  refine ⟨?_, fun j hj => ?_, ?_⟩
  · rw [ids_drop]
    exact N.nodup.filter _
  · rw [ids_drop] at hj
    exact N.lt j (List.mem_filter.1 hj).1
  · rw [ids_drop]
    exact List.mem_filter.2 ⟨N.shared_mem, by simp⟩

/-- No buffer has reached the capacity, and those that were completed have something in them, and no
more than the capacity. -/
structure Sized (q : SatbQueues) : Prop where
  room : ∀ id, (q.entries id).size < q.capacity
  completed : ∀ l ∈ q.completed.toList, l ≠ [] ∧ l.length ≤ q.capacity

theorem Sized.pos (S : q.Sized) : 0 < q.capacity := Nat.lt_of_le_of_lt (Nat.zero_le _) (S.room 0)

theorem size_empty : (∅ : Queue Nat).size = 0 := rfl

/-- What is handed over is as it has to be, if it is no longer than the capacity. -/
theorem Sized.complete (S : q.Sized) (h : e.toList.length ≤ q.capacity) : (q.complete e).Sized := by
  refine ⟨fun j => by simpa using S.room j, fun l hl => ?_⟩
  rw [capacity_complete]
  rw [completed_complete, List.mem_append] at hl
  rcases hl with hl | hl
  · exact S.completed l hl
  · split at hl
    · cases hl
    · rw [List.mem_singleton.1 hl]
      exact ⟨‹_›, h⟩

theorem Sized.setEntries (S : q.Sized) (hid : id ∈ q.ids) (h : e.size < q.capacity) :
    (q.setEntries id e).Sized := by
  refine ⟨fun j => ?_, S.completed⟩
  rw [entries_setEntries hid, capacity_setEntries]
  split
  · exact h
  · exact S.room j

theorem Sized.enqueue (S : q.Sized) (hid : id ∈ q.ids) : (q.enqueue id v).Sized := by
  by_cases hf : q.FilledBy id v
  · rw [enqueue_of_filled hf]
    refine (S.setEntries hid (by rw [size_empty]; exact S.pos)).complete ?_
    -- The buffer was not full before, so it is filled exactly.
    have := S.room id
    rw [← Queue.size_eq_length]
    exact this
  · rw [enqueue_of_not_filled hf]
    exact S.setEntries hid (Nat.lt_of_not_le hf)

theorem Sized.flush (S : q.Sized) (hid : id ∈ q.ids) : (q.flush id).Sized := by
  refine (S.setEntries hid (by rw [size_empty]; exact S.pos)).complete ?_
  rw [← Queue.size_eq_length]
  exact Nat.le_of_lt (S.room id)

theorem Sized.drop (S : q.Sized) (hid : id ≠ shared) : (q.drop id).Sized := by
  refine ⟨fun j => ?_, S.completed⟩
  rw [entries_drop hid]
  split
  · exact S.pos
  · exact S.room j

theorem Sized.register (S : q.Sized) : q.register.Sized :=
  ⟨fun j => by rw [entries_register]; exact S.room j, S.completed⟩

theorem Sized.pop (S : q.Sized) : q.pop.2.Sized := by
  refine ⟨fun j => by simpa using S.room j, fun l hl => ?_⟩
  rw [capacity_pop]
  exact S.completed l (by rw [completed_pop]; exact List.mem_append_right _ hl)

theorem Sized.abandon (S : q.Sized) : q.abandon.Sized :=
  ⟨fun j => by rw [entries_abandon]; exact S.pos, fun l hl => by simp [SatbQueues.abandon] at hl⟩

/-- What each flush keeps, the flush of all buffers keeps. -/
theorem flushAll_induction {P : SatbQueues → Prop}
    (h : ∀ q id, id ∈ q.ids → P q → P (q.flush id)) (hq : P q) : P q.flushAll := by
  have hall (l : List SatbBuffer) (q' : SatbQueues) (hl : ∀ b ∈ l, b.id ∈ q'.ids) (hP : P q') :
      P (l.foldl (fun q b => q.flush b.id) q') := by
    induction l generalizing q' with
    | nil => exact hP
    | cons b rest ih =>
      refine ih (q'.flush b.id) (fun c hc => ?_) (h q' b.id (hl b (by simp)) hP)
      rw [ids_flush]
      exact hl c (by simp [hc])
  exact hall q.buffers q (fun b hb => List.mem_map_of_mem hb) hq

/-! ## 3. What waits -/

/-- What is in the buffers that are not completed. -/
def unfinished (q : SatbQueues) : Multiset Nat :=
  (q.buffers.map fun b => (b.entries.toList : Multiset Nat)).sum

/-- What is in the completed buffers. -/
def finished (q : SatbQueues) : Multiset Nat := q.completed.toList.flatten

/-- The buffers by their names. -/
theorem unfinished_eq (hn : q.ids.Nodup) :
    q.unfinished = (q.ids.map fun id => ((q.entries id).toList : Multiset Nat)).sum := by
  rw [unfinished, ids, List.map_map]
  congr 1
  refine List.map_congr_left fun b hb => ?_
  rw [Function.comp_apply, entries_eq hn hb]

/-- Other entries of one buffer, and the same of the others. -/
theorem unfinished_update {q' : SatbQueues} (hn : q.ids.Nodup) (hid : id ∈ q.ids)
    (hids : q'.ids = q.ids) (he : ∀ j, q'.entries j = if j = id then e else q.entries j) :
    q'.unfinished + (q.entries id).toList = q.unfinished + e.toList := by
  have hrest : ((q.ids.erase id).map fun j => ((q'.entries j).toList : Multiset Nat)) =
      (q.ids.erase id).map fun j => ((q.entries j).toList : Multiset Nat) := by
    refine List.map_congr_left fun j hj => ?_
    rw [he, if_neg (hn.mem_erase_iff.1 hj).1]
  have hself : q'.entries id = e := by rw [he, if_pos rfl]
  rw [unfinished_eq (q := q') (hids ▸ hn), unfinished_eq hn, hids, ← List.sum_map_erase _ hid,
    ← List.sum_map_erase _ hid, hrest, hself]
  ac_rfl

/-- What is taken out of a buffer is no longer there. -/
theorem unfinished_setEntries_empty (hn : q.ids.Nodup) (hid : id ∈ q.ids) :
    (q.setEntries id ∅).unfinished + (q.entries id).toList = q.unfinished := by
  rw [unfinished_update hn hid (ids_setEntries ∅) fun j => entries_setEntries hid,
    Queue.toList_empty, Multiset.coe_nil, add_zero]

theorem finished_complete : (q.complete e).finished = q.finished + e.toList := by
  rw [finished, completed_complete]
  split
  · rename_i h
    rw [List.append_nil, h, Multiset.coe_nil, add_zero]
    rfl
  · rw [List.flatten_append, List.flatten_singleton]
    rfl

@[simp] theorem unfinished_complete : (q.complete e).unfinished = q.unfinished := by
  unfold complete
  split <;> rfl

@[simp] theorem finished_setEntries : (q.setEntries id e).finished = q.finished := rfl

/-- **One reference more waits** after it was recorded. -/
theorem waiting_enqueue (hn : q.ids.Nodup) (hid : id ∈ q.ids) :
    (q.enqueue id v).finished + (q.enqueue id v).unfinished =
      q.finished + q.unfinished + {v} := by
  have hpush : (((q.entries id).push v).toList : Multiset Nat) = (q.entries id).toList + {v} := by
    rw [Queue.toList_push]
    rfl
  by_cases hf : q.FilledBy id v
  · rw [enqueue_of_filled hf, finished_complete, unfinished_complete, finished_setEntries, hpush,
      ← unfinished_setEntries_empty hn hid]
    ac_rfl
  · have h := unfinished_update (e := (q.entries id).push v) hn hid (ids_setEntries _)
      fun j => entries_setEntries hid
    rw [hpush, ← add_assoc, add_right_comm] at h
    rw [enqueue_of_not_filled hf, finished_setEntries, add_right_cancel h, add_assoc]

/-- **A flush moves what waits.** -/
theorem waiting_flush (hn : q.ids.Nodup) (hid : id ∈ q.ids) :
    (q.flush id).finished + (q.flush id).unfinished = q.finished + q.unfinished := by
  rw [flush, finished_complete, unfinished_complete, finished_setEntries,
    ← unfinished_setEntries_empty hn hid]
  ac_rfl

theorem unfinished_register : q.register.unfinished = q.unfinished := by
  simp [unfinished, register]

theorem unfinished_drop (hn : q.ids.Nodup) (hid : id ∈ q.ids) (hs : id ≠ shared) :
    (q.drop id).unfinished + (q.entries id).toList = q.unfinished := by
  have hids : (q.drop id).ids = q.ids.erase id := by
    rw [ids_drop, hn.erase_eq_filter]
    congr 1
    funext j
    by_cases hj : j = id
    · simp [hj, hs]
    · simp [hj]
  have hrest : ((q.ids.erase id).map fun j => (((q.drop id).entries j).toList : Multiset Nat)) =
      (q.ids.erase id).map fun j => ((q.entries j).toList : Multiset Nat) := by
    refine List.map_congr_left fun j hj => ?_
    rw [entries_drop hs, if_neg (hn.mem_erase_iff.1 hj).1]
  rw [unfinished_eq (hids ▸ hn.erase id), unfinished_eq hn, hids, hrest,
    ← List.sum_map_erase _ hid, add_comm]

theorem finished_pop : q.finished = (q.pop.1.toList.flatten : Multiset Nat) + q.pop.2.finished := by
  rw [finished, completed_pop, List.flatten_append]
  rfl

theorem waiting_abandon : q.abandon.finished + q.abandon.unfinished = 0 := by
  have h : q.abandon.unfinished = 0 := by
    rw [unfinished]
    refine List.sum_eq_zero fun x hx => ?_
    obtain ⟨b, hb, rfl⟩ := List.mem_map.1 hx
    obtain ⟨c, -, rfl⟩ := List.mem_map.1 hb
    rfl
  rw [h]
  rfl

@[simp] theorem capacity_enqueue : (q.enqueue id v).capacity = q.capacity := by
  unfold enqueue
  simp only
  split <;> simp

theorem entries_enqueue (hid : id ∈ q.ids) : (q.enqueue id v).entries j =
    if j = id then (if q.FilledBy id v then ∅ else (q.entries id).push v) else q.entries j := by
  by_cases hf : q.FilledBy id v
  · rw [enqueue_of_filled hf, entries_complete, entries_setEntries hid, if_pos hf]
  · rw [enqueue_of_not_filled hf, entries_setEntries hid, if_neg hf]

/-- A buffer is handed over by the reference that fills it. -/
theorem completed_enqueue : (q.enqueue id v).completed.toList = q.completed.toList ++
    if q.FilledBy id v then [(q.entries id).toList ++ [v]] else [] := by
  by_cases hf : q.FilledBy id v
  · rw [enqueue_of_filled hf, completed_complete, completed_setEntries, if_pos hf,
      Queue.toList_push, if_neg (by simp)]
  · rw [enqueue_of_not_filled hf, completed_setEntries, if_neg hf, List.append_nil]

end SatbQueues

/-! ## 4. Operations with a record of what they moved -/

/-- What is done with the buffers of a heap. -/
inductive BufferOp where
  | register
  | enqueue (id v : Nat)
  | flush (id : Nat)
  | flushAll
  | pop
  | abandon
  | drop (id : Nat)
  deriving DecidableEq

/-- The buffers of a heap, and what became of the references since all were last forgotten. -/
structure Traffic where
  queues : SatbQueues
  /-- What was recorded, and in which buffer, in order. -/
  recorded : List (Nat × Nat) := []
  /-- The completed buffers that were taken, in order. -/
  taken : List (List Nat) := []
  /-- What was in a buffer when it was dropped. -/
  dropped : List (Nat × List Nat) := []

namespace Traffic

/-- Buffers in which nothing was recorded yet. -/
def start (capacity : Nat) : Traffic := { queues := { capacity } }

/-- One operation. -/
def step (t : Traffic) : BufferOp → Traffic
  | .register => { t with queues := t.queues.register }
  | .enqueue id v =>
    { t with queues := t.queues.enqueue id v, recorded := t.recorded ++ [(id, v)] }
  | .flush id => { t with queues := t.queues.flush id }
  | .flushAll => { t with queues := t.queues.flushAll }
  | .pop => { t with queues := t.queues.pop.2, taken := t.taken ++ t.queues.pop.1.toList }
  | .abandon => { queues := t.queues.abandon }
  | .drop id =>
    { t with
      queues := t.queues.drop id
      dropped := t.dropped ++ [(id, (t.queues.entries id).toList)] }

/-- An operation is on a buffer that is in use.  The one of compiled code is not dropped. -/
def Allows (t : Traffic) : BufferOp → Prop
  | .enqueue id _ | .flush id => id ∈ t.queues.ids
  | .drop id => id ∈ t.queues.ids ∧ id ≠ SatbQueues.shared
  | .register | .flushAll | .pop | .abandon => True

instance (t : Traffic) (op : BufferOp) : Decidable (t.Allows op) := by
  unfold Allows
  split <;> infer_instance

/-- Operations one after the other. -/
def run : List BufferOp → Traffic → Traffic
  | [], t => t
  | op :: rest, t => run rest (t.step op)

/-- Each of some operations is allowed when its turn comes. -/
def Permits : List BufferOp → Traffic → Prop
  | [], _ => True
  | op :: rest, t => t.Allows op ∧ Permits rest (t.step op)

instance decidablePermits : (ops : List BufferOp) → (t : Traffic) → Decidable (Permits ops t)
  | [], _ => isTrue trivial
  | op :: rest, t =>
    haveI := decidablePermits rest (t.step op)
    inferInstanceAs (Decidable (_ ∧ _))

/-- What was recorded in one buffer, in order. -/
def recordedIn (t : Traffic) (id : Nat) : List Nat :=
  (t.recorded.filter fun x => x.1 = id).map (·.2)

/-- What was left in a buffer when it was dropped, or is in it. -/
def leftIn (t : Traffic) (id : Nat) : List Nat :=
  ((t.dropped.filter fun x => x.1 = id).flatMap (·.2)) ++ (t.queues.entries id).toList

/-- What one buffer has handed over, in order. -/
def handedBy (handed : List (Nat × List Nat)) (id : Nat) : List Nat :=
  (handed.filter fun x => x.1 = id).flatMap (·.2)

/-- Every reference that was recorded is somewhere, and nothing else is. -/
def Conserved (t : Traffic) : Prop :=
  (t.recorded.map (·.2) : Multiset Nat) = t.taken.flatten + (t.queues.finished +
    t.queues.unfinished) + t.dropped.flatMap (·.2)

/-- The handovers are those of buffers, and each buffer has kept the order of its references. -/
def Ordered (t : Traffic) : Prop :=
  ∃ handed : List (Nat × List Nat), handed.map (·.2) = t.taken ++ t.queues.completed.toList ∧
    ∀ id, t.recordedIn id = handedBy handed id ++ t.leftIn id

/-- The invariant of a run. -/
structure Balanced (t : Traffic) (capacity : Nat) : Prop where
  named : t.queues.Named
  sized : t.queues.Sized
  capacity_eq : t.queues.capacity = capacity
  gone : ∀ x ∈ t.dropped, x.1 ∉ t.queues.ids ∧ x.1 < t.queues.registered
  conserved : t.Conserved
  ordered : t.Ordered

section
variable {t : Traffic} {capacity id v : Nat} {op : BufferOp} {ops : List BufferOp}

@[simp] theorem handedBy_append (x y : List (Nat × List Nat)) :
    handedBy (x ++ y) id = handedBy x id ++ handedBy y id := by
  simp [handedBy]

/-- Nothing of a buffer in use was dropped. -/
theorem Balanced.dropped_eq_nil (B : t.Balanced capacity) (hid : id ∈ t.queues.ids) :
    t.dropped.filter (fun x => x.1 = id) = [] := by
  refine List.filter_eq_nil_iff.2 fun x hx he => (B.gone x hx).1 ?_
  rwa [of_decide_eq_true he]

theorem Balanced.leftIn (B : t.Balanced capacity) (hid : id ∈ t.queues.ids) :
    t.leftIn id = (t.queues.entries id).toList := by
  rw [Traffic.leftIn, B.dropped_eq_nil hid]
  rfl

/-- Other entries of one buffer in use, and the same of the others. -/
theorem Balanced.leftIn_of_entries (t' : Traffic) {e : Queue Nat} (B : t.Balanced capacity)
    (hid : id ∈ t.queues.ids) (hd : t'.dropped = t.dropped)
    (he : ∀ j, t'.queues.entries j = if j = id then e else t.queues.entries j) (j : Nat) :
    t'.leftIn j = if j = id then e.toList else t.leftIn j := by
  rw [Traffic.leftIn, hd, he]
  split
  · rename_i hj
    rw [hj, B.dropped_eq_nil hid]
    rfl
  · rfl

theorem entries_start : (start capacity).queues.entries id = ∅ := by
  simp only [start, SatbQueues.entries, List.find?_singleton]
  split <;> rfl

theorem balanced_start (hc : 0 < capacity) : (start capacity).Balanced capacity where
  named := by
    have hids : (start capacity).queues.ids = [SatbQueues.shared] := rfl
    refine ⟨?_, fun id hid => ?_, ?_⟩
    · rw [hids]
      exact List.nodup_singleton _
    · rw [hids, List.mem_singleton] at hid
      exact hid ▸ Nat.zero_lt_one
    · rw [hids]
      exact List.mem_singleton_self _
  sized := ⟨fun id => by rw [entries_start]; exact hc, fun l hl => by cases hl⟩
  capacity_eq := rfl
  gone _ hx := by cases hx
  conserved := rfl
  ordered := ⟨[], rfl, fun id => by rw [Traffic.leftIn, entries_start]; rfl⟩

/-- The order is kept by an operation that records `more` in each buffer and hands over `new`, if
what each buffer has then is what it had, and `more`. -/
theorem Ordered.moves {t' : Traffic} (O : t.Ordered) (new : List (Nat × List Nat))
    (more : Nat → List Nat)
    (hnew : t'.taken ++ t'.queues.completed.toList =
      t.taken ++ t.queues.completed.toList ++ new.map (·.2))
    (hmore : ∀ j, t'.recordedIn j = t.recordedIn j ++ more j)
    (hleft : ∀ j, t.leftIn j ++ more j = handedBy new j ++ t'.leftIn j) : t'.Ordered := by
  obtain ⟨handed, hmap, hof⟩ := O
  refine ⟨handed ++ new, ?_, fun j => ?_⟩
  · rw [List.map_append, hmap, hnew]
  · rw [hmore, hof, handedBy_append, List.append_assoc, List.append_assoc, hleft]

/-- An operation that records nothing and hands over nothing. -/
theorem Ordered.still {t' : Traffic} (O : t.Ordered)
    (htaken : t'.taken ++ t'.queues.completed.toList = t.taken ++ t.queues.completed.toList)
    (hrec : t'.recorded = t.recorded) (hleft : ∀ j, t'.leftIn j = t.leftIn j) : t'.Ordered :=
  O.moves [] (fun _ => []) (by rw [htaken, List.map_nil, List.append_nil])
    (fun j => by rw [recordedIn, hrec, List.append_nil]; rfl)
    fun j => by rw [hleft, List.append_nil]; rfl

theorem Balanced.register (B : t.Balanced capacity) : (t.step .register).Balanced capacity where
  named := B.named.register
  sized := B.sized.register
  capacity_eq := B.capacity_eq
  gone x hx := by
    obtain ⟨hnot, hlt⟩ := B.gone x hx
    have hids : (t.step .register).queues.ids = t.queues.ids ++ [t.queues.registered] := by
      simp [step, SatbQueues.ids, SatbQueues.register]
    refine ⟨fun h => ?_, Nat.lt_succ_of_lt hlt⟩
    rw [hids, List.mem_append, List.mem_singleton] at h
    rcases h with h | h
    · exact hnot h
    · omega
  conserved := by
    have h := B.conserved
    rw [Conserved, ← SatbQueues.unfinished_register] at h
    exact h
  ordered := B.ordered.still rfl rfl fun j => by
    rw [Traffic.leftIn, step, SatbQueues.entries_register]
    rfl

theorem Balanced.enqueue (B : t.Balanced capacity) (hid : id ∈ t.queues.ids) :
    (t.step (.enqueue id v)).Balanced capacity where
  named := B.named.of_ids SatbQueues.ids_enqueue SatbQueues.registered_enqueue
  sized := B.sized.enqueue hid
  capacity_eq := SatbQueues.capacity_enqueue.trans B.capacity_eq
  gone x hx := by
    rw [step, SatbQueues.ids_enqueue, SatbQueues.registered_enqueue]
    exact B.gone x hx
  conserved := by
    have h := B.conserved
    rw [Conserved] at h ⊢
    simp only [step, List.map_append, List.map_cons, List.map_nil]
    rw [SatbQueues.waiting_enqueue B.named.nodup hid, ← Multiset.coe_add, h]
    simp only [Multiset.coe_singleton]
    ac_rfl
  ordered := by
    refine B.ordered.moves
      (if t.queues.FilledBy id v then [(id, (t.queues.entries id).toList ++ [v])] else [])
      (fun j => if id = j then [v] else []) ?_ (fun j => ?_) fun j => ?_
    · simp only [step, SatbQueues.completed_enqueue]
      split <;> simp
    · by_cases hj : id = j <;> simp [step, recordedIn, hj]
    · -- The buffer has one entry more, or has handed over all that it had with that.
      rw [B.leftIn_of_entries (t.step (.enqueue id v)) hid rfl
        (fun j => SatbQueues.entries_enqueue hid) j]
      by_cases hj : j = id
      · subst hj
        rw [B.leftIn hid, if_pos rfl, if_pos rfl]
        split <;> simp [handedBy]
      · have hj' : id ≠ j := fun h => hj h.symm
        rw [if_neg hj, if_neg hj', List.append_nil]
        split <;> simp [handedBy, hj']

theorem Balanced.flush (B : t.Balanced capacity) (hid : id ∈ t.queues.ids) :
    (t.step (.flush id)).Balanced capacity where
  named := B.named.of_ids SatbQueues.ids_flush SatbQueues.registered_flush
  sized := B.sized.flush hid
  capacity_eq := SatbQueues.capacity_flush.trans B.capacity_eq
  gone x hx := by
    rw [step, SatbQueues.ids_flush, SatbQueues.registered_flush]
    exact B.gone x hx
  conserved := by
    have h := B.conserved
    rw [Conserved, ← SatbQueues.waiting_flush B.named.nodup hid] at h
    exact h
  ordered := by
    refine B.ordered.moves
      (if (t.queues.entries id).toList = [] then [] else [(id, (t.queues.entries id).toList)])
      (fun _ => []) ?_ (fun j => (List.append_nil _).symm) fun j => ?_
    · simp only [step, SatbQueues.completed_flush]
      split <;> simp
    · rw [B.leftIn_of_entries (t.step (.flush id)) hid rfl
        (fun j => SatbQueues.entries_flush_eq hid) j]
      by_cases hj : j = id
      · subst hj
        rw [B.leftIn hid, if_pos rfl]
        split <;> simp_all [handedBy]
      · have hj' : id ≠ j := fun h => hj h.symm
        rw [if_neg hj, List.append_nil]
        split <;> simp [handedBy, hj']

theorem Balanced.flushAll (B : t.Balanced capacity) : (t.step .flushAll).Balanced capacity :=
  SatbQueues.flushAll_induction (P := fun q => Balanced { t with queues := q } capacity)
    (fun _ _ hid B => B.flush hid) B

theorem Balanced.pop (B : t.Balanced capacity) : (t.step .pop).Balanced capacity where
  named := B.named.of_ids SatbQueues.ids_pop SatbQueues.registered_pop
  sized := B.sized.pop
  capacity_eq := SatbQueues.capacity_pop.trans B.capacity_eq
  gone x hx := by
    rw [step, SatbQueues.ids_pop, SatbQueues.registered_pop]
    exact B.gone x hx
  conserved := by
    have h := B.conserved
    rw [Conserved, SatbQueues.finished_pop] at h
    rw [Conserved]
    simp only [step, List.flatten_append]
    rw [h, ← Multiset.coe_add, SatbQueues.unfinished, SatbQueues.unfinished, SatbQueues.buffers_pop]
    ac_rfl
  ordered := B.ordered.still
    (by rw [step, SatbQueues.completed_pop (q := t.queues), List.append_assoc]) rfl
    fun j => by rw [Traffic.leftIn, step, SatbQueues.entries_pop]; rfl

theorem Balanced.abandon (B : t.Balanced capacity) : (t.step .abandon).Balanced capacity where
  named := B.named.of_ids SatbQueues.ids_abandon rfl
  sized := B.sized.abandon
  capacity_eq := B.capacity_eq
  gone x hx := by cases hx
  conserved := by
    rw [Conserved]
    simp only [step]
    rw [SatbQueues.waiting_abandon]
    rfl
  ordered := ⟨[], rfl, fun j => by rw [Traffic.leftIn, step, SatbQueues.entries_abandon]; rfl⟩

theorem Balanced.drop (B : t.Balanced capacity) (hid : id ∈ t.queues.ids)
    (hs : id ≠ SatbQueues.shared) : (t.step (.drop id)).Balanced capacity where
  named := B.named.drop
  sized := B.sized.drop hs
  capacity_eq := B.capacity_eq
  gone x hx := by
    have hsub : (t.step (.drop id)).queues.ids ⊆ t.queues.ids := by
      rw [step, SatbQueues.ids_drop]
      exact List.filter_sublist.subset
    rcases List.mem_append.1 hx with hx | hx
    · obtain ⟨hnot, hlt⟩ := B.gone x hx
      exact ⟨fun h => hnot (hsub h), hlt⟩
    · rw [List.mem_singleton.1 hx]
      refine ⟨fun h => ?_, B.named.lt id hid⟩
      rw [step, SatbQueues.ids_drop] at h
      simpa [hs] using (List.mem_filter.1 h).2
  conserved := by
    have h := B.conserved
    rw [Conserved, ← SatbQueues.unfinished_drop B.named.nodup hid hs] at h
    rw [Conserved]
    simp only [step, List.flatMap_append, List.flatMap_singleton]
    rw [h, ← Multiset.coe_add]
    have hf : (t.queues.drop id).finished = t.queues.finished := rfl
    rw [hf]
    ac_rfl
  ordered := B.ordered.still rfl rfl fun j => by
    rw [Traffic.leftIn, Traffic.leftIn, step, SatbQueues.entries_drop hs]
    by_cases hj : j = id
    · simp [hj]
    · have hj' : id ≠ j := fun h => hj h.symm
      simp [hj, hj']

/-- **Every operation keeps the balance.** -/
theorem Balanced.step (B : t.Balanced capacity) (ha : t.Allows op) :
    (t.step op).Balanced capacity := by
  cases op with
  | register => exact B.register
  | enqueue id v => exact B.enqueue ha
  | flush id => exact B.flush ha
  | flushAll => exact B.flushAll
  | pop => exact B.pop
  | abandon => exact B.abandon
  | drop id => exact B.drop ha.1 ha.2

theorem Balanced.run (B : t.Balanced capacity) (hp : Permits ops t) :
    (run ops t).Balanced capacity := by
  induction ops generalizing t with
  | nil => exact B
  | cons op rest ih => exact ih (B.step hp.1) hp.2

/-- **Nothing that is recorded is lost or doubled**, whatever is done with the buffers.  Each buffer
keeps the order of its references, none reaches the capacity, and what is handed over is not empty
and no longer than that.  When all buffers are flushed, those in use are the same as before, the one
of compiled code among them, and they are empty. -/
theorem nothing_lost (hc : 0 < capacity) (hp : Permits ops (start capacity)) :
    (run ops (start capacity)).Conserved ∧ (run ops (start capacity)).Ordered ∧
    (∀ b ∈ (run ops (start capacity)).queues.buffers, b.entries.size < capacity) ∧
    (∀ l ∈ (run ops (start capacity)).queues.completed.toList, l ≠ [] ∧ l.length ≤ capacity) ∧
    (run ops (start capacity)).queues.flushAll.ids = (run ops (start capacity)).queues.ids ∧
    SatbQueues.shared ∈ (run ops (start capacity)).queues.ids ∧
    ∀ b ∈ (run ops (start capacity)).queues.flushAll.buffers, b.entries.toList = [] := by
  have B := (balanced_start hc).run hp
  refine ⟨B.conserved, B.ordered, fun b hb => ?_, fun l hl => ?_,
    (SatbQueues.flushAll_spec B.named.nodup).1, B.named.shared_mem,
    fun b => SatbQueues.entries_of_mem_flushAll⟩
  · have hroom := B.sized.room b.id
    rwa [SatbQueues.entries_eq B.named.nodup hb, B.capacity_eq] at hroom
  · have hfull := B.sized.completed l hl
    rwa [B.capacity_eq] at hfull

/-- Two buffers besides the shared one.  One fills and is dropped with an entry in it, after which
another is registered and all are flushed. -/
def dropping : List BufferOp := [
  .register, .register, .enqueue 1 8, .enqueue 2 16, .enqueue 1 24, .enqueue 0 8, .enqueue 1 32,
  .drop 1, .register, .enqueue 3 40, .pop, .flushAll]

theorem nothing_lost_dropping :
    Permits dropping (start 2) ∧
      (run dropping (start 2)).taken = [[8, 24]] ∧
      (run dropping (start 2)).queues.completed.toList = [[8], [16], [40]] ∧
      (run dropping (start 2)).dropped = [(1, [32])] ∧
      (run dropping (start 2)).Conserved ∧ (run dropping (start 2)).Ordered := by
  have hp : Permits dropping (start 2) := by decide
  obtain ⟨hconserved, hordered, -⟩ := nothing_lost (by decide) hp
  exact ⟨hp, by decide, by decide, by decide, hconserved, hordered⟩

end

end Traffic

end ManagedHeap
