/-
# What the queues of overwritten references hold

`SatbQueues.Recorded q v` says that `v` waits in some buffer, completed or not.  Mutators only add
to it, flushing moves entries without losing one, and only the collector takes entries out
(`pop`).  A buffer that is not registered loses what is put into it, so `recorded_enqueue` asks for
a registered one.
-/
import ManagedHeap.SatbQueues
import Mathlib.Data.List.Nodup

namespace ManagedHeap.SatbQueues

variable {q q' : SatbQueues} {id v w : Nat}

/-- The reference waits in a buffer. -/
def Recorded (q : SatbQueues) (v : Nat) : Prop :=
  (∃ b ∈ q.buffers, v ∈ b.entries.toList) ∨ ∃ l ∈ q.completed.toList, v ∈ l

/-- The names of the registered buffers. -/
def ids (q : SatbQueues) : List Nat := q.buffers.map (·.id)

/-! ## 1. Entries of one buffer -/

@[simp] theorem ids_setEntries (e : Queue Nat) : (q.setEntries id e).ids = q.ids := by
  simp only [ids, setEntries, List.map_map]
  congr 1
  funext b
  simp only [Function.comp_apply]
  split <;> rfl

@[simp] theorem registered_setEntries (e : Queue Nat) :
    (q.setEntries id e).registered = q.registered := rfl

@[simp] theorem ids_complete (e : Queue Nat) : (q.complete e).ids = q.ids := by
  unfold complete
  split <;> rfl

@[simp] theorem registered_complete (e : Queue Nat) :
    (q.complete e).registered = q.registered := by
  unfold complete
  split <;> rfl

/-- The buffer with a name is found by it. -/
theorem entries_eq (hn : q.ids.Nodup) {b : SatbBuffer} (hb : b ∈ q.buffers) :
    q.entries b.id = b.entries := by
  have hinj {c : SatbBuffer} (hc : c ∈ q.buffers) (he : c.id = b.id) : c = b :=
    List.inj_on_of_nodup_map hn hc hb he
  unfold entries
  cases hf : q.buffers.find? (·.id = b.id) with
  | none =>
    have := List.find?_eq_none.1 hf b hb
    simp at this
  | some c =>
    have h1 := List.find?_some hf
    have h2 := List.mem_of_find?_eq_some hf
    rw [hinj h2 (by simpa using h1)]
    rfl

theorem recorded_complete {e : Queue Nat} :
    (q.complete e).Recorded v ↔ q.Recorded v ∨ v ∈ e.toList := by
  unfold complete
  split
  · rename_i h
    have := (Queue.isEmpty_iff e).1 h
    simp [this]
  · simp only [Recorded, Queue.toList_push, List.mem_append, List.mem_singleton]
    constructor
    · rintro (h | ⟨l, h | rfl, hv⟩)
      · exact .inl (.inl h)
      · exact .inl (.inr ⟨l, h, hv⟩)
      · exact .inr hv
    · rintro ((h | ⟨l, h, hv⟩) | hv)
      · exact .inl h
      · exact .inr ⟨l, .inl h, hv⟩
      · exact .inr ⟨_, .inr rfl, hv⟩

/-- What is put in the place of the entries of a registered buffer. -/
theorem recorded_setEntries (hn : q.ids.Nodup) (hid : id ∈ q.ids) {e : Queue Nat}
    (he : ∀ w ∈ (q.entries id).toList, w ∈ e.toList) :
    (q.setEntries id e).Recorded v ↔ q.Recorded v ∨ v ∈ e.toList := by
  obtain ⟨b, hb, rfl⟩ := List.mem_map.1 hid
  have hent := entries_eq hn hb
  simp only [Recorded, setEntries, List.mem_map]
  constructor
  · rintro (⟨c, ⟨d, hd, rfl⟩, hv⟩ | h)
    · split at hv
      · exact .inr hv
      · exact .inl (.inl ⟨d, hd, hv⟩)
    · exact .inl (.inr h)
  · rintro ((⟨c, hc, hv⟩ | h) | hv)
    · refine .inl ⟨_, ⟨c, hc, rfl⟩, ?_⟩
      split
      · rename_i hcid
        have : c = b := List.inj_on_of_nodup_map hn hc hb hcid
        subst this
        exact he v (hent ▸ hv)
      · exact hv
    · exact .inr h
    · exact .inl ⟨_, ⟨b, hb, rfl⟩, by simpa using hv⟩

/-- Entries that were moved out of a buffer are recorded if they are put elsewhere. -/
theorem recorded_setEntries_empty (hn : q.ids.Nodup) (hid : id ∈ q.ids) :
    (q.setEntries id ∅).Recorded v ∨ v ∈ (q.entries id).toList ↔ q.Recorded v := by
  obtain ⟨b, hb, rfl⟩ := List.mem_map.1 hid
  have hent := entries_eq hn hb
  rw [hent]
  simp only [Recorded, setEntries, List.mem_map]
  constructor
  · rintro ((⟨c, ⟨d, hd, rfl⟩, hv⟩ | h) | hv)
    · split at hv
      · simp at hv
      · exact .inl ⟨d, hd, hv⟩
    · exact .inr h
    · exact .inl ⟨b, hb, hv⟩
  · rintro (⟨c, hc, hv⟩ | h)
    · by_cases hcid : c.id = b.id
      · have : c = b := List.inj_on_of_nodup_map hn hc hb hcid
        subst this
        exact .inr hv
      · exact .inl (.inl ⟨_, ⟨c, hc, rfl⟩, by simpa [hcid] using hv⟩)
    · exact .inl (.inr h)

/-! ## 2. The operations -/

/-- **Nothing that is recorded gets lost.** -/
theorem recorded_enqueue (hn : q.ids.Nodup) (hid : id ∈ q.ids) :
    (q.enqueue id w).Recorded v ↔ q.Recorded v ∨ v = w := by
  have hpush : v ∈ ((q.entries id).push w).toList ↔ v ∈ (q.entries id).toList ∨ v = w := by
    simp [Queue.toList_push]
  unfold enqueue
  simp only
  split
  · rw [recorded_complete, hpush, ← or_assoc, recorded_setEntries_empty hn hid]
  · rw [recorded_setEntries hn hid fun x hx => by simp [Queue.toList_push, hx], hpush, ← or_assoc]
    constructor
    · rintro ((h | h) | h)
      · exact .inl h
      · exact .inl ((recorded_setEntries_empty hn hid).1 (.inr h))
      · exact .inr h
    · rintro (h | h)
      · exact .inl (.inl h)
      · exact .inr h

@[simp] theorem ids_enqueue : (q.enqueue id w).ids = q.ids := by
  unfold enqueue
  simp only
  split <;> simp

@[simp] theorem registered_enqueue : (q.enqueue id w).registered = q.registered := by
  unfold enqueue
  simp only
  split <;> simp

theorem recorded_flush (hn : q.ids.Nodup) (hid : id ∈ q.ids) :
    (q.flush id).Recorded v ↔ q.Recorded v := by
  rw [flush, recorded_complete, recorded_setEntries_empty hn hid]

@[simp] theorem ids_flush : (q.flush id).ids = q.ids := by simp [flush]

@[simp] theorem registered_flush : (q.flush id).registered = q.registered := by simp [flush]

@[simp] theorem registered_flushAll : q.flushAll.registered = q.registered := by
  unfold flushAll
  generalize q.buffers = buffers
  induction buffers generalizing q with
  | nil => rfl
  | cons b rest ih =>
    rw [List.foldl_cons, ih]
    exact registered_flush

/-- After a flush the buffer is empty, and the others are as before. -/
theorem buffers_flush : (q.flush id).buffers =
    q.buffers.map fun b => if b.id = id then { b with entries := ∅ } else b := by
  unfold flush complete
  split <;> rfl

theorem entries_flush (hn : q.ids.Nodup) (hid : id ∈ q.ids) :
    ((q.flush id).entries id).toList = [] := by
  obtain ⟨b, hb, rfl⟩ := List.mem_map.1 hid
  have hmem : { b with entries := ∅ } ∈ (q.flush b.id).buffers := by
    rw [buffers_flush]
    exact List.mem_map.2 ⟨b, hb, if_pos rfl⟩
  have := entries_eq (q := q.flush b.id) (by simpa using hn) hmem
  rw [this]
  rfl

/-- One flush after the other, each buffer in turn. -/
theorem foldl_flush {l : List SatbBuffer} (hn : q.ids.Nodup) (hl : ∀ b ∈ l, b.id ∈ q.ids) :
    (l.foldl (fun q b => q.flush b.id) q).ids = q.ids ∧
      (l.foldl (fun q b => q.flush b.id) q).registered = q.registered ∧
      ∀ v, (l.foldl (fun q b => q.flush b.id) q).Recorded v ↔ q.Recorded v := by
  induction l generalizing q with
  | nil => exact ⟨rfl, rfl, fun _ => Iff.rfl⟩
  | cons c l ih =>
    obtain ⟨h1, h2, h3⟩ := ih (q := q.flush c.id) (by simpa using hn)
      fun b hb => by simpa using hl b (by simp [hb])
    exact ⟨by simpa using h1, by simpa using h2,
      fun v => (h3 v).trans (recorded_flush hn (hl c (by simp)))⟩

/-- A buffer that was flushed is empty, the others are as before. -/
theorem mem_foldl_flush {l : List SatbBuffer} {b : SatbBuffer}
    (hb : b ∈ (l.foldl (fun q b => q.flush b.id) q).buffers) :
    b.entries.toList = [] ∨ (b ∈ q.buffers ∧ ∀ c ∈ l, b.id ≠ c.id) := by
  induction l generalizing q with
  | nil => exact .inr ⟨hb, by simp⟩
  | cons c l ih =>
    rcases ih hb with he | ⟨hmem, hne⟩
    · exact .inl he
    · rw [buffers_flush, List.mem_map] at hmem
      obtain ⟨d, hd, rfl⟩ := hmem
      by_cases hdc : d.id = c.id
      · rw [if_pos hdc]
        exact .inl rfl
      · rw [if_neg hdc] at hne ⊢
        refine .inr ⟨hd, fun e he => ?_⟩
        rcases List.mem_cons.1 he with rfl | he
        · exact hdc
        · exact hne e he

/-- No buffer holds anything when all were handed over. -/
theorem entries_of_mem_flushAll {b : SatbBuffer} (hb : b ∈ q.flushAll.buffers) :
    b.entries.toList = [] := by
  rcases mem_foldl_flush hb with he | ⟨hmem, hne⟩
  · exact he
  · exact absurd rfl (hne b hmem)

/-- **All buffers are handed over**: they are empty, and what they held is recorded. -/
theorem flushAll_spec (hn : q.ids.Nodup) :
    q.flushAll.ids = q.ids ∧ q.flushAll.registered = q.registered ∧
      (∀ v, q.flushAll.Recorded v ↔ q.Recorded v) ∧
      ∀ b ∈ q.flushAll.buffers, b.entries.toList = [] := by
  obtain ⟨h1, h2, h3⟩ := foldl_flush (l := q.buffers) hn fun b hb => List.mem_map_of_mem hb
  exact ⟨h1, h2, h3, fun b => entries_of_mem_flushAll⟩

@[simp] theorem not_recorded_abandon : ¬ q.abandon.Recorded v := by
  rintro (⟨b, hb, hv⟩ | ⟨l, hl, hv⟩)
  · simp only [abandon, List.mem_map] at hb
    obtain ⟨c, -, rfl⟩ := hb
    simp at hv
  · simp [abandon] at hl

@[simp] theorem ids_abandon : q.abandon.ids = q.ids := by
  simp [ids, abandon, Function.comp_def]

theorem recorded_register : q.register.Recorded v ↔ q.Recorded v := by
  simp only [Recorded, register, List.mem_append, List.mem_singleton]
  constructor
  · rintro (⟨b, hb | rfl, hv⟩ | h)
    · exact .inl ⟨b, hb, hv⟩
    · simp at hv
    · exact .inr h
  · rintro (⟨b, hb, hv⟩ | h)
    · exact .inl ⟨b, .inl hb, hv⟩
    · exact .inr h

/-- A buffer that was handed over may be forgotten. -/
theorem recorded_drop (hn : q.ids.Nodup) (he : (q.entries id).toList = []) :
    (q.drop id).Recorded v ↔ q.Recorded v := by
  simp only [Recorded, drop, List.mem_filter]
  constructor
  · rintro (⟨b, ⟨hb, -⟩, hv⟩ | h)
    · exact .inl ⟨b, hb, hv⟩
    · exact .inr h
  · rintro (⟨b, hb, hv⟩ | h)
    · refine .inl ⟨b, ⟨hb, ?_⟩, hv⟩
      simp only [Bool.or_eq_true, decide_eq_true_eq]
      by_contra hnot
      have hid : b.id = id := by
        by_contra hne
        exact hnot (.inr hne)
      have hent := entries_eq hn hb
      rw [hid] at hent
      rw [hent] at he
      rw [he] at hv
      cases hv
    · exact .inr h

/-- The collector takes the oldest completed buffer. -/
theorem pop_eq_some {l : List Nat} (h : q.pop = (some l, q')) :
    ∃ c, q.completed.toList = l :: c.toList ∧ q' = { q with completed := c } := by
  unfold pop at h
  cases hp : q.completed.pop? with
  | none => simp [hp] at h
  | some x =>
    obtain ⟨entries, rest⟩ := x
    simp only [hp, Prod.mk.injEq, Option.some.injEq] at h
    obtain ⟨rfl, rfl⟩ := h
    exact ⟨rest, Queue.toList_of_pop? hp, rfl⟩

/-- What was in a completed buffer is recorded as long as it was not taken. -/
theorem recorded_take {x y : List (List Nat)} {l : List Nat} {c : Queue (List Nat)}
    (h : q.completed.toList = x ++ l :: y) (hc : c.toList = x ++ y) {v : Nat} :
    q.Recorded v ↔ ({ q with completed := c }).Recorded v ∨ v ∈ l := by
  simp only [Recorded, h, hc, List.mem_append, List.mem_cons]
  constructor
  · rintro (hb | ⟨k, hk | rfl | hk, hv⟩)
    · exact .inl (.inl hb)
    · exact .inl (.inr ⟨k, .inl hk, hv⟩)
    · exact .inr hv
    · exact .inl (.inr ⟨k, .inr hk, hv⟩)
  · rintro ((hb | ⟨k, hk | hk, hv⟩) | hv)
    · exact .inl hb
    · exact .inr ⟨k, .inl hk, hv⟩
    · exact .inr ⟨k, .inr (.inr hk), hv⟩
    · exact .inr ⟨l, .inr (.inl rfl), hv⟩

theorem pop_eq_none {q' : SatbQueues} (h : q.pop = (none, q')) : q.completed.toList = [] := by
  unfold pop at h
  cases hp : q.completed.pop? with
  | none => exact (Queue.pop?_eq_none_iff _).1 hp
  | some x => simp [hp] at h

end ManagedHeap.SatbQueues
