/-
# Queues

A queue gives its elements back in the order in which they came.  The oldest ones are kept in
order and the others in reverse, so that an element is put in and taken out without a walk
through the rest.  The view of a queue is the list `toList`, the oldest element first; main
statements: `toList_push`, `size_eq_length`, and `toList_of_pop?` with `pop?_eq_none_iff`.
-/

namespace ManagedHeap

/-- A queue. -/
structure Queue (α : Type) where
  /-- The oldest elements, in order. -/
  front : List α := []
  /-- The other elements, the newest first. -/
  back : List α := []
  /-- The number of elements. -/
  size : Nat := 0
  size_eq : size = front.length + back.length := by rfl

namespace Queue

variable {α : Type}

/-! ## 1. Operations -/

instance : EmptyCollection (Queue α) := ⟨{}⟩

/-- The elements, the oldest first. -/
def toList (q : Queue α) : List α := q.front ++ q.back.reverse

/-- Whether there is no element. -/
def isEmpty (q : Queue α) : Bool := q.size == 0

/-- Put an element in. -/
def push (q : Queue α) (a : α) : Queue α where
  front := q.front
  back := a :: q.back
  size := q.size + 1
  size_eq := by have := q.size_eq; simp only [List.length_cons]; omega

/-- Take the oldest element out. -/
def pop? (q : Queue α) : Option (α × Queue α) :=
  match h : q.front with
  | a :: rest =>
    some (a, ⟨rest, q.back, q.size - 1, by
      have := q.size_eq; simp only [h, List.length_cons] at this; omega⟩)
  | [] =>
    match h' : q.back.reverse with
    | a :: rest =>
      some (a, ⟨rest, [], q.size - 1, by
        have := q.size_eq
        have hb := congrArg List.length h'
        simp only [h, List.length_reverse, List.length_cons, List.length_nil] at this hb ⊢
        omega⟩)
    | [] => none

/-! ## 2. The view -/

@[simp] theorem toList_empty : (∅ : Queue α).toList = [] := rfl

@[simp] theorem toList_push (q : Queue α) (a : α) : (q.push a).toList = q.toList ++ [a] := by
  simp [toList, push]

theorem size_eq_length (q : Queue α) : q.size = q.toList.length := by
  simp [toList, q.size_eq]

theorem isEmpty_iff (q : Queue α) : q.isEmpty = true ↔ q.toList = [] := by
  simp [isEmpty, size_eq_length]

theorem pop?_eq_none_iff (q : Queue α) : q.pop? = none ↔ q.toList = [] := by
  unfold pop? toList
  split
  · simp_all
  · split <;> simp_all

theorem toList_of_pop? {q rest : Queue α} {a : α} (h : q.pop? = some (a, rest)) :
    q.toList = a :: rest.toList := by
  unfold pop? at h
  split at h
  · simp only [Option.some.injEq, Prod.mk.injEq] at h
    obtain ⟨rfl, rfl⟩ := h
    simp_all [toList]
  · split at h
    · simp only [Option.some.injEq, Prod.mk.injEq] at h
      obtain ⟨rfl, rfl⟩ := h
      simp_all [toList]
    · simp at h

end Queue

end ManagedHeap
