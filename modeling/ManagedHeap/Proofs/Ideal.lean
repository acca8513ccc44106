/-
# A heap whose objects never move

The `IdealHeap` is what a program may think it works on.  An object is its identity, a number that
is given out once; it has reference fields and a payload, and both hold what was last written.
Nothing is ever collected, so a step of a cycle is nothing at all here.  Identity zero is null.

Roots are named by their slots, which are numbered as those of a real heap are.
-/
import ManagedHeap.RootSet
import Mathlib.Logic.Function.Basic

namespace ManagedHeap

/-- A heap of objects that never move. -/
structure IdealHeap where
  /-- The identity of the next object. -/
  count : Nat := 1
  /-- The number of reference fields of an object. -/
  refs : Nat → Nat := fun _ => 0
  /-- The number of payload bytes of an object. -/
  bytes : Nat → Nat := fun _ => 0
  /-- The object in a field. -/
  field : Nat → Nat → Nat := fun _ _ => 0
  /-- The payload word at an offset. -/
  word : Nat → Nat → Nat := fun _ _ => 0
  /-- The object in a root. -/
  root : Nat → Nat := fun _ => 0
  /-- How many roots were ever registered. -/
  registered : Nat := 0

namespace IdealHeap

open Function (update)

/-! ## 1. The operations -/

/-- A new object with null fields and a payload of zeros. -/
def alloc (h : IdealHeap) (refs bytes : Nat) : IdealHeap :=
  { h with
    count := h.count + 1
    refs := update h.refs h.count refs
    bytes := update h.bytes h.count bytes
    field := update h.field h.count fun _ => 0
    word := update h.word h.count fun _ => 0 }

/-- A new object with the contents of another. -/
def clone (h : IdealHeap) (src : Nat) : IdealHeap :=
  { h with
    count := h.count + 1
    refs := update h.refs h.count (h.refs src)
    bytes := update h.bytes h.count (h.bytes src)
    field := update h.field h.count (h.field src)
    word := update h.word h.count (h.word src) }

/-- A field is overwritten. -/
def setField (h : IdealHeap) (o i v : Nat) : IdealHeap :=
  { h with field := update h.field o (update (h.field o) i v) }

/-- A payload word is overwritten. -/
def setWord (h : IdealHeap) (o offset v : Nat) : IdealHeap :=
  { h with word := update h.word o (update (h.word o) offset v) }

/-- A run of fields is overwritten at once, as if it had been read before. -/
def copyFields (h : IdealHeap) (src si dst di len : Nat) : IdealHeap :=
  { h with field := update h.field dst fun i =>
      if di ≤ i ∧ i < di + len then h.field src (si + (i - di)) else h.field dst i }

/-- A root is overwritten. -/
def setRoot (h : IdealHeap) (slot v : Nat) : IdealHeap := { h with root := update h.root slot v }

/-- The slot of the next root. -/
def nextSlot (h : IdealHeap) : Nat := rootBase + wordBytes * h.registered

/-- A root is registered. -/
def addRoot (h : IdealHeap) (v : Nat) : IdealHeap :=
  { h with root := update h.root h.nextSlot v, registered := h.registered + 1 }

/-- A field after a copy. -/
theorem copyFields_field (h : IdealHeap) (src si dst di len p i : Nat) :
    (h.copyFields src si dst di len).field p i =
      if p = dst ∧ di ≤ i ∧ i < di + len then h.field src (si + (i - di)) else h.field p i := by
  by_cases hp : p = dst
  · subst hp
    simp only [copyFields, Function.update_self, true_and]
  · simp only [copyFields, Function.update_of_ne hp, hp, false_and, if_false]

@[simp] theorem setField_self (h : IdealHeap) (o i : Nat) : h.setField o i (h.field o i) = h := by
  simp [setField]

@[simp] theorem setRoot_self (h : IdealHeap) (slot : Nat) : h.setRoot slot (h.root slot) = h := by
  simp [setRoot]

theorem setField_field (h : IdealHeap) (o i v p j : Nat) :
    (h.setField o i v).field p j = if p = o ∧ j = i then v else h.field p j := by
  by_cases hp : p = o
  · subst hp
    by_cases hj : j = i
    · simp [setField, hj]
    · simp [setField, hj]
  · simp [setField, hp]

theorem setWord_word (h : IdealHeap) (o k v p j : Nat) :
    (h.setWord o k v).word p j = if p = o ∧ j = k then v else h.word p j := by
  by_cases hp : p = o
  · subst hp
    by_cases hj : j = k
    · simp [setWord, hj]
    · simp [setWord, hj]
  · simp [setWord, hp]

/-! ## 2. Copying fields one by one -/

/-- One field of a run is copied. -/
def copyField (src si dst di : Nat) (h : IdealHeap) (k : Nat) : IdealHeap :=
  h.setField dst (di + k) (h.field src (si + k))

section
variable {src si dst di len : Nat}

/-- Fields that are copied in an order in which none is read after it was overwritten hold what
those of the source held at first. -/
theorem foldl_copyField {l : List Nat} {h : IdealHeap}
    (hl : l.Pairwise fun j k => ¬ (src = dst ∧ di + j = si + k)) (p i : Nat) :
    (l.foldl (copyField src si dst di) h).field p i =
      if p = dst ∧ di ≤ i ∧ i - di ∈ l then h.field src (si + (i - di)) else h.field p i := by
  induction l generalizing h with
  | nil => simp
  | cons k rest ih =>
    obtain ⟨hk, hrest⟩ := List.pairwise_cons.1 hl
    rw [List.foldl_cons, ih hrest, copyField, setField_field, setField_field]
    by_cases hp : p = dst ∧ di ≤ i
    · obtain ⟨rfl, hi⟩ := hp
      by_cases hr : i - di ∈ rest
      · have hne : ¬ (src = p ∧ si + (i - di) = di + k) := fun he => hk _ hr ⟨he.1, he.2.symm⟩
        simp [hi, hr, hne]
      · by_cases hik : i - di = k
        · subst hik
          have he : di + (i - di) = i := by omega
          simp [hi, he]
        · have hne : i ≠ di + k := by omega
          simp [hr, hik, hne]
    · have hne : ¬ (p = dst ∧ i = di + k) := fun he => hp ⟨he.1, by omega⟩
      have h1 : ¬ (p = dst ∧ di ≤ i ∧ i - di ∈ rest) := fun he => hp ⟨he.1, he.2.1⟩
      have h2 : ¬ (p = dst ∧ di ≤ i ∧ i - di ∈ k :: rest) := fun he => hp ⟨he.1, he.2.1⟩
      rw [if_neg h1, if_neg hne, if_neg h2]

theorem foldl_copyField_rest {l : List Nat} {h : IdealHeap} :
    l.foldl (copyField src si dst di) h =
      { h with field := (l.foldl (copyField src si dst di) h).field } := by
  induction l generalizing h with
  | nil => rfl
  | cons k rest ih =>
    rw [List.foldl_cons, ih]
    rfl

/-- **Copying one by one is copying at once**, upwards if the target is not above the source in one
object, and downwards otherwise. -/
theorem foldl_copyField_eq {h : IdealHeap} {down : Bool}
    (hdown : src = dst → down = decide (si < di)) :
    (if down then (List.range len).reverse else List.range len).foldl (copyField src si dst di) h =
      h.copyFields src si dst di len := by
  have hmem {k : Nat} : k ∈ (if down then (List.range len).reverse else List.range len) ↔
      k < len := by
    cases down <;> simp
  have hpair : (if down then (List.range len).reverse else List.range len).Pairwise
      fun j k => ¬ (src = dst ∧ di + j = si + k) := by
    cases down with
    | false =>
      refine List.pairwise_lt_range.imp fun {j k} hjk he => ?_
      have := hdown he.1
      simp only [Bool.false_eq, decide_eq_false_iff_not] at this
      omega
    | true =>
      refine List.pairwise_reverse.2 (List.pairwise_lt_range.imp fun {j k} hjk he => ?_)
      have := hdown he.1
      simp only [Bool.true_eq, decide_eq_true_eq] at this
      omega
  rw [foldl_copyField_rest, copyFields]
  congr 1
  funext p i
  rw [foldl_copyField hpair]
  simp only [hmem]
  by_cases hp : p = dst
  · subst hp
    rw [Function.update_self]
    by_cases hi : di ≤ i
    · have he : i - di < len ↔ i < di + len := by omega
      simp [hi, he]
    · simp [hi]
  · rw [Function.update_of_ne hp, if_neg fun he => hp he.1]

end

end IdealHeap

end ManagedHeap
