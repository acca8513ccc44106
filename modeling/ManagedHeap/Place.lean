/-
# Places of reservations

Where the system puts a reservation is not for the program to say, so whatever reserves memory
takes a `Place`.  All places are above zero, so that no address is null, and so low that every
reservation the system grants ends far below the end of a word.

A program that also handles numbers of other origin wants a place that they do not run into.
`Place.roomiest` compares `Place.count` candidates, in ascending order, by the room up to the
next of the numbers; a later candidate is taken only if it has strictly more, so that without
such numbers the answer is `Place.first`.
-/
import ManagedHeap.Address

namespace ManagedHeap

/-- Reservations of this size and above are refused. -/
def reservationLimit : Nat := 1 <<< 47

/-- Where the system puts a reservation, but for the alignment. -/
structure Place where
  address : Nat
  address_pos : 0 < address
  address_lt : address < reservationLimit
  deriving DecidableEq, Repr

namespace Place

/-- How many candidates there are. -/
def count : Nat := 1 <<< 10

/-- The candidate with some number: they are `1 <<< 36` bytes apart. -/
def candidate (k : Fin count) : Place where
  address := (1 <<< 46) + k.val * (1 <<< 36)
  address_pos := by simp only [Nat.reduceShiftLeft]; omega
  address_lt := by
    have := k.isLt
    simp only [count, reservationLimit, Nat.reduceShiftLeft] at *
    omega

/-- The lowest candidate. -/
def first : Place := candidate ⟨0, by decide⟩

/-- The bytes from a place up to a number above it, at most `room`. -/
def roomBelow (p : Place) (room n : Nat) : Nat :=
  if p.address ≤ n then min room (n - p.address) else room

/-- The bytes from a place up to the next of some numbers, at most `reservationLimit`. -/
def room (p : Place) (numbers : List Nat) : Nat := numbers.foldl p.roomBelow reservationLimit

theorem foldl_roomBelow_le (p : Place) (numbers : List Nat) (room : Nat) :
    numbers.foldl p.roomBelow room ≤ room := by
  induction numbers generalizing room with
  | nil => exact Nat.le_refl room
  | cons n rest ih =>
    refine Nat.le_trans (ih _) ?_
    unfold roomBelow
    split <;> omega

/-- No number is in the room of a place. -/
theorem address_add_room_le {p : Place} {numbers : List Nat} {n : Nat} (hn : n ∈ numbers)
    (hp : p.address ≤ n) : p.address + p.room numbers ≤ n := by
  obtain ⟨before, after, rfl⟩ := List.append_of_mem hn
  have h := p.foldl_roomBelow_le after (p.roomBelow (before.foldl p.roomBelow reservationLimit) n)
  rw [room, List.foldl_append, List.foldl_cons]
  rw [roomBelow, if_pos hp] at h ⊢
  omega

/-- The place with more room; the first of two that have as much. -/
def roomier (numbers : List Nat) (p q : Place) : Place :=
  if p.room numbers < q.room numbers then q else p

/-- The candidate with the most room up to the next of some numbers.  Numbers below all
candidates do not matter. -/
def roomiest (numbers : List Nat) : Place :=
  ((List.finRange count).map candidate).foldl
    (roomier (numbers.filter (first.address ≤ ·))) first

end Place

end ManagedHeap
