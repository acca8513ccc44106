/-
# Records of overwritten references

While a cycle marks, every reference that a mutator overwrites is recorded, so that marking
reaches all that was reachable when it began.  Each mutator fills a buffer of its own, and
compiled code a shared one; a buffer that reaches the capacity is handed over as completed.
The collector takes completed buffers in the order in which they were handed over.
-/
import ManagedHeap.Queue

namespace ManagedHeap

/-- A buffer that is not completed. -/
structure SatbBuffer where
  id : Nat
  entries : Queue Nat := ∅

/-- The buffers of a heap. -/
structure SatbQueues where
  capacity : Nat
  /-- Completed buffers, the oldest first. -/
  completed : Queue (List Nat) := ∅
  /-- Registered buffers, the shared one and then the oldest first. -/
  buffers : List SatbBuffer := [{ id := 0 }]
  /-- How many buffers were ever registered. -/
  registered : Nat := 1

namespace SatbQueues

/-- The buffer of compiled code. -/
def shared : Nat := 0

/-- The entries of a buffer. -/
def entries (q : SatbQueues) (id : Nat) : Queue Nat :=
  ((q.buffers.find? (·.id = id)).map SatbBuffer.entries).getD ∅

/-- Change the entries of a buffer. -/
def setEntries (q : SatbQueues) (id : Nat) (entries : Queue Nat) : SatbQueues :=
  { q with buffers := q.buffers.map fun b => if b.id = id then { b with entries } else b }

/-- Hand over entries, if there are any. -/
def complete (q : SatbQueues) (entries : Queue Nat) : SatbQueues :=
  if entries.isEmpty then q else { q with completed := q.completed.push entries.toList }

/-- Whether a completed buffer waits. -/
def hasCompleted (q : SatbQueues) : Bool := !q.completed.isEmpty

/-- Register a new buffer, with the number of buffers before it as its name. -/
def register (q : SatbQueues) : SatbQueues :=
  { q with buffers := q.buffers ++ [{ id := q.registered }], registered := q.registered + 1 }

/-- Forget a buffer, with what is in it.  The shared one stays. -/
def drop (q : SatbQueues) (id : Nat) : SatbQueues :=
  { q with buffers := q.buffers.filter fun b => b.id = shared || b.id ≠ id }

/-- Record a reference in a buffer, and hand the buffer over when that fills it. -/
def enqueue (q : SatbQueues) (id value : Nat) : SatbQueues :=
  let entries := (q.entries id).push value
  if q.capacity ≤ entries.size then (q.setEntries id ∅).complete entries
  else q.setEntries id entries

/-- Hand over the entries of a buffer, full or not. -/
def flush (q : SatbQueues) (id : Nat) : SatbQueues :=
  (q.setEntries id ∅).complete (q.entries id)

/-- Hand over the entries of all buffers, the shared one first. -/
def flushAll (q : SatbQueues) : SatbQueues :=
  q.buffers.foldl (fun q b => q.flush b.id) q

/-- Take the oldest completed buffer. -/
def pop (q : SatbQueues) : Option (List Nat) × SatbQueues :=
  match q.completed.pop? with
  | none => (none, q)
  | some (entries, rest) => (some entries, { q with completed := rest })

/-- Forget all entries. -/
def abandon (q : SatbQueues) : SatbQueues :=
  { q with completed := ∅, buffers := q.buffers.map fun b => { b with entries := ∅ } }

end SatbQueues

end ManagedHeap
