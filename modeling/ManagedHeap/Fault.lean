/-
# Actions and the ways they stop

An operation on a state of type `σ` is an `Action σ α`.  It gives a value and the new state,
or stops with a `Fault`.  The state at a fault is the state reached when the operation
stopped: what it changed before stays changed, and the next operation starts from there.

* A failed `check` is a mistake of the caller or a corrupt heap that an assertion, a bound
  or an overflow check notices.
* A `violation` is a broken promise between the collector and the barriers.  It is not
  survivable.
* `exhausted` ends the process because memory ran out and the options ask for that.
* `stalled` is an operation that waits for mutators that never stop.
-/
import ManagedHeap.Address
import ManagedHeap.Region.State

namespace ManagedHeap

/-! ## 1. Faults -/

/-- A broken promise between the collector and the barriers. -/
inductive Violation where
  /-- No region may move from the first state to the second. -/
  | illegalTransition (region : Nat) (src dst : RegionState)
  /-- A region was to move out of a state it was not in. -/
  | lostTransition (region : Nat) (src dst found : RegionState)
  /-- A reference into a region without objects. -/
  | inEmptyRegion (object : Nat) (region : Nat)
  /-- A reference to memory that the heap does not have. -/
  | outsideHeap (object : Nat)
  /-- An object that should have been moved, after all objects were. -/
  | notEvacuated (object : Nat) (region : Nat)
  /-- Compiled code called a barrier, but no heap with barriers is installed. -/
  | noBarrierHeap
  deriving DecidableEq, Repr

/-- The wording of a violation. -/
def Violation.message : Violation → String
  | .illegalTransition i src dst =>
    "region " ++ toString i ++ ": illegal transition " ++ src.name ++ " -> " ++ dst.name
  | .lostTransition i src dst found =>
    "region " ++ toString i ++ ": " ++ src.name ++ " -> " ++ dst.name ++
      " found the region in " ++ found.name
  | .inEmptyRegion o i => hexText o ++ " is in empty region " ++ toString i
  | .outsideHeap o => hexText o ++ " is outside of the heap"
  | .notEvacuated o i =>
    hexText o ++ " in relocated region " ++ toString i ++ " was not evacuated"
  | .noBarrierHeap => "Shenandoah barrier stub called without a Shenandoah heap"

/-- Why an action stopped. -/
inductive Fault where
  | check
  | violation (v : Violation)
  | exhausted
  | stalled
  deriving DecidableEq, Repr

/-! ## 2. Actions -/

/-- An operation on a state, which may stop half way. -/
abbrev Action (σ α : Type) := EStateM Fault σ α

/-- A computation that changes nothing, inside one that may. -/
instance {σ : Type} : MonadLift (Except Fault) (EStateM Fault σ) where
  monadLift x := fun s =>
    match x with
    | .ok a => .ok a s
    | .error f => .error f s

/-- Stop unless the condition holds. -/
def require (c : Prop) [Decidable c] : Except Fault Unit :=
  if c then .ok () else .error .check

/-- The sum of two words, unless it overflows. -/
def sum (a b : Nat) : Except Fault Nat :=
  if a + b < wordLimit then .ok (a + b) else .error .check

/-- The product of two words, unless it overflows. -/
def product (a b : Nat) : Except Fault Nat :=
  if a * b < wordLimit then .ok (a * b) else .error .check

/-- The distance from `b` up to `a`, unless `b` is the higher one. -/
def distance (a b : Nat) : Except Fault Nat :=
  if b ≤ a then .ok (a - b) else .error .check

/-- Run an action on a part of the state.  The part is put back also when the action
stops. -/
def Action.onPart {σ τ α : Type} (get : σ → τ) (put : τ → σ → σ) (act : Action τ α) :
    Action σ α := fun s =>
  match act (get s) with
  | .ok a t => .ok a (put t s)
  | .error f t => .error f (put t s)

/-- Run an action on the first of two parts. -/
def Action.onFirst {σ τ α : Type} (act : Action σ α) : Action (σ × τ) α :=
  act.onPart Prod.fst fun s x => (s, x.2)

/-- Run an action on the second of two parts. -/
def Action.onSecond {σ τ α : Type} (act : Action τ α) : Action (σ × τ) α :=
  act.onPart Prod.snd fun t x => (x.1, t)

/-- Run an action for each member of a list, in order. -/
def Action.each {σ α : Type} (xs : List α) (f : α → Action σ Unit) : Action σ Unit :=
  match xs with
  | [] => pure ()
  | x :: rest => do
    f x
    Action.each rest f

/-- Run an action for `count` numbers from `start` on, in order. -/
def Action.upTo {σ : Type} (start count : Nat) (f : Nat → Action σ Unit) : Action σ Unit :=
  match count with
  | 0 => pure ()
  | n + 1 => do
    f start
    Action.upTo (start + 1) n f

end ManagedHeap
