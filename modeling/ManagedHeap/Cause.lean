/-
# Why a collection is asked for
-/

namespace ManagedHeap

/-- Why a collection is asked for. -/
inductive Cause where
  /-- The embedding program asked. -/
  | userRequested
  /-- An allocation found no room. -/
  | allocationFailure
  /-- The rules of the collector say that one is due. -/
  | heuristics
  deriving DecidableEq, Repr

namespace Cause

/-- The name of a cause. -/
def name : Cause → String
  | userRequested => "UserRequested"
  | allocationFailure => "AllocationFailure"
  | heuristics => "Heuristics"

/-- All causes. -/
def all : List Cause := [userRequested, allocationFailure, heuristics]

/-- The cause with a name. -/
def ofName? (s : String) : Option Cause := all.find? (·.name = s)

end Cause

end ManagedHeap
