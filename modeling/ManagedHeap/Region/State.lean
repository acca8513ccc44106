/-
# The life of a region

    empty ---> allocating ---> marked ---> relocating ---> empty
                   ^             |              |
                   +-------------+--------------+

A marked region that is not chosen for relocation, and a relocating one of which some
object found no room elsewhere, go back to `allocating`.
-/

namespace ManagedHeap

/-- What a region is used for. -/
inductive RegionState where
  | empty
  | allocating
  | marked
  | relocating
  deriving DecidableEq, Repr

namespace RegionState

/-- The name of a state in messages. -/
def name : RegionState → String
  | empty => "Empty"
  | allocating => "Allocating"
  | marked => "Marked"
  | relocating => "Relocating"

/-- The states in order. -/
def all : List RegionState := [empty, allocating, marked, relocating]

/-- The state with a name. -/
def ofName? (s : String) : Option RegionState := all.find? (·.name = s)

/-- The moves of the diagram above. -/
def canBecome : RegionState → RegionState → Bool
  | empty, allocating => true
  | allocating, marked => true
  | marked, relocating => true
  | marked, allocating => true
  | relocating, empty => true
  | relocating, allocating => true
  | _, _ => false

end RegionState

end ManagedHeap
