/-
# Errors of a heap

What can go wrong when a heap is built, grows, is checked or is installed.  An allocation
that finds no room is none of these: it gives no address, and its caller decides what to do.
-/
import ManagedHeap.Options

namespace ManagedHeap

/-- Options that do not describe a heap. -/
inductive OptionsConflict where
  | tlabBounds (least most : Nat)
  | heapBounds (initial most : Nat)
  | tlabAlignment
  | tooFewRegions (heap region : Nat)
  | tlabAboveRegion (least region : Nat)
  | otherCollector (c : Collector)
  deriving DecidableEq, Repr

/-- The wording of a conflict. -/
def OptionsConflict.message : OptionsConflict → String
  | .tlabBounds a b =>
    "MinTLABSize (" ++ ByteSize.exactText a ++ ") is larger than MaxTLABSize (" ++
      ByteSize.exactText b ++ ")"
  | .heapBounds a b =>
    "InitialHeapSize (" ++ ByteSize.exactText a ++ ") is larger than MaxHeapSize (" ++
      ByteSize.exactText b ++ ")"
  | .tlabAlignment => "TLAB sizes must be word aligned"
  | .tooFewRegions a b =>
    "MaxHeapSize (" ++ ByteSize.exactText a ++ ") must hold at least two regions of " ++
      ByteSize.exactText b
  | .tlabAboveRegion a b =>
    "MinTLABSize (" ++ ByteSize.exactText a ++ ") is larger than RegionSize (" ++
      ByteSize.exactText b ++ ")"
  | .otherCollector c => "Collector is " ++ c.name ++ ", not " ++ Collector.shenandoah.name

/-- A broken invariant that a check of the heap found.  A region is given as messages show
it. -/
inductive Defect where
  | topOutOfBounds (region : String)
  | emptyHoldsObjects (region : String)
  | sizes (used capacity most : Nat)
  | spaceEnd (spaceEnd committed : Nat)
  | gcState (bits : Nat)
  | regionInCycle (region : String)
  | badSlot (slot : Nat) (value : Nat)
  deriving DecidableEq, Repr

/-- The wording of a defect. -/
def Defect.message : Defect → String
  | .topOutOfBounds r => "top out of bounds: " ++ r
  | .emptyHoldsObjects r => "empty region holds objects: " ++ r
  | .sizes used capacity most =>
    "used " ++ toString used ++ " capacity " ++ toString capacity ++ " max " ++ toString most
  | .spaceEnd e c =>
    "space ends at " ++ hexText e ++ " but memory is committed up to " ++ hexText c
  | .gcState bits => "GC state " ++ hexText bits ++ " outside of a cycle"
  | .regionInCycle r => r ++ " outside of a cycle"
  | .badSlot slot value =>
    "slot " ++ hexText slot ++ " holds " ++ hexText value ++
      ", which is not a live unforwarded object"

/-- An error of a heap. -/
inductive HeapError where
  /-- There is no such range of addresses. -/
  | reservation (bytes : Nat)
  /-- The range has no more memory to commit. -/
  | expansion (start : Nat) (bytes : Nat)
  | options (c : OptionsConflict)
  | verification (d : Defect)
  /-- The process has a heap already. -/
  | alreadyInstalled
  deriving DecidableEq, Repr

/-- The name of the kind of an error. -/
def HeapError.kind : HeapError → String
  | .reservation _ => "ReservationFailure"
  | .expansion .. => "ExpansionFailure"
  | .options _ => "InvalidOptions"
  | .verification _ => "Verification"
  | .alreadyInstalled => "AlreadyInstalled"

/-- How the system words that it has no memory left. -/
def noMemoryText : String := "Cannot allocate memory (os error 12)"

/-- The wording of an error. -/
def HeapError.message : HeapError → String
  | .reservation bytes =>
    "unable to reserve " ++ toString bytes ++ " bytes of address space for the heap: " ++
      noMemoryText
  | .expansion start bytes =>
    "unable to commit " ++ toString bytes ++ " bytes at " ++ hexText start ++ ": " ++
      noMemoryText
  | .options c => "invalid heap options: " ++ c.message
  | .verification d => "heap verification failed: " ++ d.message
  | .alreadyInstalled => "a heap has already been installed for this process"

end ManagedHeap
