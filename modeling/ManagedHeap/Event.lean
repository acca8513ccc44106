/-
# Events

What a heap reports while it works, in the order in which it happens.  An event has a level
and a wording; addresses in the wording are those of the heap.
-/
import ManagedHeap.Access
import ManagedHeap.Cause
import ManagedHeap.HeapError

namespace ManagedHeap

/-- How much an event matters. -/
inductive Level where
  | error
  | warn
  | info
  | debug
  deriving DecidableEq, Repr

/-- The name of a level. -/
def Level.name : Level → String
  | .error => "ERROR"
  | .warn => "WARN"
  | .info => "INFO"
  | .debug => "DEBUG"

/-- The level with a name. -/
def Level.ofName? (s : String) : Option Level :=
  [error, warn, info, debug].find? (·.name = s)

/-- The place of a level in the order of detail. -/
def Level.detail : Level → Nat
  | .error => 0
  | .warn => 1
  | .info => 2
  | .debug => 3

/-- Something a heap reports. -/
inductive Event where
  -- Construction and the end of a heap
  | loggerPresent
  | initialized (heap : String)
  | reserved (low boundary committed : Nat)
  | stubs (barrier : BarrierSet) (kinds : List AccessKind)
  | fixedHeap (bytes : Nat)
  | growingHeap (committed most step : Nat)
  | tlabs (most : Nat) (elastic : Bool)
  | regions (count size committed reserve : Nat)
  | regionHeap (most : Nat) (heuristics : Heuristics) (workers : Nat) (healing cards : Bool)
  | closing (info : String)
  -- Allocation
  | aboveHeapSize (bytes : Nat)
  | heapFull (bytes committed most : Nat)
  | heapExpanded (bytes committed : Nat)
  | occupancy (most committed used : Nat)
  | aboveRegionSize (bytes : Nat)
  | reserveReached
  | heapGrows (committed : Nat)
  | notCommitted (e : HeapError)
  | strayTlab (start : Nat)
  | outOfMemory (bytes : Nat)
  | outOfMemoryExit (bytes : Nat) (info : String)
  -- Cycles
  | requestIgnored (cause : Cause)
  | cycleRequested (cause : Cause)
  | stepSkipped (step phase : String)
  | initMark (roots used : Nat)
  | finalMark (marked chosen candidates garbage : Nat)
  | markingAbandoned
  | evacuationDone (bytes : Nat)
  | noRoomFor (object : Nat)
  | recycled (freed kept used : Nat)
  | cancelling
  | cancelIgnored (phase : String)
  | belowThreshold (free least : Nat)
  -- The controller
  | controllerStarted (interval : Nat)
  | controllerStopped
  | controllerGone (cause : Cause)
  | controllerFailed
  deriving DecidableEq, Repr

namespace Event

/-- The level of an event. -/
def level : Event → Level
  | outOfMemoryExit .. => .error
  | notCommitted _ | strayTlab _ | outOfMemory _ | controllerFailed => .warn
  | initialized _ | fixedHeap _ | growingHeap .. | tlabs .. | regions .. | regionHeap ..
  | closing _ | occupancy .. | requestIgnored _ | initMark .. | finalMark ..
  | markingAbandoned | recycled .. | cancelling => .info
  | _ => .debug

/-- A number of milliseconds as a span of time: in seconds with the digits that are needed,
or in milliseconds below a second. -/
def spanText (ms : Nat) : String :=
  if ms < 1000 then toString ms ++ "ms"
  else
    let digits := (toString (1000 + ms % 1000)).toList.drop 1
    let kept := (digits.reverse.dropWhile (· = '0')).reverse
    toString (ms / 1000) ++ (if kept.isEmpty then "" else "." ++ String.ofList kept) ++ "s"

/-- A part of a whole, in bytes and as a percentage. -/
def shareText (part whole : Nat) : String :=
  ByteSize.roundedText part ++ " (" ++ Text.fixedTwo (ByteSize.percentOf part whole) ++ "%)"

/-- The wording of an event. -/
def message : Event → String
  | loggerPresent =>
    "Failed to initialize the logger. Possibly a logger has been initialized by user."
  | initialized heap => "Initialized the " ++ heap ++ " heap"
  | reserved low boundary committed =>
    "Reserved [" ++ hexText low ++ ", " ++ hexText boundary ++ "), committed " ++
      toString committed ++ " bytes"
  | stubs barrier kinds =>
    barrier.name ++ " barrier: stubs for [" ++ ", ".intercalate (kinds.map AccessKind.name) ++ "]"
  | fixedHeap bytes => "Non-resizeable heap; start/max: " ++ ByteSize.roundedText bytes
  | growingHeap committed most step =>
    "Resizeable heap; starting at " ++ ByteSize.roundedText committed ++ ", max: " ++
      ByteSize.roundedText most ++ ", step: " ++ ByteSize.roundedText step
  | tlabs most elastic =>
    "Using TLAB allocation; max: " ++ ByteSize.roundedText most ++ ", elastic: " ++
      toString elastic
  | regions count size committed reserve =>
    "Region space: " ++ toString count ++ " regions of " ++ ByteSize.exactText size ++ ", " ++
      toString committed ++ " committed, " ++ toString reserve ++ " reserved for evacuation"
  | regionHeap most heuristics workers healing cards =>
    "Shenandoah heap: " ++ ByteSize.roundedText most ++ " max, " ++ heuristics.name ++
      " heuristics, " ++ toString workers ++ " marking threads, self healing: " ++
      toString healing ++ ", card barrier: " ++ toString cards
  | closing info => info
  | aboveHeapSize bytes => "Cannot allocate " ++ toString bytes ++ " bytes: larger than the heap"
  | heapFull bytes committed most =>
    "Cannot allocate " ++ toString bytes ++ " bytes: " ++ ByteSize.roundedText committed ++
      " committed of " ++ ByteSize.roundedText most
  | heapExpanded bytes committed =>
    "Heap expanded by " ++ ByteSize.roundedText bytes ++ " to " ++ ByteSize.roundedText committed
  | occupancy most committed used =>
    "Heap: " ++ ByteSize.roundedText most ++ " reserved, " ++ shareText committed most ++
      " committed, " ++ shareText used most ++ " used"
  | aboveRegionSize bytes => toString bytes ++ " bytes do not fit in a region"
  | reserveReached => "No free region outside the evacuation reserve"
  | heapGrows committed => "Heap grows to " ++ ByteSize.roundedText committed
  | notCommitted e => e.message
  | strayTlab start => "Retiring a TLAB at " ++ hexText start ++ " outside of the heap"
  | outOfMemory bytes => "Out of memory allocating " ++ toString bytes ++ " bytes"
  | outOfMemoryExit bytes info =>
    "Out of memory allocating " ++ toString bytes ++ " bytes. " ++ info ++
      ". Terminating due to ExitOnOutOfMemoryError"
  | requestIgnored cause => "GC request for \"" ++ cause.name ++ "\" is ignored"
  | cycleRequested cause => "Cycle requested: " ++ cause.name
  | stepSkipped step phase => step ++ " skipped: cycle is in " ++ phase
  | initMark roots used =>
    "Init mark: " ++ toString roots ++ " roots, " ++ ByteSize.roundedText used ++ " used"
  | finalMark marked chosen candidates garbage =>
    "Final mark: " ++ toString marked ++ " marked objects, " ++ toString chosen ++ " of " ++
      toString candidates ++ " candidate regions chosen, " ++ ByteSize.roundedText garbage ++
      " garbage"
  | markingAbandoned => "Cycle cancelled during marking"
  | evacuationDone bytes => "Evacuation done: " ++ ByteSize.roundedText bytes ++ " copied so far"
  | noRoomFor object => "No room to evacuate " ++ hexText object ++ ", it stays in place"
  | recycled freed kept used =>
    "Recycled " ++ toString freed ++ " regions, " ++ toString kept ++
      " kept after evacuation failure, " ++ ByteSize.roundedText used ++ " used"
  | cancelling => "Cancelling the cycle"
  | cancelIgnored phase => "Cancel ignored: cycle is in " ++ phase
  | belowThreshold free least =>
    "Free " ++ toString free ++ " is below the minimum threshold " ++ toString least
  | controllerStarted interval => "Controller started, polling every " ++ spanText interval
  | controllerStopped => "Controller stopped"
  | controllerGone cause => "Controller is gone, " ++ cause.name ++ " request dropped"
  | controllerFailed => "Controller thread panicked"

/-- Whether a log of a level shows an event. -/
def isShownAt (e : Event) (level : Level) : Bool := e.level.detail ≤ level.detail

/-- An event as a line of a log. -/
def line (e : Event) : String := e.level.name ++ " " ++ e.message

end Event

end ManagedHeap
