/-
# Setting options by name

An option has two spellings of its name: the words in lower case joined by underscores
(`max_tlab_size`), and the words with capitals (`MaxTLABSize`), which `snakeName` turns into
the first.  A value is read by the option's type and then has to pass the option's own
condition; a value that does not leaves the options as they were.

A list of settings is applied from the left and stops at the first that is refused; those
before it stay.
-/
import ManagedHeap.Options
import ManagedHeap.Text.LetterCase

namespace ManagedHeap

/-! ## 1. Names -/

/-- The options. -/
inductive OptionName where
  | collector | initialHeapSize | maxHeapSize | minHeapExpand | minTlabSize | maxTlabSize
  | exitOnOutOfMemory | elasticTlab | elasticTlabDecay | tlabDecayTime | printHeapSteps
  | updateCountersStep | heuristics | regionSize | garbageThreshold | minFreeThreshold
  | evacReserve | concGcThreads | satbBufferSize | selfHealing | cardBarrier | controlInterval
  deriving DecidableEq, Repr

namespace OptionName

/-- All options, in the order of the structure. -/
def all : List OptionName :=
  [collector, initialHeapSize, maxHeapSize, minHeapExpand, minTlabSize, maxTlabSize,
   exitOnOutOfMemory, elasticTlab, elasticTlabDecay, tlabDecayTime, printHeapSteps,
   updateCountersStep, heuristics, regionSize, garbageThreshold, minFreeThreshold,
   evacReserve, concGcThreads, satbBufferSize, selfHealing, cardBarrier, controlInterval]

/-- The name with underscores. -/
def snake : OptionName → String
  | collector => "collector"
  | initialHeapSize => "initial_heap_size"
  | maxHeapSize => "max_heap_size"
  | minHeapExpand => "min_heap_expand"
  | minTlabSize => "min_tlab_size"
  | maxTlabSize => "max_tlab_size"
  | exitOnOutOfMemory => "exit_on_out_of_memory_error"
  | elasticTlab => "elastic_tlab"
  | elasticTlabDecay => "elastic_tlab_decay"
  | tlabDecayTime => "tlab_decay_time"
  | printHeapSteps => "print_heap_steps"
  | updateCountersStep => "update_counters_step"
  | heuristics => "heuristics"
  | regionSize => "region_size"
  | garbageThreshold => "garbage_threshold"
  | minFreeThreshold => "min_free_threshold"
  | evacReserve => "evac_reserve"
  | concGcThreads => "conc_gc_threads"
  | satbBufferSize => "satb_buffer_size"
  | selfHealing => "self_healing"
  | cardBarrier => "card_barrier"
  | controlInterval => "control_interval"

/-- The option with a name. -/
def ofSnake? (s : String) : Option OptionName := all.find? (·.snake = s)

end OptionName

/-- The underscore before the character `c`, if a word starts there: after a lower-case
letter or a digit, and at the last capital of an acronym that a word follows. -/
def startsWord (before : Option Char) (after : Option Char) : Bool :=
  match before with
  | none => false
  | some p =>
    Text.isLower p || (Text.digitValue? p).isSome ||
      (Text.isUpper p && after.any Text.isLower)

/-- The name with underscores, of what follows the character `before`. -/
def snakeChars (before : Option Char) : List Char → List Char
  | [] => []
  | c :: rest =>
    (if Text.isUpper c then
      (if startsWord before rest.head? then ['_'] else []) ++ Text.lower c
    else [c]) ++ snakeChars (some c) rest

/-- `MaxTLABSize` gives `max_tlab_size`, `ConcGCThreads` gives `conc_gc_threads`. -/
def snakeName (s : String) : String := String.ofList (snakeChars none s.toList)

/-! ## 2. Values -/

/-- A value of an option. -/
inductive OptionValue where
  | number (n : Nat)
  | flag (b : Bool)
  | word (s : String)
  deriving DecidableEq, Repr

/-- The value of an option. -/
def Options.value (o : Options) : OptionName → OptionValue
  | .collector => .word o.collector.name
  | .initialHeapSize => .number o.initialHeapSize
  | .maxHeapSize => .number o.maxHeapSize
  | .minHeapExpand => .number o.minHeapExpand
  | .minTlabSize => .number o.minTlabSize
  | .maxTlabSize => .number o.maxTlabSize
  | .exitOnOutOfMemory => .flag o.exitOnOutOfMemory
  | .elasticTlab => .flag o.elasticTlab
  | .elasticTlabDecay => .flag o.elasticTlabDecay
  | .tlabDecayTime => .number o.tlabDecayTime
  | .printHeapSteps => .number o.printHeapSteps
  | .updateCountersStep => .number o.updateCountersStep
  | .heuristics => .word o.heuristics.name
  | .regionSize => .number o.regionSize
  | .garbageThreshold => .number o.garbageThreshold
  | .minFreeThreshold => .number o.minFreeThreshold
  | .evacReserve => .number o.evacReserve
  | .concGcThreads => .number o.concGcThreads
  | .satbBufferSize => .number o.satbBufferSize
  | .selfHealing => .flag o.selfHealing
  | .cardBarrier => .flag o.cardBarrier
  | .controlInterval => .number o.controlInterval

/-! ## 3. Setting one option -/

/-- Why a setting is refused. -/
inductive SettingError where
  /-- No option has the name. -/
  | unknown (name : String)
  /-- The text is no value of the option's type. -/
  | unreadable (name text : String)
  /-- The value, shown as its type shows it, does not satisfy the option's condition. -/
  | rejected (name shown : String)
  deriving DecidableEq, Repr

/-- The wording of the warning about a refused setting. -/
def SettingError.message : SettingError → String
  | .unknown name => "Unknown option " ++ Text.quoted name
  | .unreadable name text =>
    "Unable to set " ++ name ++ "=" ++ Text.quoted text ++
      ". Can't parse value. Default value will be used."
  | .rejected name shown =>
    "Unable to set " ++ name ++ "=" ++ shown ++ ". Invalid value. Default value will be used."

/-- How an option reads a text: as a value of its type, shown in one way and subject to a
condition. -/
structure ValueReader (α : Type) where
  read : String → Option α
  shown : α → String
  accepts : α → Bool

/-- Read a value for the option `name`, or say why not. -/
def ValueReader.run {α : Type} (r : ValueReader α) (name : OptionName) (text : String) :
    Except SettingError α :=
  match r.read text with
  | none => .error (.unreadable name.snake text)
  | some v => if r.accepts v then .ok v else .error (.rejected name.snake (r.shown v))

namespace ValueReader

/-- Sizes in bytes that satisfy `accepts`. -/
def size (accepts : Nat → Bool) : ValueReader Nat :=
  ⟨fun s => (ByteSize.readSize s.toList).toOption, fun n => "MemorySize(" ++ toString n ++ ")",
   accepts⟩

/-- Plain numbers that satisfy `accepts`. -/
def count (accepts : Nat → Bool) : ValueReader Nat :=
  ⟨fun s => (Text.readNumber s.toList).toOption, toString, accepts⟩

/-- The words `true` and `false`. -/
def flag : ValueReader Bool :=
  ⟨fun s => if s = "true" then some true else if s = "false" then some false else none,
   toString, fun _ => true⟩

/-- Names of collectors. -/
def collector : ValueReader Collector := ⟨Collector.ofName?, Collector.name, fun _ => true⟩

/-- Names of heuristics. -/
def heuristics : ValueReader Heuristics := ⟨Heuristics.ofName?, Heuristics.name, fun _ => true⟩

end ValueReader

/-- Sizes and counts that must not be zero. -/
def positive (n : Nat) : Bool := 0 < n

/-- Percentages. -/
def upToHundred (n : Nat) : Bool := n ≤ 100

/-- Whether a word is a power of two: one bit of it is set. -/
def isPowerOfTwo (n : Nat) : Bool := (List.range 64).any fun k => n == 1 <<< k

/-- Sizes of regions: powers of two, and at least a page. -/
def isRegionSize (n : Nat) : Bool := isPowerOfTwo n && pageBytes ≤ n

/-- Set the option `name` to the value that `text` stands for. -/
def Options.set (o : Options) (name : OptionName) (text : String) :
    Except SettingError Options :=
  match name with
  | .collector => (ValueReader.collector.run name text).map ({ o with collector := · })
  | .initialHeapSize =>
    ((ValueReader.size positive).run name text).map ({ o with initialHeapSize := · })
  | .maxHeapSize => ((ValueReader.size positive).run name text).map ({ o with maxHeapSize := · })
  | .minHeapExpand =>
    ((ValueReader.size positive).run name text).map ({ o with minHeapExpand := · })
  | .minTlabSize => ((ValueReader.size positive).run name text).map ({ o with minTlabSize := · })
  | .maxTlabSize => ((ValueReader.size positive).run name text).map ({ o with maxTlabSize := · })
  | .exitOnOutOfMemory => (ValueReader.flag.run name text).map ({ o with exitOnOutOfMemory := · })
  | .elasticTlab => (ValueReader.flag.run name text).map ({ o with elasticTlab := · })
  | .elasticTlabDecay => (ValueReader.flag.run name text).map ({ o with elasticTlabDecay := · })
  | .tlabDecayTime =>
    ((ValueReader.count positive).run name text).map ({ o with tlabDecayTime := · })
  | .printHeapSteps =>
    ((ValueReader.count fun _ => true).run name text).map ({ o with printHeapSteps := · })
  | .updateCountersStep =>
    ((ValueReader.size positive).run name text).map ({ o with updateCountersStep := · })
  | .heuristics => (ValueReader.heuristics.run name text).map ({ o with heuristics := · })
  | .regionSize => ((ValueReader.size isRegionSize).run name text).map ({ o with regionSize := · })
  | .garbageThreshold =>
    ((ValueReader.count upToHundred).run name text).map ({ o with garbageThreshold := · })
  | .minFreeThreshold =>
    ((ValueReader.count upToHundred).run name text).map ({ o with minFreeThreshold := · })
  | .evacReserve => ((ValueReader.count upToHundred).run name text).map ({ o with evacReserve := · })
  | .concGcThreads =>
    ((ValueReader.count positive).run name text).map ({ o with concGcThreads := · })
  | .satbBufferSize =>
    ((ValueReader.count positive).run name text).map ({ o with satbBufferSize := · })
  | .selfHealing => (ValueReader.flag.run name text).map ({ o with selfHealing := · })
  | .cardBarrier => (ValueReader.flag.run name text).map ({ o with cardBarrier := · })
  | .controlInterval =>
    ((ValueReader.count positive).run name text).map ({ o with controlInterval := · })

/-- Set an option by its name with underscores. -/
def Options.setSnake (o : Options) (name text : String) : Except SettingError Options :=
  match OptionName.ofSnake? name with
  | some n => o.set n text
  | none => .error (.unknown name)

/-- Set an option by its name with capitals. -/
def Options.setCamel (o : Options) (name text : String) : Except SettingError Options :=
  o.setSnake (snakeName name) text

/-! ## 4. Setting several options -/

/-- What became of a list of settings: the options with the settings that were applied, the
reasons for those refused, and whether all were applied. -/
structure SettingRun where
  options : Options
  refused : List SettingError := []
  complete : Bool := true
  deriving DecidableEq, Repr

/-- Apply one setting, keeping the options when it is refused. -/
def SettingRun.apply (r : SettingRun) (result : Except SettingError Options) : SettingRun :=
  match result with
  | .ok o => { r with options := o }
  | .error e => { r with refused := r.refused ++ [e], complete := false }

/-- One setting as a list of one. -/
def SettingRun.single (o : Options) (result : Except SettingError Options) : SettingRun :=
  ({ options := o } : SettingRun).apply result

/-- The name and the value of a setting with one equals sign. -/
def splitSetting? (word : List Char) : Option (String × String) :=
  match Text.splitAt (· = '=') word with
  | [name, text] => some (String.ofList name, String.ofList text)
  | _ => none

/-- Apply settings from the left, up to the first that is refused. -/
def Options.setWords (o : Options) : List (List Char) → SettingRun
  | [] => { options := o }
  | word :: rest =>
    match splitSetting? word with
    | none => { options := o, complete := false }
    | some (name, text) =>
      match o.setCamel name text with
      | .ok o' => o'.setWords rest
      | .error e => { options := o, refused := [e], complete := false }

/-- Apply settings such as `MaxHeapSize=64M InitialHeapSize=16M`. -/
def Options.setBulk (o : Options) (s : String) : SettingRun :=
  o.setWords (Text.asciiWords s.toList)

/-- Set options by their names with capitals.  Gives the first name that is refused. -/
def Options.setAll (o : Options) : List (String × String) → Except String Options
  | [] => .ok o
  | (name, text) :: rest =>
    match o.setCamel name text with
    | .ok o' => o'.setAll rest
    | .error _ => .error name

/-- The options of which the values differ. -/
def Options.changes (before after : Options) : List OptionName :=
  OptionName.all.filter fun n => decide (before.value n ≠ after.value n)

/-! ## 5. Environment variables -/

/-- What the names of environment variables for options start with. -/
def variableStart : String := "VMHEAP_"

/-- The option that an environment variable sets: the rest of its name, in lower case.
Capitals outside of ASCII are in no option's name, in neither case. -/
def OptionName.ofVariable? (name : String) : Option OptionName :=
  let cs := name.toList
  if cs.take variableStart.length = variableStart.toList then
    ofSnake? (String.ofList ((cs.drop variableStart.length).map Char.toLower))
  else none

/-- Apply the environment variables that name an option; each refused one leaves the option
as it was. -/
def Options.setVariables (o : Options) (vars : List (String × String)) : SettingRun :=
  vars.foldl
    (fun r v =>
      match OptionName.ofVariable? v.1 with
      | some n => r.apply (r.options.set n v.2)
      | none => r)
    { options := o }

end ManagedHeap
