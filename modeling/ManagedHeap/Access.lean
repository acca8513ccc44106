/-
# Accesses to references, and what a collector asks of them

A collector states once which barriers reference accesses need.  Compiled code asks for a
barrier per kind of access; the answers are collected in a `StubTable`, which does not
change afterwards.
-/

namespace ManagedHeap

/-! ## 1. Barriers and constraints -/

/-- The barriers a heap installs. -/
inductive BarrierSet where
  | none
  | shenandoah
  deriving DecidableEq, Repr

/-- The name of a set of barriers. -/
def BarrierSet.name : BarrierSet → String
  | .none => "NoBarrier"
  | .shenandoah => "Shenandoah"

/-- The set of barriers with a name. -/
def BarrierSet.ofName? (s : String) : Option BarrierSet :=
  [BarrierSet.none, .shenandoah].find? (·.name = s)

/-- What a collector asks of the program. -/
structure Constraints where
  /-- Objects move, so references are resolved before use. -/
  movesObjects : Bool := false
  barrier : BarrierSet := .none
  /-- Overwritten references are recorded while marking. -/
  needsSatb : Bool := false
  /-- Loaded references are resolved while copies exist. -/
  needsLoadReferenceBarrier : Bool := false
  /-- Regions that were written are marked. -/
  needsCardBarrier : Bool := false
  /-- Writes to an object just allocated in the current buffer need no barrier. -/
  canElideTlabStoreBarriers : Bool := true
  /-- New objects are announced to the collector. -/
  needsPostAlloc : Bool := false
  deriving DecidableEq, Repr

/-- The constraints of a collector that neither moves nor traces objects. -/
def Constraints.epsilon : Constraints := {}

/-- The constraints of the relocating collector. -/
def Constraints.shenandoah : Constraints where
  movesObjects := true
  barrier := .shenandoah
  needsSatb := true
  needsLoadReferenceBarrier := true
  needsCardBarrier := true
  canElideTlabStoreBarriers := true
  needsPostAlloc := true

/-! ## 2. Kinds of access -/

/-- The kinds of reference accesses that compiled code makes. -/
inductive AccessKind where
  | load
  | storePre
  | storePost
  | compareAndSwap
  | arrayCopyPre
  | arrayCopyPost
  | clonePre
  deriving DecidableEq, Repr

namespace AccessKind

/-- The name of a kind. -/
def name : AccessKind → String
  | load => "Load"
  | storePre => "StorePre"
  | storePost => "StorePost"
  | compareAndSwap => "CompareAndSwap"
  | arrayCopyPre => "ArrayCopyPre"
  | arrayCopyPost => "ArrayCopyPost"
  | clonePre => "ClonePre"

/-- All kinds, in order. -/
def all : List AccessKind :=
  [load, storePre, storePost, compareAndSwap, arrayCopyPre, arrayCopyPost, clonePre]

/-- The kind with a name. -/
def ofName? (s : String) : Option AccessKind := all.find? (·.name = s)

/-- The two halves of a store barrier. -/
def isStore : AccessKind → Bool
  | storePre | storePost => true
  | _ => false

end AccessKind

/-- An access in compiled code. -/
structure AccessSite where
  kind : AccessKind
  /-- The object was allocated by the same code in the current buffer, with no safepoint
  since. -/
  inNewTlabObject : Bool := false
  deriving DecidableEq, Repr

/-! ## 3. Tables of barriers -/

/-- The kinds of access that have a barrier for compiled code. -/
structure StubTable where
  has : AccessKind → Bool
  canElide : Bool

namespace StubTable

/-- The table of the kinds that `generates` holds, under some constraints. -/
def build (c : Constraints) (generates : AccessKind → Bool) : StubTable :=
  ⟨generates, c.canElideTlabStoreBarriers⟩

/-- Which kinds of access a set of barriers guards. -/
def guarded : BarrierSet → AccessKind → Bool
  | .none, _ => false
  | .shenandoah, _ => true

/-- The table for some constraints. -/
def forConstraints (c : Constraints) : StubTable := build c (guarded c.barrier)

/-- The kinds that have a barrier, in order. -/
def kinds (t : StubTable) : List AccessKind := AccessKind.all.filter t.has

/-- Whether no kind has a barrier. -/
def isEmpty (t : StubTable) : Bool := t.kinds.isEmpty

/-- Whether an access needs a barrier.  A store to a new object does not, if the table may
leave it out; what is stored then stays unresolved until references are updated. -/
def guards (t : StubTable) (site : AccessSite) : Bool :=
  if site.kind.isStore && site.inNewTlabObject && t.canElide then false else t.has site.kind

end StubTable

end ManagedHeap
