/-
# Memory

Memory is a map from the addresses of words to their contents.  A word that was never
written reads as zero, as fresh memory does.  Main statements: a write is seen at its own
address and at no other (`read_write`), and a cleared range reads as zero while the rest is
as before (`read_clear`).

A slot is the address of a word that holds a reference: a field of an object, or a root
cell outside of the heap.  Slots are read, written and exchanged as whole words.
-/
import Std.Data.TreeMap.Basic
import Std.Data.TreeMap.Lemmas
import Std.Data.TreeMap.Slice
import ManagedHeap.Fault

namespace ManagedHeap

/-! ## 1. Words -/

/-- The contents of memory. -/
structure Memory where
  words : Std.TreeMap Nat Nat := ∅

namespace Memory

/-- The word at an address. -/
def read (m : Memory) (a : Nat) : Nat := m.words.getD a 0

/-- `count` words from an address on. -/
def wordsFrom (m : Memory) (start count : Nat) : List Nat :=
  (List.range count).map fun i => m.read (start + i * wordBytes)

/-- Memory with a word replaced. -/
def write (m : Memory) (a : Nat) (v : Nat) : Memory := ⟨m.words.insert a v⟩

/-- Memory with zeros in the words at the given addresses. -/
def forget (m : Memory) : List Nat → Memory
  | [] => m
  | a :: rest => Memory.forget ⟨m.words.erase a⟩ rest

/-- Of the addresses from `start` on, `bytes` of them, those at which words are stored. -/
def storedIn (m : Memory) (start bytes : Nat) : List Nat :=
  m.words[start...(start + bytes)].toList.map Prod.fst

/-- Memory with zeros in the `bytes` bytes from `start` on. -/
def clear (m : Memory) (start : Nat) (bytes : Nat) : Memory := m.forget (m.storedIn start bytes)

theorem read_write (m : Memory) (a b : Nat) (v : Nat) :
    (m.write a v).read b = if a = b then v else m.read b := by
  simp [read, write, Std.TreeMap.getD_insert, Std.LawfulEqCmp.compare_eq_iff_eq]

@[simp] theorem read_write_self (m : Memory) (a : Nat) (v : Nat) :
    (m.write a v).read a = v := by
  simp [read_write]

theorem read_write_of_ne (m : Memory) {a b : Nat} (h : a ≠ b) (v : Nat) :
    (m.write a v).read b = m.read b := by
  simp [read_write, h]

theorem read_forget (m : Memory) (as : List Nat) (b : Nat) :
    (m.forget as).read b = if b ∈ as then 0 else m.read b := by
  induction as generalizing m with
  | nil => simp [forget]
  | cons a rest ih =>
    rw [forget, ih]
    by_cases hb : b = a
    · subst hb; simp [read]
    · have hab : ¬ a = b := fun h => hb h.symm
      simp [read, hb, hab, Std.TreeMap.getD_erase, Std.LawfulEqCmp.compare_eq_iff_eq]

theorem read_eq_zero_of_not_mem (m : Memory) {a : Nat} (h : a ∉ m.words) :
    m.read a = 0 := Std.TreeMap.getD_eq_fallback h

theorem mem_storedIn_iff {m : Memory} {start bytes a : Nat} :
    a ∈ m.storedIn start bytes ↔ (start ≤ a ∧ a < start + bytes) ∧ a ∈ m.words := by
  simp only [storedIn, Std.TreeMap.toList_rco, List.mem_map, List.mem_filter,
    Std.TreeMap.mem_toList_iff_getElem?_eq_some, decide_eq_true_eq, Nat.isGE_compare,
    Ordering.isLT_iff_eq_lt, Nat.compare_eq_lt, Prod.exists]
  constructor
  · rintro ⟨b, v, ⟨hv, hr⟩, rfl⟩
    exact ⟨hr, Std.TreeMap.mem_iff_isSome_getElem?.2 (by simp [hv])⟩
  · rintro ⟨hr, hm⟩
    obtain ⟨v, hv⟩ := Option.isSome_iff_exists.1 (Std.TreeMap.mem_iff_isSome_getElem?.1 hm)
    exact ⟨a, v, ⟨hv, hr⟩, rfl⟩

/-- A cleared range reads as zero, and the rest is as before. -/
theorem read_clear (m : Memory) (start : Nat) (bytes : Nat) (b : Nat) :
    (m.clear start bytes).read b =
      if start ≤ b ∧ b < start + bytes then 0 else m.read b := by
  rw [clear, read_forget]
  by_cases hr : start ≤ b ∧ b < start + bytes
  · rw [if_pos hr]
    by_cases hm : b ∈ m.words
    · rw [if_pos (mem_storedIn_iff.2 ⟨hr, hm⟩)]
    · simp [read_eq_zero_of_not_mem m hm]
  · rw [if_neg hr, if_neg fun h => hr (mem_storedIn_iff.1 h).1]

/-! ## 2. Copying bytes -/

/-- Copy `count` words, the lowest first. -/
def copyWords (m : Memory) (src dst : Nat) : Nat → Memory
  | 0 => m
  | n + 1 => (m.write dst (m.read src)).copyWords (src + wordBytes) (dst + wordBytes) n

/-- The bits of a byte. -/
def byteBits : Nat := 8

/-- The byte at an address: of the bytes of a word, the lowest comes first. -/
def readByte (m : Memory) (a : Nat) : Nat :=
  (m.read (alignDown a wordBytes) >>> (byteBits * (a % wordBytes))) % (1 <<< byteBits)

/-- Memory with a byte replaced. -/
def writeByte (m : Memory) (a v : Nat) : Memory :=
  let word := alignDown a wordBytes
  let low := byteBits * (a % wordBytes)
  m.write word (m.read word - (m.readByte a <<< low) + (v <<< low))

/-- Copy `count` bytes one by one, the lowest first. -/
def copySingly (m : Memory) (src dst : Nat) : Nat → Memory
  | 0 => m
  | n + 1 => (m.writeByte dst (m.readByte src)).copySingly (src + 1) (dst + 1) n

/-- Copy `bytes` bytes between ranges that do not overlap: between words, by words as far as
they go. -/
def copyBytes (m : Memory) (src dst : Nat) (bytes : Nat) : Memory :=
  let whole := if isAligned src wordBytes && isAligned dst wordBytes then bytes / wordBytes else 0
  let done := wordBytes * whole
  (m.copyWords src dst whole).copySingly (src + done) (dst + done) (bytes - done)

/-! ## 3. Slots -/

/-- The address as a slot: a word other than the one at zero. -/
def slotAt (a : Nat) : Except Fault Nat := do
  require (a ≠ 0)
  require (isAligned a wordBytes = true)
  return a

/-- Replace the reference in a slot if it is `old`; otherwise give the one found. -/
def exchange (slot : Nat) (old new : Nat) : Action Memory (Except Nat Unit) := do
  let m ← get
  if m.read slot = old then
    set (m.write slot new)
    return .ok ()
  else
    return .error (m.read slot)

/-- Write a word. -/
def store (a : Nat) (v : Nat) : Action Memory Unit := modify (·.write a v)

end Memory

/-! ## 4. Runs of slots -/

/-- `length` slots from `start` on. -/
structure SlotRange where
  start : Nat
  length : Nat
  deriving DecidableEq, Repr

namespace SlotRange

/-- A run that starts at a word. -/
def make (start : Nat) (length : Nat) : Except Fault SlotRange := do
  require (isAligned start wordBytes = true)
  return ⟨start, length⟩

/-- The slot with an index. -/
def slot (r : SlotRange) (i : Nat) : Except Fault Nat := do
  require (i < r.length)
  let offset ← product i wordBytes
  let a ← sum r.start offset
  Memory.slotAt a

end SlotRange

end ManagedHeap
