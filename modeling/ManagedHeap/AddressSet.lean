/-
# Sets of word addresses in a range

A set holds addresses of words in the range of `bytes` bytes from `base` on.  It has one bit for
each word of the range, and keeps the bits in blocks of `wordBits`.  An address in the last block is
accepted even where the range ends inside of the block.  An address outside of the blocks, or not at
a word, is a failed check.

Members are visited in ascending order, block after block.  The bits of a block are looked at when
the visit comes to it, so what is visited may be taken out of the set meanwhile.
-/
import Std.Data.TreeMap.Basic
import Std.Data.TreeMap.Lemmas
import ManagedHeap.Fault

namespace ManagedHeap

/-- The bits of `wordBits` words that follow each other, the lowest for the first. -/
abbrev Block := BitVec wordBits

namespace Block

/-- The block with the bit at a position only. -/
def bit (k : Nat) : Block := (1 : Block) <<< k

/-- The bits from a position on. -/
def upFrom (k : Nat) : Block := BitVec.allOnes wordBits <<< k

/-- The position of the lowest bit, which a block has in common with its negation. -/
def lowest (b : Block) : Nat := (b &&& -b).toNat.log2

/-- The block without its lowest bit. -/
def dropLowest (b : Block) : Block := b &&& (b - 1)

/-- The number of bits. -/
def count (b : Block) : Nat := b.cpop.toNat

end Block

/-- A set of word addresses in a range. -/
structure AddressSet where
  base : Nat
  /-- The number of blocks. -/
  blocks : Nat
  /-- The blocks.  One that was never written has no bits. -/
  bits : Std.TreeMap Nat Block := ∅

namespace AddressSet

/-- The empty set for a range. -/
def make (base bytes : Nat) : AddressSet :=
  { base, blocks := (bytes / wordBytes + wordBits - 1) / wordBits }

/-! ## 1. Words and their addresses -/

/-- The number of the word at an address. -/
def wordOf (s : AddressSet) (a : Nat) : Nat := (a - s.base) / wordBytes

/-- The address of a word. -/
def addressOf (s : AddressSet) (word : Nat) : Nat := s.base + wordBytes * word

theorem wordOf_addressOf (s : AddressSet) (word : Nat) : s.wordOf (s.addressOf word) = word := by
  simp only [wordOf, addressOf, wordBytes]
  omega

theorem addressOf_wordOf (s : AddressSet) {a : Nat} (ha : s.base ≤ a)
    (hw : wordBytes ∣ a - s.base) : s.addressOf (s.wordOf a) = a := by
  simp only [wordOf, addressOf, wordBytes] at *
  omega

/-- Check that an address is that of a word, at or above the base. -/
def checkWord (s : AddressSet) (a : Nat) : Except Fault Unit := do
  require (s.base ≤ a)
  require (isAligned a wordBytes = true)

/-- Check that an address is that of a word in a block. -/
def checkIndex (s : AddressSet) (a : Nat) : Except Fault Unit := do
  s.checkWord a
  require (s.wordOf a / wordBits < s.blocks)

/-! ## 2. Members -/

/-- The block with a number. -/
def block (s : AddressSet) (i : Nat) : Block := s.bits.getD i 0

/-- The set with a block replaced. -/
def setBlock (s : AddressSet) (i : Nat) (b : Block) : AddressSet :=
  { s with bits := s.bits.insert i b }

/-- The block that an address is in. -/
def blockOf (s : AddressSet) (a : Nat) : Nat := s.wordOf a / wordBits

/-- The bit of an address in its block. -/
def bitOf (s : AddressSet) (a : Nat) : Block := Block.bit (s.wordOf a % wordBits)

/-- Whether an address is in the set. -/
def contains (s : AddressSet) (a : Nat) : Except Fault Bool := do
  s.checkIndex a
  return s.block (s.blockOf a) &&& s.bitOf a != 0

/-- Put an address into the set.  Gives whether it was not there. -/
def insert (a : Nat) : Action AddressSet Bool := do
  let s ← get
  s.checkIndex a
  let old := s.block (s.blockOf a)
  set (s.setBlock (s.blockOf a) (old ||| s.bitOf a))
  return old &&& s.bitOf a == 0

/-- Take an address out of the set. -/
def erase (a : Nat) : Action AddressSet Unit := do
  let s ← get
  s.checkIndex a
  set (s.setBlock (s.blockOf a) (s.block (s.blockOf a) &&& ~~~ s.bitOf a))

/-- Take all addresses out of the set. -/
def clear : Action AddressSet Unit := modify fun s => { s with bits := ∅ }

/-- The number of addresses in the set. -/
def count (s : AddressSet) : Nat :=
  (List.range s.blocks).foldl (fun n i => n + (s.block i).count) 0

/-! ## 3. Visits -/

section Visits

variable {σ : Type} (s : AddressSet) (load : σ → AddressSet) (last : Nat) (visit : Nat → Action σ Unit)

/-- Visit the addresses of the bits of block `i`, the lowest first, up to the address `last`.  Gives
whether it was not reached.  Each round takes a bit away, so `wordBits` rounds are enough. -/
def visitBits (i : Nat) : Nat → Block → Action σ Bool
  | 0, _ => return true
  | rounds + 1, b =>
    if b = 0 then
      return true
    else
      let a := s.addressOf (i * wordBits + b.lowest)
      if last ≤ a then
        return false
      else do
        visit a
        visitBits i rounds b.dropLowest

/-- Visit the members in `count` blocks from block `i` on, up to the address `last`.  Of the first
block only the bits in `mask` count. -/
def visitBlocks : Nat → Nat → Block → Action σ Unit
  | _, 0, _ => return
  | i, count + 1, mask => do
    let t ← get
    if ← visitBits s last visit i wordBits ((load t).block i &&& mask) then
      visitBlocks (i + 1) count (Block.upFrom 0)

end Visits

/-- Visit the members of a set from the word at `first` up to, not including, the address `last`, in
ascending order. -/
def iterate {σ : Type} (load : σ → AddressSet) (first last : Nat) (visit : Nat → Action σ Unit) :
    Action σ Unit := do
  let s := load (← get)
  if last ≤ first then
    return
  else
    s.checkWord first
    let i := s.blockOf first
    visitBlocks s load last visit i (s.blocks - i) (Block.upFrom (s.wordOf first % wordBits))

/-- The members that are visited, if they stay in the set. -/
def between (s : AddressSet) (first last : Nat) : Except Fault (List Nat) :=
  match iterate (fun _ => s) first last (fun a => modify (·.push a)) #[] with
  | .ok _ seen => .ok seen.toList
  | .error f _ => .error f

end AddressSet

end ManagedHeap
