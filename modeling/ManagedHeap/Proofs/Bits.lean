/-
# Blocks of bits, and what a visit of a set visits

A set of addresses keeps its members as bits of blocks, and a visit takes the bits of a block one by
one, the lowest first, by `b &&& (b - 1)`.

* A block is seen through the list of the positions of its bits (`Block.positions`).  The visit walks
  along that list, and the count of a block is its length (section 1).
* A set is seen through its bits, one for each word, and each operation has an equation for them
  (section 2).
* A visit runs the action on each member of a list that is fixed before the visit begins
  (`iterate_eq_each`).  The action may change the set meanwhile, but only in the block of the
  address that it is given (`Stays`): blocks are looked at when the visit comes to them, and it never
  goes back (section 3).
-/
import ManagedHeap.Proofs.Partial
import ManagedHeap.AddressSet
import Mathlib.Data.List.Sort
import Mathlib.Data.Nat.Bitwise

namespace ManagedHeap

/-! ## 1. The bits of a block -/

namespace Block

variable {b : Block} {i k : Nat}

theorem getLsbD_bit (hi : i < wordBits) : (bit i).getLsbD k = decide (k = i) := by
  have hpow : bit i = BitVec.twoPow wordBits i := (BitVec.twoPow_eq _ _).symm
  rw [hpow, BitVec.getLsbD_twoPow]
  simp [hi, eq_comm]

theorem getLsbD_upFrom : (upFrom i).getLsbD k = (decide (k < wordBits) && decide (i ≤ k)) := by
  simp only [upFrom, BitVec.getLsbD_shiftLeft, BitVec.getLsbD_allOnes]
  by_cases hk : k < wordBits <;> by_cases hi : i ≤ k <;> simp [hk, hi]; omega

/-- Whether a bit is set, as it is tested by a mask. -/
theorem and_bit_eq_zero (hi : i < wordBits) : b &&& bit i = 0 ↔ b.getLsbD i = false := by
  constructor
  · intro h
    have hbit := congrArg (BitVec.getLsbD · i) h
    simpa [getLsbD_bit hi] using hbit
  · refine fun h => BitVec.eq_of_getLsbD_eq fun k _ => ?_
    by_cases hk : k = i
    · simp [hk, h]
    · simp [getLsbD_bit hi, hk]

/-- **A block and its negation have the lowest bit in common**, and no other one. -/
theorem and_neg_eq (hb : b ≠ 0) : b &&& -b = BitVec.twoPow wordBits b.ctz.toNat := by
  have hlt : b.ctz.toNat < wordBits := BitVec.lt_def.1 (BitVec.ctz_lt_iff_ne_zero.2 hb)
  refine BitVec.eq_of_getLsbD_eq fun k hk => ?_
  rw [BitVec.getLsbD_and, BitVec.getLsbD_neg, BitVec.getLsbD_twoPow, decide_eq_true hlt,
    decide_eq_true hk, Bool.true_and, Bool.true_and]
  rcases Nat.lt_trichotomy k b.ctz.toNat with h | h | h
  · simp [BitVec.getLsbD_false_of_lt_ctz h, h.ne']
  · have hnone : ¬ ∃ j, j < b.ctz.toNat ∧ b.getLsbD j = true := by
      rintro ⟨j, hj, hset⟩
      rw [BitVec.getLsbD_false_of_lt_ctz hj] at hset
      exact Bool.noConfusion hset
    rw [h, BitVec.getLsbD_true_ctz_of_ne_zero hb, decide_eq_false hnone]
    simp
  · have hsome : ∃ j, j < k ∧ b.getLsbD j = true := ⟨_, h, BitVec.getLsbD_true_ctz_of_ne_zero hb⟩
    rw [decide_eq_true hsome, decide_eq_false h.ne]
    simp

theorem lowest_eq (hb : b ≠ 0) : b.lowest = b.ctz.toNat := by
  have hlt : b.ctz.toNat < wordBits := BitVec.lt_def.1 (BitVec.ctz_lt_iff_ne_zero.2 hb)
  rw [lowest, and_neg_eq hb, BitVec.toNat_twoPow_of_lt hlt, Nat.log2_two_pow]

theorem getLsbD_lowest (hb : b ≠ 0) : b.getLsbD b.lowest = true := by
  rw [lowest_eq hb]
  exact BitVec.getLsbD_true_ctz_of_ne_zero hb

theorem getLsbD_of_lt_lowest (h : k < b.lowest) : b.getLsbD k = false := by
  by_cases hb : b = 0
  · simp [hb]
  · rw [lowest_eq hb] at h
    exact BitVec.getLsbD_false_of_lt_ctz h

/-- Below its lowest one a number is a multiple of a power of two, and odd from there on. -/
theorem toNat_eq (hb : b ≠ 0) : ∃ q, b.toNat = 2 ^ b.lowest * (2 * q + 1) := by
  have hlow : b.toNat % 2 ^ b.lowest = 0 := by
    refine Nat.eq_of_testBit_eq fun k => ?_
    rw [Nat.testBit_mod_two_pow, Nat.zero_testBit]
    by_cases hk : k < b.lowest
    · rw [show b.toNat.testBit k = false from getLsbD_of_lt_lowest hk, Bool.and_false]
    · simp [hk]
  have hodd : b.toNat / 2 ^ b.lowest % 2 = 1 := by
    have h : b.toNat.testBit b.lowest = true := getLsbD_lowest hb
    rwa [Nat.testBit_eq_decide_div_mod_eq, decide_eq_true_eq] at h
  refine ⟨b.toNat / 2 ^ b.lowest / 2, ?_⟩
  have hdiv := Nat.div_add_mod b.toNat (2 ^ b.lowest)
  rw [hlow, Nat.add_zero] at hdiv
  rw [show 2 * (b.toNat / 2 ^ b.lowest / 2) + 1 = b.toNat / 2 ^ b.lowest by omega, hdiv]

/-- **Taking one away clears the lowest bit and sets those below**, so the block loses that bit and
no other. -/
theorem getLsbD_dropLowest (hb : b ≠ 0) :
    b.dropLowest.getLsbD k = (b.getLsbD k && decide (k ≠ b.lowest)) := by
  obtain ⟨q, hq⟩ := toNat_eq hb
  have hpos : 0 < 2 ^ b.lowest := Nat.two_pow_pos _
  have hone : (1 : Block) ≤ b := by
    rw [BitVec.le_def]
    show 1 ≤ b.toNat
    rw [hq]
    exact Nat.mul_pos hpos (by omega)
  have hpred : (b - 1).toNat = 2 ^ b.lowest * (2 * q) + (2 ^ b.lowest - 1) := by
    rw [BitVec.toNat_sub_of_le hone, hq]
    show 2 ^ b.lowest * (2 * q + 1) - 1 = _
    rw [Nat.mul_add, Nat.mul_one]
    omega
  have hself : b.getLsbD k =
      if k < b.lowest then Nat.testBit 0 k else (2 * q + 1).testBit (k - b.lowest) := by
    show b.toNat.testBit k = _
    rw [← Nat.testBit_two_pow_mul_add _ hpos, Nat.add_zero, ← hq]
  have hdown : (b - 1).getLsbD k =
      if k < b.lowest then (2 ^ b.lowest - 1).testBit k else (2 * q).testBit (k - b.lowest) := by
    show (b - 1).toNat.testBit k = _
    rw [hpred, Nat.testBit_two_pow_mul_add _ (by omega)]
  rw [dropLowest, BitVec.getLsbD_and, hself, hdown]
  rcases Nat.lt_trichotomy k b.lowest with hk | rfl | hk
  · simp [hk]
  · simp
  · obtain ⟨j, hj⟩ : ∃ j, k - b.lowest = j + 1 := ⟨k - b.lowest - 1, by omega⟩
    have hq2 : (2 * q + 1) / 2 = q := by omega
    have hne : k ≠ b.lowest := by omega
    simp [hj, Nat.testBit_succ, hq2, hne, Nat.not_lt.2 hk.le]

/-- The positions of the bits. -/
def positions (b : Block) : List Nat := (List.range wordBits).filter fun k => b.getLsbD k

theorem mem_positions : k ∈ b.positions ↔ b.getLsbD k = true := by
  simp only [positions, List.mem_filter, List.mem_range, and_iff_right_iff_imp]
  intro h
  by_contra hk
  rw [BitVec.getLsbD_of_ge b k (Nat.not_lt.1 hk)] at h
  exact Bool.noConfusion h

theorem pairwise_positions : b.positions.Pairwise (· < ·) := List.pairwise_lt_range.filter _

theorem length_positions_le : b.positions.length ≤ wordBits :=
  (List.length_filter_le _ _).trans (Nat.le_of_eq List.length_range)

theorem positions_zero : positions 0 = [] :=
  List.filter_eq_nil_iff.2 fun k _ => by simp

/-- The lowest bit comes first, and then those of the block without it. -/
theorem positions_eq_cons (hb : b ≠ 0) : b.positions = b.lowest :: b.dropLowest.positions := by
  refine pairwise_positions.eq_of_mem_iff (List.pairwise_cons.2 ⟨fun k hk => ?_, pairwise_positions⟩)
    fun k => ?_
  · rw [mem_positions, getLsbD_dropLowest hb, Bool.and_eq_true, decide_eq_true_eq] at hk
    refine Nat.lt_of_le_of_ne (Nat.not_lt.1 fun hlt => ?_) hk.2.symm
    rw [getLsbD_of_lt_lowest hlt] at hk
    exact Bool.noConfusion hk.1
  · simp only [mem_positions, List.mem_cons, getLsbD_dropLowest hb, Bool.and_eq_true,
      decide_eq_true_eq]
    by_cases hk : k = b.lowest
    · simp [hk, getLsbD_lowest hb]
    · simp [hk]

/-- The count of a block. -/
theorem count_eq_length : b.count = b.positions.length := by
  have h (n : Nat) : b.cpopNatRec n 0 = ((List.range n).filter fun k => b.getLsbD k).length := by
    induction n with
    | zero => rfl
    | succ n ih =>
      rw [BitVec.cpopNatRec_succ, BitVec.cpopNatRec_add, ih, List.range_succ, List.filter_append,
        List.length_append]
      cases hn : b.getLsbD n <;> simp [hn]
  rw [count, BitVec.toNat_cpop, h, positions]

end Block

namespace AddressSet

/-! ## 2. The bits of a set -/

section
variable {s : AddressSet} {i j w a : Nat} {b : Block}

theorem block_setBlock : (s.setBlock i b).block j = if i = j then b else s.block j := by
  simp [block, setBlock, Std.TreeMap.getD_insert, Std.LawfulEqCmp.compare_eq_iff_eq]

/-- The bit of a word. -/
def bit (s : AddressSet) (w : Nat) : Bool := (s.block (w / wordBits)).getLsbD (w % wordBits)

/-- Whether the bit of an address is set. -/
def holds (s : AddressSet) (a : Nat) : Bool := s.bit (s.wordOf a)

theorem mod_wordBits_lt : w % wordBits < wordBits := Nat.mod_lt _ (by decide)

theorem test_bitOf : (s.block (s.blockOf a) &&& s.bitOf a = 0) ↔ s.holds a = false :=
  Block.and_bit_eq_zero mod_wordBits_lt

/-- The set with an address more. -/
def adding (s : AddressSet) (a : Nat) : AddressSet :=
  s.setBlock (s.blockOf a) (s.block (s.blockOf a) ||| s.bitOf a)

/-- The set with an address less. -/
def removing (s : AddressSet) (a : Nat) : AddressSet :=
  s.setBlock (s.blockOf a) (s.block (s.blockOf a) &&& ~~~ s.bitOf a)

/-- The set with no addresses. -/
def emptied (s : AddressSet) : AddressSet := { s with bits := ∅ }

/-- Words are told apart by their block and their place in it. -/
theorem eq_of_div_mod {v w : Nat} (hd : v / wordBits = w / wordBits)
    (hm : w % wordBits = v % wordBits) : w = v := by
  rw [← Nat.div_add_mod w wordBits, ← Nat.div_add_mod v wordBits, hd, hm]

theorem bit_adding : (s.adding a).bit w = (s.bit w || decide (w = s.wordOf a)) := by
  simp only [bit, adding, block_setBlock, blockOf, bitOf]
  split
  · rename_i hd
    rw [BitVec.getLsbD_or, Block.getLsbD_bit mod_wordBits_lt, hd]
    congr 1
    exact decide_eq_decide.2 ⟨eq_of_div_mod hd, fun h => by rw [h]⟩
  · rename_i hd
    have hne : w ≠ s.wordOf a := fun h => hd (by rw [h])
    simp [hne]

theorem bit_removing : (s.removing a).bit w = (s.bit w && decide (w ≠ s.wordOf a)) := by
  simp only [bit, removing, block_setBlock, blockOf, bitOf]
  split
  · rename_i hd
    rw [BitVec.getLsbD_and, BitVec.getLsbD_not, Block.getLsbD_bit mod_wordBits_lt, hd,
      decide_eq_true mod_wordBits_lt, Bool.true_and, ← decide_not]
    congr 1
    exact decide_eq_decide.2 (not_congr ⟨eq_of_div_mod hd, fun h => by rw [h]⟩)
  · rename_i hd
    have hne : w ≠ s.wordOf a := fun h => hd (by rw [h])
    simp [hne]

theorem bit_of_bits_eq_empty (h : s.bits = ∅) : s.bit w = false := by
  simp [bit, block, h]

@[simp] theorem bit_emptied : s.emptied.bit w = false := bit_of_bits_eq_empty rfl

/-- A change at an address changes no other block. -/
theorem block_removing_of_ne (h : j ≠ s.blockOf a) : (s.removing a).block j = s.block j := by
  rw [removing, block_setBlock, if_neg h.symm]

/-- The addresses of the words of which the bit is set, in ascending order. -/
def toList (s : AddressSet) : List Nat :=
  ((List.range (s.blocks * wordBits)).filter s.bit).map s.addressOf

theorem addressOf_lt_addressOf {v : Nat} : s.addressOf v < s.addressOf w ↔ v < w := by
  simp only [addressOf, wordBytes]
  omega

theorem pairwise_toList : s.toList.Pairwise (· < ·) :=
  List.pairwise_map.2 ((List.pairwise_lt_range.filter _).imp addressOf_lt_addressOf.2)

theorem mem_toList_iff :
    a ∈ s.toList ↔ ∃ w, w < s.blocks * wordBits ∧ s.bit w = true ∧ s.addressOf w = a := by
  simp only [toList, List.mem_map, List.mem_filter, List.mem_range, and_assoc]

/-- The words of the blocks below `n`, and those of block `n`. -/
theorem length_filter_range_succ (s : AddressSet) (n : Nat) :
    ((List.range ((n + 1) * wordBits)).filter s.bit).length =
      ((List.range (n * wordBits)).filter s.bit).length + (s.block n).count := by
  have hblock (k : Nat) (hk : k ∈ List.range wordBits) :
      (s.bit ∘ (n * wordBits + ·)) k = (s.block n).getLsbD k := by
    have hk := List.mem_range.1 hk
    have hd : (n * wordBits + k) / wordBits = n := by
      rw [Nat.mul_comm, Nat.mul_add_div (by decide), Nat.div_eq_of_lt hk, Nat.add_zero]
    have hm : (n * wordBits + k) % wordBits = k := by
      rw [Nat.mul_comm, Nat.mul_add_mod, Nat.mod_eq_of_lt hk]
    simp only [Function.comp, bit, hd, hm]
  rw [Nat.succ_mul, List.range_add, List.filter_append, List.length_append, List.filter_map,
    List.length_map, List.filter_congr hblock, Block.count_eq_length, Block.positions]

/-- **The count is the number of members.** -/
theorem count_eq_length : s.count = s.toList.length := by
  rw [toList, List.length_map, count]
  induction s.blocks with
  | zero => rfl
  | succ n ih =>
    rw [List.range_succ, List.foldl_append, ih, length_filter_range_succ]
    rfl

end

/-! ## 3. Visits -/

section
variable {σ : Type} {s : AddressSet} {load : σ → AddressSet} {last : Nat}
variable {visit : Nat → Action σ Unit} {i count rounds a : Nat} {b mask : Block} {t t' : σ}

/-- The addresses of the bits of block `i`. -/
def inBlock (s : AddressSet) (i : Nat) (b : Block) : List Nat :=
  b.positions.map fun k => s.addressOf (i * wordBits + k)

/-- The members in `count` blocks from block `i` on, of the first one those in `mask`. -/
def inBlocks (s : AddressSet) : Nat → Nat → Block → List Nat
  | _, 0, _ => []
  | i, count + 1, mask => s.inBlock i (s.block i &&& mask) ++
      inBlocks s (i + 1) count (Block.upFrom 0)

theorem mem_inBlock : a ∈ s.inBlock i b ↔
    ∃ w, w / wordBits = i ∧ b.getLsbD (w % wordBits) = true ∧ s.addressOf w = a := by
  simp only [inBlock, List.mem_map, Block.mem_positions]
  constructor
  · rintro ⟨k, hk, rfl⟩
    have hlt : k < wordBits := by
      by_contra hge
      rw [BitVec.getLsbD_of_ge b k (Nat.not_lt.1 hge)] at hk
      exact Bool.noConfusion hk
    refine ⟨i * wordBits + k, ?_, ?_, rfl⟩
    · rw [Nat.mul_comm, Nat.mul_add_div (by decide), Nat.div_eq_of_lt hlt, Nat.add_zero]
    · rwa [Nat.mul_comm, Nat.mul_add_mod, Nat.mod_eq_of_lt hlt]
  · rintro ⟨w, rfl, hw, rfl⟩
    exact ⟨w % wordBits, hw, by rw [Nat.mul_comm, Nat.div_add_mod]⟩

theorem pairwise_inBlock : (s.inBlock i b).Pairwise (· < ·) :=
  List.pairwise_map.2 (Block.pairwise_positions.imp fun h => addressOf_lt_addressOf.2 (by omega))

/-- A member that is visited, with its block. -/
theorem mem_inBlocks : a ∈ s.inBlocks i count mask ↔
    ∃ w, s.bit w = true ∧ s.addressOf w = a ∧ i ≤ w / wordBits ∧ w / wordBits < i + count ∧
      (w / wordBits = i → mask.getLsbD (w % wordBits) = true) := by
  induction count generalizing i mask with
  | zero =>
    simp only [inBlocks, List.not_mem_nil, false_iff, not_exists]
    rintro w ⟨-, -, h, h', -⟩
    omega
  | succ count ih =>
    simp only [inBlocks, List.mem_append, mem_inBlock, ih, BitVec.getLsbD_and, Bool.and_eq_true]
    constructor
    · rintro (⟨w, rfl, ⟨hw, hm⟩, rfl⟩ | ⟨w, hw, rfl, hi, hlt, -⟩)
      · exact ⟨w, hw, rfl, Nat.le_refl _, by omega, fun _ => hm⟩
      · exact ⟨w, hw, rfl, by omega, by omega, fun h => by omega⟩
    · rintro ⟨w, hw, rfl, hi, hlt, hm⟩
      by_cases he : w / wordBits = i
      · exact .inl ⟨w, he, ⟨by rw [← he]; exact hw, hm he⟩, rfl⟩
      · refine .inr ⟨w, hw, rfl, by omega, by omega, fun _ => ?_⟩
        rw [Block.getLsbD_upFrom, decide_eq_true mod_wordBits_lt, Bool.true_and]
        exact decide_eq_true (Nat.zero_le _)

theorem pairwise_inBlocks : (s.inBlocks i count mask).Pairwise (· < ·) := by
  induction count generalizing i mask with
  | zero => exact .nil
  | succ count ih =>
    refine List.pairwise_append.2 ⟨pairwise_inBlock, ih, fun a ha c hc => ?_⟩
    obtain ⟨v, rfl, -, rfl⟩ := mem_inBlock.1 ha
    obtain ⟨w, -, rfl, hi, -⟩ := mem_inBlocks.1 hc
    exact addressOf_lt_addressOf.2 (Nat.lt_of_div_lt_div (c := wordBits) (by omega))

/-- **The members from an address on**, up to the end of the range. -/
theorem inBlocks_eq_filter {first : Nat} (h8 : 8 ∣ s.base) (hb : s.base ≤ first) (hf : 8 ∣ first) :
    s.inBlocks (s.blockOf first) (s.blocks - s.blockOf first)
      (Block.upFrom (s.wordOf first % wordBits)) = s.toList.filter fun a => first ≤ a := by
  refine pairwise_inBlocks.eq_of_mem_iff (pairwise_toList.filter _) fun a => ?_
  have hfirst (w : Nat) : first ≤ s.addressOf w ↔ s.wordOf first ≤ w := by
    simp only [addressOf, wordOf, wordBytes]
    omega
  simp only [mem_inBlocks, List.mem_filter, mem_toList_iff, decide_eq_true_eq, Block.getLsbD_upFrom,
    Bool.and_eq_true, mod_wordBits_lt, true_and, blockOf]
  constructor
  · rintro ⟨w, hw, rfl, hi, hlt, hm⟩
    refine ⟨⟨w, ?_, hw, rfl⟩, (hfirst w).2 ?_⟩ <;> simp only [wordBits] at * <;> omega
  · rintro ⟨⟨w, hlt, hw, rfl⟩, hle⟩
    have hle := (hfirst w).1 hle
    refine ⟨w, hw, rfl, ?_⟩
    simp only [wordBits] at *
    omega

/-! ### The visit of one block -/

theorem each_append {α : Type} {xs ys : List α} {f : α → Action σ Unit} :
    Action.each (xs ++ ys) f = (do Action.each xs f; Action.each ys f) := by
  induction xs with
  | nil => rfl
  | cons x xs ih =>
    simp only [List.cons_append, Action.each, ih, bind_assoc]

theorem inBlock_eq_cons (hb : b ≠ 0) :
    s.inBlock i b = s.addressOf (i * wordBits + b.lowest) :: s.inBlock i b.dropLowest := by
  rw [inBlock, Block.positions_eq_cons hb, List.map_cons, inBlock]

/-- **The visit of a block** runs the action on the addresses of its bits, as far as they are below
the last one. -/
theorem visitBits_eq (h : b.positions.length ≤ rounds) :
    visitBits s last visit i rounds b = (do
      Action.each ((s.inBlock i b).filter fun a => a < last) visit
      return decide (∀ a ∈ s.inBlock i b, a < last)) := by
  have hzero : (do
      Action.each ((s.inBlock i 0).filter fun a => a < last) visit
      return decide (∀ a ∈ s.inBlock i 0, a < last)) = (pure true : Action σ Bool) := by
    rw [inBlock, Block.positions_zero]
    rfl
  induction rounds generalizing b with
  | zero =>
    have hb : b = 0 := by
      by_contra hb
      simp [Block.positions_eq_cons hb] at h
    rw [visitBits, hb, hzero]
  | succ rounds ih =>
    by_cases hb : b = 0
    · rw [visitBits, if_pos hb, hb, hzero]
    · rw [Block.positions_eq_cons hb, List.length_cons] at h
      have hp : (s.inBlock i b).Pairwise (· < ·) := pairwise_inBlock
      rw [inBlock_eq_cons hb] at hp ⊢
      simp only [visitBits, hb, if_false]
      generalize s.addressOf (i * wordBits + b.lowest) = a at hp ⊢
      by_cases hl : last ≤ a
      · -- All that follows is above the first address that is too high.
        have hnil : (a :: s.inBlock i b.dropLowest).filter (fun c => decide (c < last)) = [] := by
          refine List.filter_eq_nil_iff.2 fun c hc => ?_
          rw [decide_eq_true_eq, Nat.not_lt]
          rcases List.mem_cons.1 hc with rfl | hc
          · exact hl
          · exact hl.trans (List.rel_of_pairwise_cons hp hc).le
        have hstop : ¬ ∀ c ∈ a :: s.inBlock i b.dropLowest, c < last := fun hall =>
          absurd (hall a (List.mem_cons_self ..)) (Nat.not_lt.2 hl)
        rw [if_pos hl, hnil, decide_eq_false hstop]
        rfl
      · have hlt := Nat.not_le.1 hl
        have hfilter : (a :: s.inBlock i b.dropLowest).filter (fun c => decide (c < last)) =
            a :: (s.inBlock i b.dropLowest).filter fun c => c < last :=
          List.filter_cons_of_pos (decide_eq_true hlt)
        rw [if_neg hl, ih (by omega), hfilter]
        simp only [Action.each, bind_assoc, List.forall_mem_cons, hlt, true_and]

/-! ### The visit of a set -/

/-- **The action changes the set in the block of the address it is given only.** -/
def Stays (load : σ → AddressSet) (visit : Nat → Action σ Unit) : Prop :=
  ∀ a t, After (visit a) t fun _ t' => (load t').base = (load t).base ∧
    ∀ j, j ≠ (load t).blockOf a → (load t').block j = (load t).block j

/-- The state has the blocks of a set, from block `i` on. -/
def Agrees (s : AddressSet) (i : Nat) (s' : AddressSet) : Prop :=
  s'.base = s.base ∧ ∀ j, i ≤ j → s'.block j = s.block j

/-- What is done in one block leaves the following ones. -/
theorem Agrees.each (hv : Stays load visit) {xs : List Nat} (h : s.Agrees i (load t))
    (hxs : ∀ a ∈ xs, s.blockOf a < i) :
    After (Action.each xs visit) t fun _ t' => s.Agrees i (load t') := by
  induction xs generalizing t with
  | nil => exact after_pure.2 h
  | cons a xs ih =>
    rw [List.forall_mem_cons] at hxs
    rw [Action.each, after_bind]
    refine (hv a t).mono fun _ u hu => ih ⟨hu.1.trans h.1, fun j hj => ?_⟩ hxs.2
    have hof : (load t).blockOf a = s.blockOf a := by rw [blockOf, blockOf, wordOf, wordOf, h.1]
    rw [hu.2 j (by rw [hof]; exact Nat.ne_of_gt (hxs.1.trans_le hj)), h.2 j hj]

theorem visitBlocks_eq (hv : Stays load visit) (h : s.Agrees i (load t)) :
    visitBlocks s load last visit i count mask t =
      Action.each ((s.inBlocks i count mask).filter fun a => a < last) visit t := by
  induction count generalizing i mask t with
  | zero => rfl
  | succ count ih =>
    have hhere : (load t).block i = s.block i := h.2 i (Nat.le_refl _)
    simp only [visitBlocks, inBlocks, List.filter_append, each_append]
    show (visitBits s last visit i wordBits ((load t).block i &&& mask) >>= _) t = _
    rw [hhere, visitBits_eq Block.length_positions_le]
    cases he : Action.each ((s.inBlock i (s.block i &&& mask)).filter fun a => a < last) visit t with
    | error f u => simp [bind, EStateM.bind, he]
    | ok _ u =>
      rw [bind_assoc, bind_of_ok he, bind_of_ok he, pure_bind]
      split
      · refine ih (Agrees.each hv ⟨h.1, fun j hj => h.2 j (by omega)⟩ (fun a ha => ?_) _ _ he)
        obtain ⟨w, rfl, -, rfl⟩ := mem_inBlock.1 (List.mem_filter.1 ha).1
        rw [blockOf, wordOf_addressOf]
        omega
      · rename_i hstop
        -- The last address was in this block, and the following ones are above it.
        have hnil : (s.inBlocks (i + 1) count (Block.upFrom 0)).filter (fun a => a < last) = [] := by
          refine List.filter_eq_nil_iff.2 fun c hc => ?_
          simp only [decide_eq_true_eq, not_forall] at hstop ⊢
          obtain ⟨a, ha, hle⟩ := hstop
          obtain ⟨v, hvi, -, rfl⟩ := mem_inBlock.1 ha
          obtain ⟨w, -, rfl, hi, -⟩ := mem_inBlocks.1 hc
          have : s.addressOf v < s.addressOf w :=
            addressOf_lt_addressOf.2 (Nat.lt_of_div_lt_div (c := wordBits) (by omega))
          omega
        rw [hnil]
        rfl

theorem each_push {xs : List Nat} {seen : Array Nat} :
    Action.each xs (fun a => (modify (·.push a) : Action (Array Nat) Unit)) seen =
      .ok () (seen ++ xs.toArray) := by
  induction xs generalizing seen with
  | nil => simp [Action.each, pure, EStateM.pure]
  | cons a xs ih =>
    rw [Action.each]
    show Action.each xs _ (seen.push a) = _
    rw [ih]
    simp

/-- The members that are visited when nothing is changed. -/
theorem between_eq_inBlocks {first : Nat} (hlt : first < last) (hc : s.checkWord first = .ok ()) :
    s.between first last = .ok ((s.inBlocks (s.blockOf first) (s.blocks - s.blockOf first)
      (Block.upFrom (s.wordOf first % wordBits))).filter fun a => a < last) := by
  have hstays : Stays (fun _ => s) (fun a => (modify (·.push a) : Action (Array Nat) Unit)) :=
    fun _ _ _ _ _ => ⟨rfl, fun _ _ => rfl⟩
  have hrun : visitBlocks s (fun _ => s) last (fun a => modify (·.push a)) (s.blockOf first)
      (s.blocks - s.blockOf first) (Block.upFrom (s.wordOf first % wordBits)) #[] = _ :=
    (visitBlocks_eq hstays ⟨rfl, fun _ _ => rfl⟩).trans each_push
  have hit : iterate (fun _ => s) first last
      (fun a => (modify (·.push a) : Action (Array Nat) Unit)) #[] =
        visitBlocks s (fun _ => s) last (fun a => modify (·.push a)) (s.blockOf first)
          (s.blocks - s.blockOf first) (Block.upFrom (s.wordOf first % wordBits)) #[] := by
    simp only [iterate, Nat.not_le.2 hlt, if_false, hc]
    rfl
  rw [between, hit, hrun]
  simp

/-- **A visit runs the action on each of a list of members**, which is that of the state before. -/
theorem iterate_eq_each (hv : Stays load visit) {first : Nat} :
    iterate load first last visit t = (do
      let members ← (load t).between first last
      Action.each members visit : Action σ Unit) t := by
  by_cases hl : last ≤ first
  · have hnone : (load t).between first last = .ok [] := by
      rw [between, iterate]
      simp only [hl, if_true]
      rfl
    rw [hnone]
    simp only [iterate, hl, if_true]
    rfl
  · cases hc : (load t).checkWord first with
    | error f =>
      have hnone : (load t).between first last = .error f := by
        rw [between, iterate]
        simp only [hl, if_false, hc]
        rfl
      rw [hnone]
      simp only [iterate, hl, if_false]
      show ((liftM ((load t).checkWord first) : Action σ Unit) >>= _) t = _
      rw [hc]
      rfl
    | ok _ =>
      rw [between_eq_inBlocks (Nat.not_le.1 hl) hc]
      simp only [iterate, hl, if_false]
      show ((liftM ((load t).checkWord first) : Action σ Unit) >>= _) t = _
      rw [hc]
      exact visitBlocks_eq hv ⟨rfl, fun _ _ => rfl⟩

end

end AddressSet

end ManagedHeap
