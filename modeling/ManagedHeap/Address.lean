/-
# Words, addresses and alignment

A heap is a range of byte addresses of a machine with 64-bit words.  Addresses, sizes and
the contents of a word are natural numbers below `wordLimit`; where an operation of the
machine wraps around or overflows, the definition that models it says so.  A reference to
an object is the address of its first header word, or `null`.

Alignment is defined for every second argument, powers of two or not: `alignDown` clears
the bits that are set in `align - 1`, where `0 - 1` is the word with all bits set.
-/

namespace ManagedHeap

/-! ## 1. Words and addresses -/

/-- The reference to no object. -/
def null : Nat := 0

/-- One more than the largest number a word can hold. -/
def wordLimit : Nat := 18446744073709551616

/-- Bytes in a word, which is also the size of a reference slot. -/
def wordBytes : Nat := 8

/-- Bits in a word. -/
def wordBits : Nat := 64

/-- Objects start at multiples of a word. -/
def objectAlignment : Nat := wordBytes

/-- Memory is committed in pages. -/
def pageBytes : Nat := 4096

/-! ## 2. Alignment -/

/-- The word `align - 1`, with all bits set when `align` is zero. -/
def lowBits (align : Nat) : Nat := (align + (wordLimit - 1)) % wordLimit

/-- The bits of `n` that an alignment to `align` clears. -/
def misalignment (n align : Nat) : Nat := n &&& lowBits align

/-- `n` with the bits of `align - 1` cleared. -/
def alignDown (n align : Nat) : Nat := n - misalignment n align

/-- `n + (align - 1)`, wrapped to a word, aligned down.  So a number above the last multiple
of a power of two wraps to zero. -/
def alignUp (n align : Nat) : Nat := alignDown ((n + lowBits align) % wordLimit) align

/-- Whether alignment to `align` leaves `n` as it is. -/
def isAligned (n align : Nat) : Bool := misalignment n align = 0

theorem lowBits_of_isPowerOfTwo {align : Nat} (h : align.isPowerOfTwo)
    (hlt : align < wordLimit) : lowBits align = align - 1 := by
  have hpos : 0 < align := Nat.pos_of_isPowerOfTwo h
  simp only [lowBits, wordLimit] at *
  omega

theorem misalignment_of_isPowerOfTwo {align : Nat} (h : align.isPowerOfTwo)
    (hlt : align < wordLimit) (n : Nat) : misalignment n align = n % align := by
  rw [misalignment, lowBits_of_isPowerOfTwo h hlt]
  obtain ⟨k, rfl⟩ := h
  exact Nat.and_two_pow_sub_one_eq_mod n k

/-- Alignment to a power of two goes down to the next multiple. -/
theorem alignDown_of_isPowerOfTwo {align : Nat} (h : align.isPowerOfTwo)
    (hlt : align < wordLimit) (n : Nat) : alignDown n align = n / align * align := by
  have := Nat.div_add_mod n align
  rw [alignDown, misalignment_of_isPowerOfTwo h hlt, Nat.mul_comm]
  omega

theorem isAligned_iff_dvd {align : Nat} (h : align.isPowerOfTwo) (hlt : align < wordLimit)
    (n : Nat) : isAligned n align = true ↔ align ∣ n := by
  simp [isAligned, misalignment_of_isPowerOfTwo h hlt, Nat.dvd_iff_mod_eq_zero]

/-! ## 3. How an address is written -/

/-- The hexadecimal digits of a number, in lower case and without leading zeros. -/
def hexDigits (n : Nat) : String := String.ofList (Nat.toDigits 16 n)

/-- An address as messages show it. -/
def hexText (n : Nat) : String := "0x" ++ hexDigits n

end ManagedHeap
