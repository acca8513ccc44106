/-
# Words, sets of addresses and ranges of memory

What the theory of the heap needs of the data structures below it.

* Alignment to a word and to a page is divisibility (section 1).
* A set of addresses is seen through `AddressSet.Has` alone.  In a set that `Fits` a range every
  operation on a word of the range passes its checks, and there is one membership equation for
  each; visits and counts are those of the members (section 2).
* A run of words that is copied reads as its source did, and the rest is as before (section 3).
* The same holds of a run of bytes, which need not end with a word (section 4).
-/
import ManagedHeap.Proofs.Bits
import Mathlib.Data.Finset.Card
import Mathlib.Data.Finset.Dedup
import Mathlib.Data.List.Perm.Subperm

namespace ManagedHeap

/-! ## 1. Alignment -/

theorem isPowerOfTwo_wordBytes : wordBytes.isPowerOfTwo := ⟨3, rfl⟩

theorem isPowerOfTwo_pageBytes : pageBytes.isPowerOfTwo := ⟨12, rfl⟩

@[simp] theorem isAligned_wordBytes {n : Nat} : isAligned n wordBytes = true ↔ 8 ∣ n :=
  isAligned_iff_dvd isPowerOfTwo_wordBytes (by decide) n

@[simp] theorem isAligned_pageBytes {n : Nat} : isAligned n pageBytes = true ↔ 4096 ∣ n :=
  isAligned_iff_dvd isPowerOfTwo_pageBytes (by decide) n

theorem alignDown_wordBytes (n : Nat) : alignDown n wordBytes = n / 8 * 8 :=
  alignDown_of_isPowerOfTwo isPowerOfTwo_wordBytes (by decide) n

theorem dvd_wordLimit {align : Nat} (h : align.isPowerOfTwo) (hlt : align < wordLimit) :
    align ∣ wordLimit := by
  obtain ⟨k, rfl⟩ := h
  exact Nat.pow_dvd_pow 2 (Nat.le_of_lt ((Nat.pow_lt_pow_iff_right (by decide)).1
    (show 2 ^ k < 2 ^ 64 from hlt)))

/-- **Alignment upwards** is to the next multiple, wrapped to a word. -/
theorem alignUp_eq_mod {align : Nat} (h : align.isPowerOfTwo) (hlt : align < wordLimit) (n : Nat) :
    alignUp n align = (n + (align - 1)) / align * align % wordLimit := by
  obtain ⟨c, hc⟩ := dvd_wordLimit h hlt
  rw [alignUp, lowBits_of_isPowerOfTwo h hlt, alignDown_of_isPowerOfTwo h hlt, hc,
    Nat.mod_mul_right_div_self, Nat.mul_comm align c, Nat.mul_mod_mul_right]

/-- Alignment upwards, where it does not wrap around. -/
theorem alignUp_of_isPowerOfTwo {align n : Nat} (h : align.isPowerOfTwo) (hlt : align < wordLimit)
    (hn : n + (align - 1) < wordLimit) :
    alignUp n align = (n + (align - 1)) / align * align := by
  rw [alignUp_eq_mod h hlt, Nat.mod_eq_of_lt (Nat.lt_of_le_of_lt (Nat.div_mul_le_self _ _) hn)]

theorem alignUp_wordBytes {n : Nat} (hn : n + 7 < wordLimit) :
    alignUp n wordBytes = (n + 7) / 8 * 8 :=
  alignUp_of_isPowerOfTwo isPowerOfTwo_wordBytes (by decide) hn

/-! ## 2. Sets of addresses -/

namespace AddressSet

/-- Whether an address is in the set. -/
def Has (s : AddressSet) (a : Nat) : Prop := s.base ≤ a ∧ 8 ∣ a ∧ s.holds a = true

/-- The set is one of addresses in the `bytes` bytes from `bottom` on. -/
structure Fits (s : AddressSet) (bottom bytes : Nat) : Prop where
  base_eq : s.base = bottom
  blocks_eq : s.blocks = (bytes / 8 + 63) / 64
  aligned : 8 ∣ bottom
  inside : ∀ w, s.bit w = true → w < bytes / 8

section
variable {s : AddressSet} {bottom bytes a b : Nat}

theorem fits_make (h : 8 ∣ bottom) : (AddressSet.make bottom bytes).Fits bottom bytes :=
  ⟨rfl, rfl, h, fun _ hw => absurd hw (by simp [bit_of_bits_eq_empty, make])⟩

/-- Two words of the range with the same number are the same. -/
theorem Fits.wordOf_inj (h : s.Fits bottom bytes) (ha : bottom ≤ a) (hb : bottom ≤ b)
    (hwa : 8 ∣ a) (hwb : 8 ∣ b) (he : s.wordOf a = s.wordOf b) : a = b := by
  have := h.aligned
  simp only [wordOf, wordBytes, h.base_eq] at he
  omega

theorem Fits.wordOf_lt (h : s.Fits bottom bytes) (ha : a < bottom + bytes) (hb : bottom ≤ a)
    (hw : 8 ∣ a) (hbytes : 8 ∣ bytes) : s.wordOf a < bytes / 8 := by
  have := h.aligned
  simp only [wordOf, wordBytes, h.base_eq]
  omega

theorem Fits.checkWord_eq (h : s.Fits bottom bytes) (hb : bottom ≤ a) (hw : 8 ∣ a) :
    s.checkWord a = .ok () := by
  simp only [checkWord, Except.bind_eq_ok, require_eq_ok, isAligned_wordBytes, h.base_eq]
  exact ⟨(), hb, hw⟩

theorem Fits.checkIndex_eq (h : s.Fits bottom bytes) (hb : bottom ≤ a) (ha : a < bottom + bytes)
    (hw : 8 ∣ a) (hbytes : 8 ∣ bytes) : s.checkIndex a = .ok () := by
  have hlt := h.wordOf_lt ha hb hw hbytes
  simp only [checkIndex, h.checkWord_eq hb hw, Except.bind_eq_ok, require_eq_ok, wordBits,
    h.blocks_eq]
  exact ⟨(), trivial, by omega⟩

theorem Fits.has_bounds (h : s.Fits bottom bytes) (ha : s.Has a) :
    bottom ≤ a ∧ a < bottom + bytes := by
  obtain ⟨hb, hw, hm⟩ := ha
  have hlt := h.inside _ hm
  have := h.aligned
  simp only [wordOf, wordBytes, h.base_eq] at *
  omega

theorem not_has_of_bits_eq_empty (h : s.bits = ∅) : ¬ s.Has a := fun ha =>
  Bool.noConfusion ((bit_of_bits_eq_empty h).symm.trans ha.2.2)

@[simp] theorem not_has_emptied : ¬ s.emptied.Has a := not_has_of_bits_eq_empty rfl

theorem Fits.emptied (h : s.Fits bottom bytes) : s.emptied.Fits bottom bytes :=
  ⟨h.base_eq, h.blocks_eq, h.aligned, fun _ hw => absurd hw (by simp)⟩

theorem Fits.adding (h : s.Fits bottom bytes) (hb : bottom ≤ a) (ha : a < bottom + bytes)
    (hw : 8 ∣ a) (hbytes : 8 ∣ bytes) : (s.adding a).Fits bottom bytes := by
  refine ⟨h.base_eq, h.blocks_eq, h.aligned, fun w hm => ?_⟩
  rw [bit_adding, Bool.or_eq_true, decide_eq_true_eq] at hm
  rcases hm with hm | rfl
  · exact h.inside w hm
  · exact h.wordOf_lt ha hb hw hbytes

theorem Fits.removing (h : s.Fits bottom bytes) : (s.removing a).Fits bottom bytes := by
  refine ⟨h.base_eq, h.blocks_eq, h.aligned, fun w hm => h.inside w ?_⟩
  rw [bit_removing, Bool.and_eq_true] at hm
  exact hm.1

theorem Fits.has_adding (h : s.Fits bottom bytes) (hb : bottom ≤ a) (hw : 8 ∣ a) :
    (s.adding a).Has b ↔ b = a ∨ s.Has b := by
  show s.base ≤ b ∧ 8 ∣ b ∧ (s.adding a).bit (s.wordOf b) = true ↔ _
  simp only [Has, holds, bit_adding, Bool.or_eq_true, decide_eq_true_eq]
  constructor
  · rintro ⟨hbb, hbw, hm | he⟩
    · exact .inr ⟨hbb, hbw, hm⟩
    · exact .inl (h.wordOf_inj (h.base_eq ▸ hbb) hb hbw hw he)
  · rintro (rfl | ⟨hbb, hbw, hm⟩)
    · exact ⟨h.base_eq ▸ hb, hw, .inr rfl⟩
    · exact ⟨hbb, hbw, .inl hm⟩

theorem Fits.has_removing (h : s.Fits bottom bytes) (hb : bottom ≤ a) (hw : 8 ∣ a) :
    (s.removing a).Has b ↔ b ≠ a ∧ s.Has b := by
  show s.base ≤ b ∧ 8 ∣ b ∧ (s.removing a).bit (s.wordOf b) = true ↔ _
  simp only [Has, holds, bit_removing, Bool.and_eq_true, decide_eq_true_eq]
  constructor
  · rintro ⟨hbb, hbw, hm, hne⟩
    exact ⟨fun he => hne (by rw [he]), hbb, hbw, hm⟩
  · rintro ⟨hne, hbb, hbw, hm⟩
    exact ⟨hbb, hbw, hm, fun he => hne (h.wordOf_inj (h.base_eq ▸ hbb) hb hbw hw he)⟩

/-! Operations on a word of the range. -/

theorem ends_insert {post : Bool → AddressSet → Prop} (h : s.checkIndex a = .ok ()) :
    Ends (insert a) s post ↔ post (!s.holds a) (s.adding a) := by
  have htest : (s.block (s.blockOf a) &&& s.bitOf a == 0) = !s.holds a := by
    rw [Bool.eq_iff_iff, beq_iff_eq, test_bitOf, Bool.not_eq_true']
  simp only [insert, ends_bind, ends_get, ends_lift, h, ends_set, ends_pure, htest]
  simp [AddressSet.adding]

theorem ends_erase {post : Unit → AddressSet → Prop} (h : s.checkIndex a = .ok ()) :
    Ends (erase a) s post ↔ post () (s.removing a) := by
  simp only [erase, ends_bind, ends_get, ends_lift, h, ends_set]
  simp [AddressSet.removing]

@[simp] theorem ends_clear {post : Unit → AddressSet → Prop} :
    Ends clear s post ↔ post () s.emptied := by
  simp [clear, AddressSet.emptied]

/-- What is left where an address was taken out, if it can be one of the set. -/
theorem after_erase : After (erase a) s fun _ s' => s' = s.removing a := by
  unfold erase
  rw [after_bind, after_get]
  exact after_second fun _ _ => after_set.2 rfl

theorem Fits.holds_iff (h : s.Fits bottom bytes) (hb : bottom ≤ a) (hw : 8 ∣ a) :
    s.holds a = true ↔ s.Has a := by
  simp only [Has, h.base_eq, hb, hw, true_and]

theorem Fits.contains_eq (h : s.Fits bottom bytes) (hb : bottom ≤ a) (ha : a < bottom + bytes)
    (hw : 8 ∣ a) (hbytes : 8 ∣ bytes) : s.contains a = .ok (s.holds a) := by
  have htest : (s.block (s.blockOf a) &&& s.bitOf a != 0) = s.holds a := by
    rw [Bool.eq_iff_iff, bne_iff_ne, ne_eq, test_bitOf, Bool.not_eq_false]
  rw [contains, h.checkIndex_eq hb ha hw hbytes, ← htest]
  rfl

/-- Only a member is found. -/
theorem Fits.contains_eq_true (h : s.Fits bottom bytes) (hbytes : 8 ∣ bytes) :
    s.contains a = .ok true ↔ s.Has a := by
  constructor
  · intro hc
    have hword : s.base ≤ a ∧ 8 ∣ a := by
      simp only [contains, checkIndex, checkWord, Except.bind_eq_ok, require_eq_ok,
        isAligned_wordBytes] at hc
      obtain ⟨_, ⟨_, ⟨_, hb, hw⟩, -⟩, -⟩ := hc
      exact ⟨hb, hw⟩
    simp only [contains, Except.bind_eq_ok] at hc
    obtain ⟨_, -, hm⟩ := hc
    have hne := bne_iff_ne.1 (Except.ok.inj hm)
    rw [ne_eq, test_bitOf, Bool.not_eq_false] at hne
    exact ⟨hword.1, hword.2, hne⟩
  · intro ha
    obtain ⟨hb, hlt⟩ := h.has_bounds ha
    rw [h.contains_eq hb hlt ha.2.1 hbytes, ha.2.2]

theorem Fits.mem_toList (h : s.Fits bottom bytes) : a ∈ s.toList ↔ s.Has a := by
  have hd := h.aligned
  rw [mem_toList_iff]
  constructor
  · rintro ⟨w, -, hw, rfl⟩
    refine ⟨?_, ?_, by rwa [holds, s.wordOf_addressOf]⟩ <;>
      simp only [addressOf, wordBytes, h.base_eq] <;> omega
  · rintro ⟨hb, hw, hm⟩
    have hlt := h.inside _ hm
    refine ⟨s.wordOf a, ?_, hm, s.addressOf_wordOf hb ?_⟩
    · simp only [h.blocks_eq, wordBits]
      omega
    · simp only [wordBytes, h.base_eq] at *
      omega

/-- The members. -/
def members (s : AddressSet) : Finset Nat := s.toList.toFinset

theorem Fits.mem_members (h : s.Fits bottom bytes) : a ∈ s.members ↔ s.Has a := by
  rw [members, List.mem_toFinset, h.mem_toList]

theorem Fits.members_eq_empty (h : s.Fits bottom bytes) (hn : ∀ a, ¬ s.Has a) : s.members = ∅ :=
  Finset.eq_empty_of_forall_notMem fun a ha => hn a (h.mem_members.1 ha)

/-- **The members between two addresses**, in ascending order. -/
theorem Fits.between_eq_filter (h : s.Fits bottom bytes) {first last : Nat} (hb : bottom ≤ first)
    (hw : 8 ∣ first) :
    s.between first last = .ok (s.toList.filter fun a => first ≤ a ∧ a < last) := by
  by_cases hl : last ≤ first
  · have hnil : (s.toList.filter fun a => decide (first ≤ a ∧ a < last)) = [] :=
      List.filter_eq_nil_iff.2 fun a _ => by rw [decide_eq_true_eq]; omega
    rw [hnil, between, iterate]
    simp only [hl, if_true]
    rfl
  · have hbase : 8 ∣ s.base := h.base_eq ▸ h.aligned
    rw [between_eq_inBlocks (Nat.not_le.1 hl) (h.checkWord_eq hb hw),
      inBlocks_eq_filter hbase (h.base_eq ▸ hb) hw, List.filter_filter]
    congr 2
    funext a
    rw [← Bool.decide_and]
    exact decide_eq_decide.2 and_comm

/-- The members from the bottom of the range up to an address. -/
theorem Fits.between_eq (h : s.Fits bottom bytes) {b : Nat} :
    ∃ l, s.between bottom b = .ok l ∧ ∀ a, a ∈ l ↔ s.Has a ∧ a < b := by
  refine ⟨_, h.between_eq_filter (Nat.le_refl _) h.aligned, fun a => ?_⟩
  rw [List.mem_filter, h.mem_toList, decide_eq_true_eq]
  exact ⟨fun hx => ⟨hx.1, hx.2.2⟩, fun hx => ⟨hx.1, (h.has_bounds hx.1).1, hx.2⟩⟩

/-! The number of members. -/

theorem count_eq_card : s.count = s.members.card := by
  rw [count_eq_length, members, List.toFinset_card_of_nodup (pairwise_toList.imp Nat.ne_of_lt)]

theorem Fits.count_adding (h : s.Fits bottom bytes) (hb : bottom ≤ a) (ha : a < bottom + bytes)
    (hw : 8 ∣ a) (hbytes : 8 ∣ bytes) :
    (s.adding a).count = if s.holds a then s.count else s.count + 1 := by
  have hmem : (s.adding a).members = Insert.insert a s.members := by
    ext b
    rw [(h.adding hb ha hw hbytes).mem_members, h.has_adding hb hw, Finset.mem_insert, h.mem_members]
  have hhas : a ∈ s.members ↔ s.holds a = true := h.mem_members.trans (h.holds_iff hb hw).symm
  rw [count_eq_card, count_eq_card, hmem, Finset.card_insert_eq_ite]
  simp only [hhas]

/-- A set has no more members than its range has words. -/
theorem Fits.count_le (h : s.Fits bottom bytes) : s.count ≤ bytes / 8 := by
  have hsub : (List.range (s.blocks * wordBits)).filter s.bit ⊆ List.range (bytes / 8) := fun w hw =>
    List.mem_range.2 (h.inside w (List.mem_filter.1 hw).2)
  have hn : ((List.range (s.blocks * wordBits)).filter s.bit).Nodup := List.nodup_range.filter _
  have := (List.subperm_of_subset hn hsub).length_le
  rwa [List.length_range, ← List.length_map, ← toList, ← count_eq_length] at this

/-- A set without members counts none. -/
theorem Fits.count_eq_zero (h : s.Fits bottom bytes) (hn : ∀ a, ¬ s.Has a) : s.count = 0 := by
  rw [count_eq_card, h.members_eq_empty hn, Finset.card_empty]

end

end AddressSet

/-! ## 3. Runs of words -/

namespace Memory

/-- Outside of the target a copy changes nothing. -/
theorem read_copyWords_of_outside (m : Memory) {src dst n b : Nat}
    (hb : ∀ i < n, b ≠ dst + 8 * i) : (m.copyWords src dst n).read b = m.read b := by
  induction n generalizing m src dst with
  | zero => rfl
  | succ n ih =>
    have h0 : dst ≠ b := fun e => hb 0 (by omega) (by omega)
    rw [copyWords, ih, read_write_of_ne _ h0]
    intro i hi e
    refine hb (i + 1) (by omega) ?_
    simp only [wordBytes] at e
    omega

/-- **A run of words that is copied** to one that does not overlap it reads as the source. -/
theorem read_copyWords (m : Memory) {src dst n : Nat} (h : src + 8 * n ≤ dst ∨ dst + 8 * n ≤ src)
    {i : Nat} (hi : i < n) :
    (m.copyWords src dst n).read (dst + 8 * i) = m.read (src + 8 * i) := by
  induction n generalizing m src dst i with
  | zero => exact absurd hi (Nat.not_lt_zero i)
  | succ n ih =>
    rw [copyWords]
    cases i with
    | zero =>
      rw [read_copyWords_of_outside _ (fun i hi e => by simp only [wordBytes] at e; omega)]
      simp
    | succ i =>
      have hd : dst + 8 * (i + 1) = dst + wordBytes + 8 * i := by simp only [wordBytes]; omega
      have hs : src + 8 * (i + 1) = src + wordBytes + 8 * i := by simp only [wordBytes]; omega
      rw [hd, hs, ih _ (by simp only [wordBytes]; omega) (by omega),
        read_write_of_ne _ (by simp only [wordBytes]; omega)]

/-- Between words a copy takes the whole words first, and what is left byte by byte. -/
theorem copyBytes_eq (m : Memory) {src dst : Nat} (hs : 8 ∣ src) (hd : 8 ∣ dst) (bytes : Nat) :
    m.copyBytes src dst bytes = (m.copyWords src dst (bytes / 8)).copySingly
      (src + 8 * (bytes / 8)) (dst + 8 * (bytes / 8)) (bytes % 8) := by
  have hleft : bytes - wordBytes * (bytes / wordBytes) = bytes % 8 := by
    simp only [wordBytes]
    omega
  simp only [copyBytes, isAligned_wordBytes.2 hs, isAligned_wordBytes.2 hd, Bool.and_self,
    if_true, hleft]
  rfl

/-- Whole words are copied by words. -/
theorem copyBytes_eq_copyWords (m : Memory) {src dst bytes : Nat} (hs : 8 ∣ src) (hd : 8 ∣ dst)
    (hb : 8 ∣ bytes) : m.copyBytes src dst bytes = m.copyWords src dst (bytes / 8) := by
  rw [copyBytes_eq m hs hd, Nat.mod_eq_zero_of_dvd hb, copySingly]

/-! ## 4. Bytes

Byte `k` of a word `w` is `w / 256 ^ k % 256`. -/

/-- Of a word in which one byte is replaced, that byte is the new one and the others are as before. -/
theorem byte_replaced {v : Nat} (hv : v < 256) (w k j : Nat) :
    (w - w / 256 ^ k % 256 * 256 ^ k + v * 256 ^ k) / 256 ^ j % 256 =
      if j = k then v else w / 256 ^ j % 256 := by
  -- The induction takes the lowest byte off, so that it moves along the word with `k` and `j`.
  induction k generalizing w j with
  | zero =>
    simp only [Nat.pow_zero, Nat.div_one, Nat.mul_one]
    cases j with
    | zero =>
      simp only [Nat.pow_zero, Nat.div_one, if_true]
      omega
    | succ j =>
      rw [if_neg (Nat.succ_ne_zero j), Nat.pow_succ', ← Nat.div_div_eq_div_mul,
        ← Nat.div_div_eq_div_mul, show (w - w % 256 + v) / 256 = w / 256 by omega]
  | succ k ih =>
    obtain ⟨rest, hrest⟩ : ∃ rest, rest = w / 256 - w / 256 / 256 ^ k % 256 * 256 ^ k + v * 256 ^ k :=
      ⟨_, rfl⟩
    have hlow : w - w / 256 ^ (k + 1) % 256 * 256 ^ (k + 1) + v * 256 ^ (k + 1) =
        256 * rest + w % 256 := by
      have hle : w / 256 / 256 ^ k % 256 * 256 ^ k ≤ w / 256 :=
        Nat.le_trans (Nat.mul_le_mul_right _ (Nat.mod_le _ _)) (Nat.div_mul_le_self _ _)
      rw [hrest, Nat.pow_succ', ← Nat.div_div_eq_div_mul, Nat.mul_left_comm _ 256,
        Nat.mul_left_comm v 256]
      omega
    rw [hlow]
    cases j with
    | zero =>
      rw [if_neg (Nat.succ_ne_zero k).symm, Nat.pow_zero, Nat.div_one, Nat.div_one]
      omega
    | succ j =>
      rw [Nat.pow_succ', ← Nat.div_div_eq_div_mul, ← Nat.div_div_eq_div_mul,
        show (256 * rest + w % 256) / 256 = rest by omega, hrest, ih]
      simp only [Nat.add_right_cancel_iff]

theorem readByte_eq (m : Memory) (a : Nat) :
    m.readByte a = m.read (a / 8 * 8) / 256 ^ (a % 8) % 256 := by
  rw [readByte, Nat.shiftRight_eq_div_pow, Nat.pow_mul, alignDown_wordBytes]
  rfl

theorem readByte_lt (m : Memory) (a : Nat) : m.readByte a < 256 := Nat.mod_lt _ (by decide)

/-- A byte is a part of the word that it is in. -/
theorem readByte_congr {m m' : Memory} {a : Nat}
    (h : m'.read (a / 8 * 8) = m.read (a / 8 * 8)) : m'.readByte a = m.readByte a := by
  rw [readByte_eq, readByte_eq, h]

theorem writeByte_eq (m : Memory) (a v : Nat) :
    m.writeByte a v = m.write (a / 8 * 8) (m.read (a / 8 * 8) -
      m.read (a / 8 * 8) / 256 ^ (a % 8) % 256 * 256 ^ (a % 8) + v * 256 ^ (a % 8)) := by
  have hshift (n k : Nat) : n <<< (byteBits * k) = n * 256 ^ k := by
    rw [Nat.shiftLeft_eq, Nat.pow_mul]
    rfl
  simp only [writeByte, hshift, readByte_eq, alignDown_wordBytes]
  rfl

/-- **A byte that is written** is seen at its own address and at no other. -/
theorem readByte_writeByte (m : Memory) {v : Nat} (hv : v < 256) (a b : Nat) :
    (m.writeByte a v).readByte b = if a = b then v else m.readByte b := by
  by_cases hw : a / 8 * 8 = b / 8 * 8
  · rw [readByte_eq, readByte_eq, writeByte_eq, hw, read_write_self, byte_replaced hv]
    by_cases hab : a = b
    · rw [if_pos hab, if_pos (by rw [hab])]
    · rw [if_neg hab, if_neg (by omega)]
  · rw [writeByte_eq, readByte_congr (read_write_of_ne _ hw _), if_neg fun hab => hw (by rw [hab])]

/-- Words beside the target are as before. -/
theorem read_copySingly_of_outside (m : Memory) {src dst n a : Nat} (ha : 8 ∣ a)
    (h : a + 8 ≤ dst ∨ dst + n ≤ a) : (m.copySingly src dst n).read a = m.read a := by
  induction n generalizing m src dst with
  | zero => rfl
  | succ n ih => rw [copySingly, ih _ (by omega), writeByte_eq, read_write_of_ne _ (by omega)]

/-- Bytes beside the target are as before. -/
theorem readByte_copySingly_of_outside (m : Memory) {src dst n b : Nat}
    (hb : b < dst ∨ dst + n ≤ b) : (m.copySingly src dst n).readByte b = m.readByte b := by
  induction n generalizing m src dst with
  | zero => rfl
  | succ n ih =>
    rw [copySingly, ih _ (by omega), readByte_writeByte m (readByte_lt m src), if_neg (by omega)]

/-- Bytes that are copied one by one read as the source. -/
theorem readByte_copySingly (m : Memory) {src dst n : Nat} (h : src + n ≤ dst ∨ dst + n ≤ src)
    {i : Nat} (hi : i < n) :
    (m.copySingly src dst n).readByte (dst + i) = m.readByte (src + i) := by
  induction n generalizing m src dst i with
  | zero => exact absurd hi (Nat.not_lt_zero i)
  | succ n ih =>
    rw [copySingly]
    cases i with
    | zero =>
      rw [readByte_copySingly_of_outside _ (by omega), readByte_writeByte m (readByte_lt m src),
        if_pos (by omega), Nat.add_zero]
    | succ i =>
      rw [show dst + (i + 1) = dst + 1 + i by omega, show src + (i + 1) = src + 1 + i by omega,
        ih _ (by omega) (by omega), readByte_writeByte m (readByte_lt m src), if_neg (by omega)]

section
variable {m : Memory} {src dst bytes : Nat}

/-- Words beside the target of a copy are as before. -/
theorem read_copyBytes_of_outside (hs : 8 ∣ src) (hd : 8 ∣ dst) {a : Nat} (ha : 8 ∣ a)
    (h : a + 8 ≤ dst ∨ dst + bytes ≤ a) : (m.copyBytes src dst bytes).read a = m.read a := by
  rw [copyBytes_eq m hs hd, read_copySingly_of_outside _ ha (by omega),
    read_copyWords_of_outside _ fun i hi => by omega]

/-- **Outside of the target** of a copy every byte is as before. -/
theorem readByte_copyBytes_of_outside (hs : 8 ∣ src) (hd : 8 ∣ dst) {b : Nat}
    (hb : b < dst ∨ dst + bytes ≤ b) : (m.copyBytes src dst bytes).readByte b = m.readByte b := by
  rw [copyBytes_eq m hs hd, readByte_copySingly_of_outside _ (by omega),
    readByte_congr (read_copyWords_of_outside _ fun i hi => by omega)]

/-- **A run of bytes that is copied** to one that does not overlap it reads as the source. -/
theorem readByte_copyBytes (hs : 8 ∣ src) (hd : 8 ∣ dst)
    (h : src + bytes ≤ dst ∨ dst + bytes ≤ src) {i : Nat} (hi : i < bytes) :
    (m.copyBytes src dst bytes).readByte (dst + i) = m.readByte (src + i) := by
  rw [copyBytes_eq m hs hd]
  by_cases hw : i < 8 * (bytes / 8)
  · -- A byte of a word that was copied whole.
    have hword : (m.copyWords src dst (bytes / 8)).read (dst + 8 * (i / 8)) =
        m.read (src + 8 * (i / 8)) := read_copyWords m (by omega) (by omega)
    rw [readByte_copySingly_of_outside _ (by omega), readByte_eq, readByte_eq,
      show (dst + i) / 8 * 8 = dst + 8 * (i / 8) by omega, hword,
      show (src + i) / 8 * 8 = src + 8 * (i / 8) by omega,
      show (dst + i) % 8 = (src + i) % 8 by omega]
  · obtain ⟨k, rfl⟩ : ∃ k, i = 8 * (bytes / 8) + k := ⟨i - 8 * (bytes / 8), by omega⟩
    rw [← Nat.add_assoc, ← Nat.add_assoc, readByte_copySingly _ (by omega) (by omega),
      readByte_congr (read_copyWords_of_outside _ fun j hj => by omega)]

end

end Memory

end ManagedHeap
