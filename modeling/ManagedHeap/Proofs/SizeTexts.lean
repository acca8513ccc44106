/-
# The texts of sizes

Which texts stand for a size is said here without the reader.  A numeral is one or more decimal
digits, with a `+` in front or none (`Text.Numeral`).  A size is a numeral and possibly a letter for a
unit, between blanks (`ByteSize.Spells`).  The reader accepts these texts, as far as the number of
bytes is a word, and no others (`ByteSize.readSize_decides`).

A number may be too large in two ways: the numeral may be no word, or only its multiple by the unit.
The reader finds the first while it reads digits, and the second when it shifts.  The causes that it
gives tell which it was.

A size is written in the largest unit that divides it, and what is written is read as that size.  A
size that no unit divides is written in bytes, with a `B` that the reader takes for a wrong digit; it
is only the numeral before it that is read (`ByteSize.exactText_read_back`).

* Section 1: the digits of a number, and numerals.
* Section 2: the blanks around a text.
* Section 3: units, and sizes.
* Section 4: sizes that are written.
-/
import ManagedHeap.ByteSize
import Mathlib.Data.List.Basic
import Mathlib.Data.List.TakeWhile

namespace ManagedHeap

/-! ## 1. Numerals -/

namespace Text

variable {c : Char} {cs ds : List Char} {n acc : Nat}

/-- A text of decimal digits. -/
def IsDecimal (ds : List Char) : Prop := ∀ c ∈ ds, c.isDigit = true

instance : Decidable (IsDecimal ds) := List.decidableBAll _ ds

/-- One or more decimal digits for a number, with a `+` in front or none. -/
inductive Numeral : List Char → Nat → Prop where
  | bare {ds : List Char} (hne : ds ≠ []) (hds : IsDecimal ds) : Numeral ds (Nat.ofDigitChars 10 ds 0)
  | signed {ds : List Char} (hne : ds ≠ []) (hds : IsDecimal ds) :
    Numeral ('+' :: ds) (Nat.ofDigitChars 10 ds 0)

/-- The digits are those characters that have the value of one. -/
theorem isDigit_iff : c.isDigit = true ↔ '0' ≤ c ∧ c ≤ '9' := by
  rw [Char.isDigit, Bool.and_eq_true, decide_eq_true_eq, decide_eq_true_eq]
  rfl

theorem digitValue?_of_isDigit (h : c.isDigit = true) : digitValue? c = some (c.toNat - '0'.toNat) :=
  if_pos (isDigit_iff.1 h)

theorem digitValue?_eq_none (h : c.isDigit = false) : digitValue? c = none :=
  if_neg fun hd => Bool.noConfusion (h.symm.trans (isDigit_iff.2 hd))

theorem IsDecimal.head (h : IsDecimal (c :: ds)) : c.isDigit = true := h c List.mem_cons_self

theorem IsDecimal.tail (h : IsDecimal (c :: ds)) : IsDecimal ds :=
  fun d hd => h d (List.mem_cons_of_mem c hd)

/-- Further digits make a number no smaller. -/
theorem le_ofDigitChars : acc ≤ Nat.ofDigitChars 10 ds acc := by
  induction ds generalizing acc with
  | nil => exact Nat.le_refl acc
  | cons c rest ih =>
    rw [Nat.ofDigitChars_cons]
    exact Nat.le_trans (by omega) ih

/-- Digits are read as the number that they stand for, if that is a word. -/
theorem readDigits_of_isDecimal (h : IsDecimal ds) (hacc : acc < wordLimit) :
    readDigits acc ds = if Nat.ofDigitChars 10 ds acc < wordLimit
      then .ok (Nat.ofDigitChars 10 ds acc) else .error .tooLarge := by
  induction ds generalizing acc with
  | nil => exact (if_pos hacc).symm
  | cons c rest ih =>
    rw [readDigits, digitValue?_of_isDigit h.head, Nat.ofDigitChars_cons, Nat.mul_comm 10 acc]
    dsimp only
    split
    · exact ih h.tail ‹_›
    · -- The number is too large already, and more digits do not change that.
      rw [if_neg]
      exact fun hlt => ‹¬ _› (Nat.lt_of_le_of_lt le_ofDigitChars hlt)

/-- After digits that were read the others are read. -/
theorem readDigits_append (h : readDigits acc ds = .ok n) :
    readDigits acc (ds ++ cs) = readDigits n cs := by
  induction ds generalizing acc with
  | nil =>
    cases h
    rfl
  | cons c rest ih =>
    rw [readDigits] at h
    rw [List.cons_append, readDigits]
    split at h
    · cases h
    · split at h
      · rename_i hlt
        rw [if_pos hlt]
        exact ih h
      · cases h

/-- Only digits are read. -/
theorem isDecimal_of_readDigits (h : readDigits acc ds = .ok n) : IsDecimal ds := by
  induction ds generalizing acc with
  | nil => exact fun _ hc => nomatch hc
  | cons c rest ih =>
    rw [readDigits] at h
    cases hc : c.isDigit with
    | false =>
      rw [digitValue?_eq_none hc] at h
      cases h
    | true =>
      rw [digitValue?_of_isDigit hc] at h
      dsimp only at h
      split at h
      · exact List.forall_mem_cons.2 ⟨hc, ih h⟩
      · cases h

/-- The digits of a numeral, which are read whatever comes after it. -/
theorem Numeral.exists_digits (h : Numeral cs n) :
    ∃ ds, IsDecimal ds ∧ Nat.ofDigitChars 10 ds 0 = n ∧
      ∀ rest, readNumber (cs ++ rest) = readDigits 0 (ds ++ rest) := by
  cases h with
  | bare hne hds =>
    obtain ⟨c, ds, rfl⟩ := List.exists_cons_of_ne_nil hne
    have hplus : c ≠ '+' := fun he => absurd hds.head (by rw [he]; decide)
    exact ⟨_, hds, rfl, fun rest =>
      readNumber.eq_4 _ (by simp) (by simp [hplus]) (by simp [hplus])⟩
  | signed hne hds =>
    exact ⟨_, hds, rfl, fun rest => readNumber.eq_3 _ fun he => hne (List.append_eq_nil_iff.1 he).1⟩

/-- **A numeral is read** as its number, if that is a word. -/
theorem readNumber_of_numeral (h : Numeral cs n) :
    readNumber cs = if n < wordLimit then .ok n else .error .tooLarge := by
  obtain ⟨ds, hds, rfl, hread⟩ := h.exists_digits
  rw [← List.append_nil cs, hread, List.append_nil, readDigits_of_isDecimal hds (by decide)]

/-- A numeral for a word is not read with another character after it. -/
theorem readNumber_numeral_append (h : Numeral cs n) (hn : n < wordLimit) (hc : c.isDigit = false) :
    readNumber (cs ++ [c]) = .error .invalidDigit := by
  obtain ⟨ds, hds, rfl, hread⟩ := h.exists_digits
  have hdigits := readDigits_of_isDecimal hds (show 0 < wordLimit by decide)
  rw [if_pos hn] at hdigits
  rw [hread, readDigits_append hdigits, readDigits, digitValue?_eq_none hc]

/-- **Only numerals are read.** -/
theorem numeral_of_readNumber (h : readNumber cs = .ok n) : Numeral cs n ∧ n < wordLimit := by
  have hzero : 0 < wordLimit := by decide
  have hread {ds : List Char} (hd : readDigits 0 ds = .ok n) :
      IsDecimal ds ∧ n = Nat.ofDigitChars 10 ds 0 ∧ n < wordLimit := by
    have hds := isDecimal_of_readDigits hd
    rw [readDigits_of_isDecimal hds hzero] at hd
    split at hd
    · cases hd
      exact ⟨hds, rfl, ‹_›⟩
    · cases hd
  unfold readNumber at h
  split at h
  · cases h
  · cases h
  · rename_i ds hne
    obtain ⟨hds, rfl, hlt⟩ := hread h
    exact ⟨.signed hne hds, hlt⟩
  · rename_i hne _ _
    obtain ⟨hds, rfl, hlt⟩ := hread h
    exact ⟨.bare hne hds, hlt⟩

/-- A numeral ends in a digit. -/
theorem Numeral.getLast?_isDigit (h : Numeral cs n) : ∃ c, cs.getLast? = some c ∧ c.isDigit = true := by
  have hlast {ds : List Char} (hne : ds ≠ []) (hds : IsDecimal ds) :
      ∃ c, ds.getLast? = some c ∧ c.isDigit = true :=
    ⟨ds.getLast hne, List.getLast?_eq_some_getLast hne, hds _ (List.getLast_mem hne)⟩
  cases h with
  | bare hne hds => exact hlast hne hds
  | signed hne hds =>
    rw [List.getLast?_cons_of_ne_nil hne]
    exact hlast hne hds

/-- A numeral starts with a sign or a digit. -/
theorem Numeral.head?_eq (h : Numeral cs n) :
    ∃ c, cs.head? = some c ∧ (c = '+' ∨ c.isDigit = true) := by
  cases h with
  | bare hne hds =>
    obtain ⟨c, rest, rfl⟩ := List.exists_cons_of_ne_nil hne
    exact ⟨c, rfl, .inr hds.head⟩
  | signed => exact ⟨'+', rfl, .inl rfl⟩

/-! ## 2. Blanks -/

/-- A text of blanks. -/
def AllBlank (cs : List Char) : Prop := ∀ c ∈ cs, isBlank c = true

instance : Decidable (AllBlank cs) := List.decidableBAll _ cs

theorem not_isBlank_of_isDigit (h : c.isDigit = true) : isBlank c = false := by
  have hc := Char.isDigit_iff_toNat.1 h
  have h0 : '0'.toNat = 48 := rfl
  have h9 : '9'.toNat = 57 := rfl
  simp only [isBlank, Bool.or_eq_false_iff, Bool.and_eq_false_imp, decide_eq_true_eq,
    decide_eq_false_iff_not, beq_eq_false_iff_ne]
  omega

/-- Around a text that starts and ends with no blank, the blanks are taken away. -/
theorem trim_append {before core after : List Char} (hb : AllBlank before) (ha : AllBlank after)
    (hfirst : ∀ c ∈ core.head?, isBlank c = false) (hlast : ∀ c ∈ core.getLast?, isBlank c = false) :
    trim (before ++ core ++ after) = core := by
  have hdrop {cs : List Char} (h : ∀ c ∈ cs.head?, isBlank c = false) : cs.dropWhile isBlank = cs := by
    cases cs with
    | nil => rfl
    | cons c rest => exact List.dropWhile_cons_of_neg (by simp [h c rfl])
  rw [trim, List.append_assoc, List.dropWhile_append_of_pos hb]
  cases core with
  | nil => simp [List.dropWhile_eq_nil_iff.2 ha]
  | cons c rest =>
    have hfirst' : ((c :: rest) ++ after).dropWhile isBlank = (c :: rest) ++ after :=
      hdrop (by simpa using hfirst)
    have hlast' : (c :: rest).reverse.dropWhile isBlank = (c :: rest).reverse :=
      hdrop (by rwa [List.head?_reverse])
    rw [hfirst', List.reverse_append,
      List.dropWhile_append_of_pos (fun c hc => ha c (List.mem_reverse.1 hc)), hlast',
      List.reverse_reverse]

/-- A text that starts and ends with no blank has none around it. -/
theorem trim_eq_self (hfirst : ∀ c ∈ cs.head?, isBlank c = false)
    (hlast : ∀ c ∈ cs.getLast?, isBlank c = false) : trim cs = cs := by
  have hnone : AllBlank [] := by decide
  have h := trim_append hnone hnone hfirst hlast
  rwa [List.nil_append, List.append_nil] at h

/-- A text that starts with a numeral starts with no blank. -/
theorem Numeral.head?_append_not_isBlank (h : Numeral cs n) (rest : List Char) :
    ∀ c ∈ (cs ++ rest).head?, isBlank c = false := by
  obtain ⟨c, hc, hhead⟩ := h.head?_eq
  rw [List.head?_append, hc]
  rintro _ ⟨⟩
  rcases hhead with rfl | hdigit
  · decide
  · exact not_isBlank_of_isDigit hdigit

/-- A text is what is left of it between blanks. -/
theorem exists_eq_trim (cs : List Char) :
    ∃ before after, cs = before ++ trim cs ++ after ∧ AllBlank before ∧ AllBlank after := by
  refine ⟨cs.takeWhile isBlank, ((cs.dropWhile isBlank).reverse.takeWhile isBlank).reverse, ?_,
    fun c hc => List.mem_takeWhile_imp hc,
    fun c hc => List.mem_takeWhile_imp (List.mem_reverse.1 hc)⟩
  rw [trim, List.append_assoc, ← List.reverse_append, List.takeWhile_append_dropWhile,
    List.reverse_reverse, List.takeWhile_append_dropWhile]

end Text

/-! ## 3. Sizes -/

namespace ByteSize

open Text

variable {cs number unit : List Char} {c : Char} {n v shift : Nat}

/-- The letter of a unit in either case, or none for bytes; with the binary logarithm of the unit. -/
inductive UnitText : List Char → Nat → Prop where
  | bytes : UnitText [] 0
  | kilo {c : Char} (h : c = 'k' ∨ c = 'K') : UnitText [c] 10
  | mega {c : Char} (h : c = 'm' ∨ c = 'M') : UnitText [c] 20
  | giga {c : Char} (h : c = 'g' ∨ c = 'G') : UnitText [c] 30

/-- **The texts of sizes**: a numeral for `n` and a unit of `1 <<< shift` bytes, between blanks. -/
inductive Spells : List Char → Nat → Nat → Prop where
  | intro {before number unit after : List Char} {n shift : Nat} (hb : AllBlank before)
    (hn : Numeral number n) (hu : UnitText unit shift) (ha : AllBlank after) :
    Spells (before ++ (number ++ unit) ++ after) n shift

/-- The letter of a unit is no blank. -/
theorem UnitText.not_isBlank (h : UnitText [c] shift) : isBlank c = false := by
  rcases h with _ | (rfl | rfl) | (rfl | rfl) | (rfl | rfl) <;> decide

/-- The letters of units are those that the reader knows. -/
theorem UnitText.ofLetter? (h : UnitText [c] shift) :
    ∃ u, Magnitude.ofLetter? c = some u ∧ u.shift = shift := by
  rcases h with _ | (rfl | rfl) | (rfl | rfl) | (rfl | rfl) <;> exact ⟨_, rfl, rfl⟩

theorem unitText_of_ofLetter? {u : Magnitude} (h : Magnitude.ofLetter? c = some u) :
    UnitText [c] u.shift := by
  unfold Magnitude.ofLetter? at h
  split at h <;> cases h
  · exact .kilo (.inl rfl)
  · exact .kilo (.inr rfl)
  · exact .mega (.inl rfl)
  · exact .mega (.inr rfl)
  · exact .giga (.inl rfl)
  · exact .giga (.inr rfl)

/-- A digit is no letter of a unit. -/
theorem ofLetter?_of_isDigit (h : c.isDigit = true) : Magnitude.ofLetter? c = none := by
  cases hu : Magnitude.ofLetter? c with
  | none => rfl
  | some u =>
    have hunit := unitText_of_ofLetter? hu
    generalize u.shift = shift at hunit
    rcases hunit with _ | (rfl | rfl) | (rfl | rfl) | (rfl | rfl) <;> cases h

/-- A text ends in the unit that is taken off it. -/
theorem exists_eq_splitUnit (cs : List Char) :
    ∃ unit, cs = (splitUnit cs).1 ++ unit ∧ UnitText unit (splitUnit cs).2 := by
  cases hu : cs.getLast?.bind Magnitude.ofLetter? with
  | none => exact ⟨[], by simp [splitUnit, hu], by simpa [splitUnit, hu] using .bytes⟩
  | some u =>
    obtain ⟨c, hc, hletter⟩ := Option.bind_eq_some_iff.1 hu
    refine ⟨[c], ?_, ?_⟩
    · simp [splitUnit, hu, List.dropLast_append_getLast? c hc]
    · simpa [splitUnit, hu] using unitText_of_ofLetter? hletter

/-- The unit after a numeral is taken off. -/
theorem splitUnit_append (hn : Numeral number n) (hu : UnitText unit shift) :
    splitUnit (number ++ unit) = (number, shift) := by
  cases unit with
  | nil =>
    cases hu
    obtain ⟨c, hc, hdigit⟩ := hn.getLast?_isDigit
    simp [splitUnit, hc, ofLetter?_of_isDigit hdigit]
  | cons c rest =>
    have hrest : rest = [] := by cases hu <;> rfl
    subst hrest
    obtain ⟨u, hletter, rfl⟩ := hu.ofLetter?
    simp [splitUnit, hletter]

/-- Between the blanks there is the numeral and its unit. -/
theorem Spells.trim_eq (h : Spells cs n shift) :
    ∃ number unit, trim cs = number ++ unit ∧ Numeral number n ∧ UnitText unit shift := by
  obtain @⟨before, number, unit, after, _, _, hb, hn, hu, ha⟩ := h
  refine ⟨number, unit, trim_append hb ha (hn.head?_append_not_isBlank unit) ?_, hn, hu⟩
  obtain ⟨c, hc, hdigit⟩ := hn.getLast?_isDigit
  cases unit with
  | nil =>
    rw [List.append_nil, hc]
    rintro _ ⟨⟩
    exact not_isBlank_of_isDigit hdigit
  | cons d rest =>
    have hrest : rest = [] := by cases hu <;> rfl
    subst hrest
    rw [List.getLast?_concat]
    rintro _ ⟨⟩
    exact hu.not_isBlank

/-- **What becomes of the text of a size**: it is read, unless the numeral or the size is no word. -/
theorem Spells.readSize_eq (h : Spells cs n shift) : readSize cs =
    if n < wordLimit then
      if n * (1 <<< shift) < wordLimit then .ok (n * (1 <<< shift)) else .error (.tooLarge (trim cs))
    else .error (.number (trim cs) .tooLarge) := by
  obtain ⟨number, unit, htrim, hn, hu⟩ := h.trim_eq
  have hshift : n <<< shift = n * (1 <<< shift) := by rw [Nat.shiftLeft_eq, Nat.one_shiftLeft]
  simp only [readSize, htrim, splitUnit_append hn hu, readNumber_of_numeral hn, ← hshift]
  by_cases hlt : n < wordLimit
  · simp only [if_pos hlt]
  · simp only [if_neg hlt]

/-- **Only texts of sizes are read.** -/
theorem spells_of_readSize (h : readSize cs = .ok v) :
    ∃ n shift, Spells cs n shift ∧ v = n * (1 <<< shift) ∧ v < wordLimit := by
  obtain ⟨before, after, hcs, hb, ha⟩ := exists_eq_trim cs
  obtain ⟨unit, htrim, hu⟩ := exists_eq_splitUnit (trim cs)
  unfold readSize at h
  dsimp only at h
  split at h
  · cases h
  · rename_i n hread
    obtain ⟨hn, -⟩ := numeral_of_readNumber hread
    split at h
    · cases h
      refine ⟨n, _, ?_, by rw [Nat.shiftLeft_eq, Nat.one_shiftLeft], ‹_›⟩
      have hs := Spells.intro hb hn hu ha
      rwa [← htrim, ← hcs] at hs
    · cases h

/-- **What is read** are the texts of sizes that are words. -/
theorem readSize_eq_ok : readSize cs = .ok v ↔
    ∃ n shift, Spells cs n shift ∧ v = n * (1 <<< shift) ∧ v < wordLimit := by
  refine ⟨spells_of_readSize, ?_⟩
  rintro ⟨n, shift, hs, rfl, hlt⟩
  have hn : n < wordLimit := by
    refine Nat.lt_of_le_of_lt ?_ hlt
    rw [Nat.one_shiftLeft]
    exact Nat.le_mul_of_pos_right n (Nat.two_pow_pos shift)
  rw [hs.readSize_eq, if_pos hn, if_pos hlt]

/-- **The reader of sizes decides which texts are sizes.**  It accepts a text exactly if it is that of
a size which is a word, and gives that size; to all other texts it answers with an error.  Of the
texts of sizes it refuses those in which the numeral is no word, and those of which only the multiple
by the unit is none, each for its cause. -/
theorem readSize_decides (cs : List Char) :
    (∀ v, readSize cs = .ok v ↔
      ∃ n shift, Spells cs n shift ∧ v = n * (1 <<< shift) ∧ v < wordLimit) ∧
    ((∃ e, readSize cs = .error e) ↔
      ∀ n shift, Spells cs n shift → wordLimit ≤ n * (1 <<< shift)) ∧
    ∀ n shift, Spells cs n shift →
      (readSize cs = .error (.number (trim cs) .tooLarge) ↔ wordLimit ≤ n) ∧
      (readSize cs = .error (.tooLarge (trim cs)) ↔
        n < wordLimit ∧ wordLimit ≤ n * (1 <<< shift)) := by
  refine ⟨fun v => readSize_eq_ok, ⟨?_, ?_⟩, fun n shift hs => ?_⟩
  · rintro ⟨e, he⟩ n shift hs
    refine Nat.not_lt.1 fun hlt => ?_
    cases he.symm.trans (readSize_eq_ok.2 ⟨n, shift, hs, rfl, hlt⟩)
  · intro hlarge
    cases hr : readSize cs with
    | error e => exact ⟨e, rfl⟩
    | ok v =>
      obtain ⟨n, shift, hs, rfl, hlt⟩ := readSize_eq_ok.1 hr
      exact absurd hlt (Nat.not_lt.2 (hlarge n shift hs))
  · rw [hs.readSize_eq]
    by_cases hn : n < wordLimit
    · by_cases hv : n * (1 <<< shift) < wordLimit
      · simp [hn, hv]
      · simp [hn, hv, Nat.not_lt.1 hv]
    · simp [hn, Nat.not_lt.1 hn]

/-- Blanks and a `+` do no harm, and a size at the limit of words is refused after the shift. -/
theorem readSize_decides_limit :
    Spells " +16M\n".toList 16 20 ∧ readSize " +16M\n".toList = .ok 16777216 ∧
    Spells "17179869184g".toList 17179869184 30 ∧
    readSize "17179869184g".toList = .error (.tooLarge "17179869184g".toList) := by
  have hplus : Spells " +16M\n".toList 16 20 :=
    .intro (show AllBlank [' '] by decide) (.signed (show ['1', '6'] ≠ [] by decide) (by decide))
      (.mega (.inr rfl)) (show AllBlank ['\n'] by decide)
  have hlimit : Spells "17179869184g".toList 17179869184 30 :=
    .intro (show AllBlank [] by decide) (.bare (show "17179869184".toList ≠ [] by decide) (by decide))
      (.giga (.inl rfl)) (show AllBlank [] by decide)
  exact ⟨hplus, ((readSize_decides _).1 _).2 ⟨16, 20, hplus, by decide, by decide⟩, hlimit,
    ((readSize_decides _).2.2 _ _ hlimit).2.2 ⟨by decide, by decide⟩⟩

/-! ## 4. Sizes that are written -/

namespace Magnitude

/-- The unit is the largest of those that divide a size, which is not zero. -/
structure IsLargestOf (u : Magnitude) (n : Nat) : Prop where
  ne_zero : n ≠ 0
  dvd : u.bytes ∣ n
  le : ∀ v : Magnitude, v.bytes ∣ n → v.bytes ≤ u.bytes

variable {u : Magnitude}

/-- The unit that is chosen is the largest. -/
theorem isLargestOf_of_dividing? (h : dividing? n = some u) : u.IsLargestOf n := by
  revert h
  fun_cases dividing? n with
  | case1 | case5 => exact fun h => nomatch h
  | case2 hne hg =>
    rintro ⟨⟩
    exact ⟨hne, Nat.dvd_of_mod_eq_zero hg, fun v _ => by cases v <;> decide⟩
  | case3 hne hg hm =>
    rintro ⟨⟩
    refine ⟨hne, Nat.dvd_of_mod_eq_zero hm, fun v hv => ?_⟩
    cases v with
    | giga => exact absurd (Nat.mod_eq_zero_of_dvd hv) hg
    | mega | kilo => decide
  | case4 hne hg hm hk =>
    rintro ⟨⟩
    refine ⟨hne, Nat.dvd_of_mod_eq_zero hk, fun v hv => ?_⟩
    cases v with
    | giga => exact absurd (Nat.mod_eq_zero_of_dvd hv) hg
    | mega => exact absurd (Nat.mod_eq_zero_of_dvd hv) hm
    | kilo => exact Nat.le_refl _

/-- The smallest unit divides the others. -/
theorem kilo_dvd (u : Magnitude) : kilo.bytes ∣ u.bytes := by cases u <;> decide

/-- No unit is chosen for zero, and none for what is no multiple of the smallest. -/
theorem dividing?_eq_none : dividing? n = none ↔ n = 0 ∨ ¬ kilo.bytes ∣ n := by
  constructor
  · fun_cases dividing? n with
    | case1 hzero => exact fun _ => .inl hzero
    | case2 | case3 | case4 => exact fun h => nomatch h
    | case5 _ _ _ hk => exact fun _ => .inr fun hd => hk (Nat.mod_eq_zero_of_dvd hd)
  · intro h
    cases hu : dividing? n with
    | none => rfl
    | some u =>
      have hlargest := isLargestOf_of_dividing? hu
      exact absurd (Nat.dvd_trans (kilo_dvd u) hlargest.dvd) (h.resolve_left hlargest.ne_zero)

/-- The letter of a unit stands for it. -/
theorem unitText_letter (u : Magnitude) : UnitText u.letter.toList u.shift := by
  cases u with
  | kilo => exact .kilo (.inr rfl)
  | mega => exact .mega (.inr rfl)
  | giga => exact .giga (.inr rfl)

end Magnitude

/-- A number is written as a numeral for it. -/
theorem numeral_toString (n : Nat) : Numeral (toString n).toList n := by
  have hds : IsDecimal (Nat.toDigits 10 n) := fun _ hc =>
    Nat.isDigit_of_mem_toDigits (by decide) (by decide) hc
  have h := Numeral.bare Nat.toDigits_ne_nil hds
  rwa [Nat.ofDigitChars_toDigits (by decide) (by decide), ← Nat.toList_repr] at h

/-- A numeral and a unit are the text of a size, with no blank around them. -/
theorem Spells.of_append (hn : Numeral number n) (hu : UnitText unit shift) :
    Spells (number ++ unit) n shift := by
  have hnone : AllBlank [] := by decide
  have h := Spells.intro hnone hn hu hnone
  rwa [List.nil_append, List.append_nil] at h

section
variable {u : Magnitude}

/-- **A size that is written in a unit that divides it** is read. -/
theorem readSize_textIn (hd : u.bytes ∣ n) (hn : n < wordLimit) :
    readSize (textIn (some u) n).toList = .ok n := by
  have hs : Spells (textIn (some u) n).toList (n / u.bytes) u.shift := by
    rw [textIn, String.toList_append]
    exact .of_append (numeral_toString _) u.unitText_letter
  exact readSize_eq_ok.2 ⟨_, _, hs, (Nat.div_mul_cancel hd).symm, hn⟩

/-- A size that is written without a unit is read. -/
theorem readSize_toString (hn : n < wordLimit) : readSize (toString n).toList = .ok n := by
  have hs := Spells.of_append (numeral_toString n) .bytes
  rw [List.append_nil] at hs
  exact readSize_eq_ok.2 ⟨_, _, hs, (Nat.mul_one n).symm, hn⟩

/-- **A size that is written in bytes** is not read: its letter stands for no unit, and is no digit. -/
theorem readSize_textIn_none (hn : n < wordLimit) : readSize (textIn none n).toList =
    .error (.number (textIn none n).toList .invalidDigit) := by
  have hnum := numeral_toString n
  have htext : (textIn none n).toList = (toString n).toList ++ ['B'] := String.toList_append
  have hlast : ((toString n).toList ++ ['B']).getLast? = some 'B' := List.getLast?_concat
  have htrim : trim ((toString n).toList ++ ['B']) = (toString n).toList ++ ['B'] := by
    refine trim_eq_self (hnum.head?_append_not_isBlank ['B']) ?_
    rw [hlast]
    rintro _ ⟨⟩
    decide
  have hsplit : splitUnit ((toString n).toList ++ ['B']) = ((toString n).toList ++ ['B'], 0) := by
    rw [splitUnit, hlast]
    rfl
  have hread := readNumber_numeral_append hnum hn (show 'B'.isDigit = false by decide)
  rw [htext]
  simp only [readSize, htrim, hsplit, hread]

end

/-- **What is written of a size, and what is read of that.**  A size that a unit divides is written in
the largest such unit, and read as what it was.  Zero and a size that no unit divides are written in
bytes.  That text is refused for the letter at its end, without which it would be read as what it
was. -/
theorem exactText_read_back (hn : n < wordLimit) :
    (n ≠ 0 → Magnitude.kilo.bytes ∣ n → ∃ u : Magnitude, u.IsLargestOf n ∧
      exactText n = toString (n / u.bytes) ++ u.letter ∧ readSize (exactText n).toList = .ok n) ∧
    (n = 0 ∨ ¬ Magnitude.kilo.bytes ∣ n → exactText n = toString n ++ "B" ∧
      readSize (exactText n).toList = .error (.number (exactText n).toList .invalidDigit) ∧
      readSize (toString n).toList = .ok n) := by
  constructor
  · intro hne hd
    cases hu : Magnitude.dividing? n with
    | none => exact absurd hd ((Magnitude.dividing?_eq_none.1 hu).resolve_left hne)
    | some u =>
      have hlargest := Magnitude.isLargestOf_of_dividing? hu
      have htext : exactText n = textIn (some u) n := by rw [exactText, hu]
      exact ⟨u, hlargest, htext, htext ▸ readSize_textIn hlargest.dvd hn⟩
  · intro hnone
    have htext : exactText n = textIn none n := by
      rw [exactText, Magnitude.dividing?_eq_none.2 hnone]
    exact ⟨htext, htext ▸ readSize_textIn_none hn, readSize_toString hn⟩

/-- A gigabyte and a half is a whole number of megabytes; a thousand bytes are no whole number of
kilobytes. -/
theorem exactText_read_back_samples :
    1610612736 < wordLimit ∧ Magnitude.kilo.bytes ∣ 1610612736 ∧ exactText 1610612736 = "1536M" ∧
    readSize (exactText 1610612736).toList = .ok 1610612736 ∧
    1000 < wordLimit ∧ ¬ Magnitude.kilo.bytes ∣ 1000 ∧ exactText 1000 = "1000B" ∧
    readSize (exactText 1000).toList = .error (.number (exactText 1000).toList .invalidDigit) ∧
    readSize (toString 1000).toList = .ok 1000 := by
  have hlarge : 1610612736 < wordLimit := by decide
  have hsmall : 1000 < wordLimit := by decide
  have hd : Magnitude.kilo.bytes ∣ 1610612736 := by decide
  have hnd : ¬ Magnitude.kilo.bytes ∣ 1000 := by decide
  obtain ⟨_, -, -, hread⟩ := (exactText_read_back hlarge).1 (by decide) hd
  obtain ⟨htext, hrefused, hnumber⟩ := (exactText_read_back hsmall).2 (.inr hnd)
  exact ⟨hlarge, hd, by decide, hread, hsmall, hnd, htext, hrefused, hnumber⟩

/-- Not each size is read back from what is written of it. -/
theorem exactText_not_read_back :
    17 < wordLimit ∧ exactText 17 = "17B" ∧ readSize (exactText 17).toList ≠ .ok 17 := by
  have hn : 17 < wordLimit := by decide
  have htext : exactText 17 = textIn none 17 := by decide
  refine ⟨hn, by decide, ?_⟩
  rw [htext, readSize_textIn_none hn]
  exact fun h => nomatch h

end ByteSize

end ManagedHeap
