/-
# Settings one by one

What a setting does is said here without the code that sets.  Each option has a kind of values, which
says what texts stand for them (`ValueKind.Reads`), and a condition of its own
(`OptionName.Accepts`).  A setting is applied exactly if its name is that of an option and its text
stands for a value that the option accepts; then this option has that value and all others are as
they were.  Otherwise nothing changes (`Options.Settled`).

A line of settings is applied word by word from the left.  If it is refused, the words before the
first bad one are in force, and the bad one and those after it are not (`Options.LineOutcome`).

Both are parts of `Options.settings_atomic`.  It says besides that options of which each passes its own
condition do so after any calls: a call is made of steps, in which one option changes to a value that it
accepts (`Options.Step`).  What options must satisfy together is not a matter of settings.

* Section 1: kinds of values, and the condition of each option.
* Section 2: one setting.
* Section 3: the words of a line, and what stands on the sides of an equals sign.
* Section 4: lines, environment variables, and any calls.
-/
import ManagedHeap.Proofs.Settings
import Mathlib.Logic.Relation

namespace ManagedHeap

/-! ## 1. Values -/

/-- The kinds of values that options have. -/
inductive ValueKind where
  | collector | heuristics | flag | count | size
  deriving DecidableEq, Repr

/-- The texts that stand for the values of a kind. -/
inductive ValueKind.Reads (text : String) : ValueKind → OptionValue → Prop where
  | collector {c : Collector} (h : text = c.name) : Reads text .collector (.word c.name)
  | heuristics {r : Heuristics} (h : text = r.name) : Reads text .heuristics (.word r.name)
  | flag {b : Bool} (h : text = toString b) : Reads text .flag (.flag b)
  | count {n : Nat} (h : Text.Numeral text.toList n) (hn : n < wordLimit) :
    Reads text .count (.number n)
  | size {n shift : Nat} (h : ByteSize.Spells text.toList n shift)
    (hn : n * (1 <<< shift) < wordLimit) : Reads text .size (.number (n * (1 <<< shift)))

namespace OptionName

/-- The kind of values that an option has. -/
def kind : OptionName → ValueKind
  | collector => .collector
  | heuristics => .heuristics
  | exitOnOutOfMemory | elasticTlab | elasticTlabDecay | selfHealing | cardBarrier => .flag
  | tlabDecayTime | printHeapSteps | garbageThreshold | minFreeThreshold | evacReserve
  | concGcThreads | satbBufferSize | controlInterval => .count
  | initialHeapSize | maxHeapSize | minHeapExpand | minTlabSize | maxTlabSize
  | updateCountersStep | regionSize => .size

/-- The condition on the numbers of an option. -/
def Condition : OptionName → Nat → Prop
  | printHeapSteps, _ => True
  | regionSize, n => n.isPowerOfTwo ∧ pageBytes ≤ n
  | garbageThreshold, n | minFreeThreshold, n | evacReserve, n => n ≤ 100
  | _, n => 0 < n

/-- **The values that an option accepts**: numbers are words that satisfy its condition. -/
def Accepts (name : OptionName) : OptionValue → Prop
  | .number n => n < wordLimit ∧ name.Condition n
  | _ => True

/-- The text stands for the value `v`, which the option accepts. -/
structure Takes (name : OptionName) (text : String) (v : OptionValue) : Prop where
  reads : name.kind.Reads text v
  accepts : name.Accepts v

end OptionName

/-- The name is that of an option, and the text stands for a value that this option accepts. -/
def Settable (name text : String) : Prop := ∃ n v, OptionName.snake n = name ∧ n.Takes text v

namespace Collector

theorem name_injective {c c' : Collector} (h : c.name = c'.name) : c = c' := by
  cases c <;> cases c' <;> first | rfl | exact absurd h (by decide)

theorem ofName?_eq_some {s : String} {c : Collector} : ofName? s = some c ↔ s = c.name := by
  constructor
  · intro h
    simpa [eq_comm] using List.find?_some h
  · rintro rfl
    cases c <;> rfl

end Collector

namespace Heuristics

theorem name_injective {r r' : Heuristics} (h : r.name = r'.name) : r = r' := by
  cases r <;> cases r' <;> first | rfl | exact absurd h (by decide)

theorem ofName?_eq_some {s : String} {r : Heuristics} : ofName? s = some r ↔ s = r.name := by
  constructor
  · intro h
    simpa [eq_comm] using List.find?_some h
  · rintro rfl
    cases r <;> rfl

end Heuristics

theorem OptionName.ofSnake?_eq_some {s : String} {n : OptionName} :
    ofSnake? s = some n ↔ n.snake = s := by
  constructor
  · intro h
    simpa using List.find?_some h
  · rintro rfl
    cases n <;> rfl

/-! ## 2. One setting -/

namespace ValueReader

variable {α : Type} {name : OptionName} {text : String}

/-- The reader accepts what the option takes: `asValue v` is the value that `v` stands for. -/
def Fits (r : ValueReader α) (name : OptionName) (asValue : α → OptionValue) : Prop :=
  ∀ text w, (∃ v, r.read text = some v ∧ r.accepts v = true ∧ asValue v = w) ↔ name.Takes text w

theorem fits_collector (hk : name.kind = .collector) :
    collector.Fits name (.word ·.name) := by
  intro text w
  constructor
  · rintro ⟨c, hread, -, rfl⟩
    exact ⟨hk ▸ .collector (Collector.ofName?_eq_some.1 hread), trivial⟩
  · rintro ⟨hread, -⟩
    rw [hk] at hread
    cases hread with
    | collector h => exact ⟨_, Collector.ofName?_eq_some.2 h, rfl, rfl⟩

theorem fits_heuristics (hk : name.kind = .heuristics) :
    heuristics.Fits name (.word ·.name) := by
  intro text w
  constructor
  · rintro ⟨r, hread, -, rfl⟩
    exact ⟨hk ▸ .heuristics (Heuristics.ofName?_eq_some.1 hread), trivial⟩
  · rintro ⟨hread, -⟩
    rw [hk] at hread
    cases hread with
    | heuristics h => exact ⟨_, Heuristics.ofName?_eq_some.2 h, rfl, rfl⟩

theorem fits_flag (hk : name.kind = .flag) : flag.Fits name .flag := by
  have hflag {text : String} {b : Bool} : flag.read text = some b ↔ text = toString b := by
    constructor
    · intro h
      simp only [flag] at h
      split at h
      · cases h
        assumption
      · split at h <;> cases h
        assumption
    · rintro rfl
      cases b <;> rfl
  intro text w
  constructor
  · rintro ⟨b, hread, -, rfl⟩
    exact ⟨hk ▸ .flag (hflag.1 hread), trivial⟩
  · rintro ⟨hread, -⟩
    rw [hk] at hread
    cases hread with
    | flag h => exact ⟨_, hflag.2 h, rfl, rfl⟩

theorem fits_count {accepts : Nat → Bool} (hk : name.kind = .count)
    (hc : ∀ n < wordLimit, accepts n = true ↔ name.Condition n) :
    (count accepts).Fits name .number := by
  intro text w
  constructor
  · rintro ⟨n, hread, haccepts, rfl⟩
    obtain ⟨hn, hlt⟩ := Text.numeral_of_readNumber (toOption_eq_some.1 hread)
    exact ⟨hk ▸ .count hn hlt, hlt, (hc n hlt).1 haccepts⟩
  · rintro ⟨hread, haccepts⟩
    rw [hk] at hread
    cases hread with
    | count h hn =>
      refine ⟨_, toOption_eq_some.2 ?_, (hc _ hn).2 haccepts.2, rfl⟩
      rw [Text.readNumber_of_numeral h, if_pos hn]

theorem fits_size {accepts : Nat → Bool} (hk : name.kind = .size)
    (hc : ∀ n < wordLimit, accepts n = true ↔ name.Condition n) :
    (size accepts).Fits name .number := by
  intro text w
  constructor
  · rintro ⟨v, hread, haccepts, rfl⟩
    obtain ⟨n, shift, hs, rfl, hlt⟩ :=
      ByteSize.readSize_eq_ok.1 (toOption_eq_some.1 hread)
    exact ⟨hk ▸ .size hs hlt, hlt, (hc _ hlt).1 haccepts⟩
  · rintro ⟨hread, haccepts⟩
    rw [hk] at hread
    cases hread with
    | size h hn =>
      have hread := ByteSize.readSize_eq_ok.2 ⟨_, _, h, rfl, hn⟩
      exact ⟨_, toOption_eq_some.2 hread, (hc _ hn).2 haccepts.2, rfl⟩

end ValueReader

theorem positive_iff (n : Nat) : positive n = true ↔ 0 < n := decide_eq_true_iff

theorem upToHundred_iff (n : Nat) : upToHundred n = true ↔ n ≤ 100 := decide_eq_true_iff

/-- The check looks at each bit of a word. -/
theorem isPowerOfTwo_iff {n : Nat} (hlt : n < wordLimit) : isPowerOfTwo n = true ↔ n.isPowerOfTwo := by
  refine ⟨isPowerOfTwo_of_eq_true, ?_⟩
  rintro ⟨k, rfl⟩
  have hk : k < 64 := (Nat.pow_lt_pow_iff_right (by decide)).1 hlt
  exact List.any_eq_true.2 ⟨k, List.mem_range.2 hk, by simp [Nat.one_shiftLeft]⟩

theorem isRegionSize_iff {n : Nat} (hlt : n < wordLimit) :
    isRegionSize n = true ↔ n.isPowerOfTwo ∧ pageBytes ≤ n := by
  rw [isRegionSize, Bool.and_eq_true, isPowerOfTwo_iff hlt, decide_eq_true_iff]

namespace Options

variable {o o' : Options} {name : OptionName} {text : String} {v : OptionValue}

/-- The options `o'` are `o` with the value `v` for the option `name`, and nothing else changed. -/
structure Sets (o : Options) (name : OptionName) (v : OptionValue) (o' : Options) : Prop where
  value_eq : o'.value name = v
  value_ne : ∀ k, k ≠ name → o'.value k = o.value k

/-- The values are all that options have. -/
theorem ext_value (h : ∀ n, o.value n = o'.value n) : o = o' := by
  have hnumber (n : OptionName) {x y : Nat} (hx : o.value n = .number x)
      (hy : o'.value n = .number y) : x = y :=
    OptionValue.number.inj (hx.symm.trans ((h n).trans hy))
  have hflag (n : OptionName) {x y : Bool} (hx : o.value n = .flag x)
      (hy : o'.value n = .flag y) : x = y :=
    OptionValue.flag.inj (hx.symm.trans ((h n).trans hy))
  have hc := Collector.name_injective (OptionValue.word.inj (h .collector))
  have hr := Heuristics.name_injective (OptionValue.word.inj (h .heuristics))
  cases o
  cases o'
  cases hc
  cases hr
  congr 1
  · exact hnumber .initialHeapSize rfl rfl
  · exact hnumber .maxHeapSize rfl rfl
  · exact hnumber .minHeapExpand rfl rfl
  · exact hnumber .minTlabSize rfl rfl
  · exact hnumber .maxTlabSize rfl rfl
  · exact hflag .exitOnOutOfMemory rfl rfl
  · exact hflag .elasticTlab rfl rfl
  · exact hflag .elasticTlabDecay rfl rfl
  · exact hnumber .tlabDecayTime rfl rfl
  · exact hnumber .printHeapSteps rfl rfl
  · exact hnumber .updateCountersStep rfl rfl
  · exact hnumber .regionSize rfl rfl
  · exact hnumber .garbageThreshold rfl rfl
  · exact hnumber .minFreeThreshold rfl rfl
  · exact hnumber .evacReserve rfl rfl
  · exact hnumber .concGcThreads rfl rfl
  · exact hnumber .satbBufferSize rfl rfl
  · exact hflag .selfHealing rfl rfl
  · exact hflag .cardBarrier rfl rfl
  · exact hnumber .controlInterval rfl rfl

/-- A changed option is determined by its value. -/
theorem Sets.unique {o₁ o₂ : Options} (h₁ : o.Sets name v o₁) (h₂ : o.Sets name v o₂) : o₁ = o₂ := by
  refine ext_value fun k => ?_
  by_cases hk : k = name
  · rw [hk, h₁.value_eq, h₂.value_eq]
  · rw [h₁.value_ne k hk, h₂.value_ne k hk]

/-- What a setting of the option `name` gives when `P` holds of the values that it may be set to. -/
structure Yields (o : Options) (name : OptionName) (P : OptionValue → Prop)
    (result : Except SettingError Options) : Prop where
  eq_ok_iff : ∀ o', result = .ok o' ↔ ∃ v, P v ∧ o.Sets name v o'
  exists_eq_ok : ∀ v, P v → ∃ o', result = .ok o'

/-- A value that a fitting reader reads, and that is put in its place. -/
theorem yields_map_run {α : Type} {r : ValueReader α} {asValue : α → OptionValue} {put : α → Options}
    (hf : r.Fits name asValue) (hput : ∀ v, o.Sets name (asValue v) (put v)) :
    o.Yields name (name.Takes text) ((r.run name text).map put) := by
  have hrun {w : OptionValue} (hw : name.Takes text w) :
      ∃ v, (r.run name text).map put = .ok (put v) ∧ asValue v = w := by
    obtain ⟨v, hread, haccepts, rfl⟩ := (hf text w).2 hw
    exact ⟨v, by rw [ValueReader.run_eq_ok.2 ⟨hread, haccepts⟩]; rfl, rfl⟩
  refine ⟨fun o' => ⟨fun h => ?_, ?_⟩, fun w hw => ?_⟩
  · obtain ⟨v, hv, rfl⟩ := exists_of_map_eq_ok h
    obtain ⟨hread, haccepts⟩ := ValueReader.run_eq_ok.1 hv
    exact ⟨_, (hf text _).1 ⟨v, hread, haccepts, rfl⟩, hput v⟩
  · rintro ⟨w, hw, hsets⟩
    obtain ⟨v, hv, rfl⟩ := hrun hw
    rw [hv, hsets.unique (hput v)]
  · obtain ⟨v, hv, -⟩ := hrun hw
    exact ⟨_, hv⟩

/-- **One setting.**  An option is set exactly if the text stands for a value that it accepts, and
then this option alone has changed, to that value. -/
theorem yields_set : o.Yields name (name.Takes text) (o.set name text) := by
  -- The readers are those of the kinds, and the checks those of the conditions.
  cases name <;> apply yields_map_run
  case collector.hf => exact ValueReader.fits_collector rfl
  case heuristics.hf => exact ValueReader.fits_heuristics rfl
  case exitOnOutOfMemory.hf | elasticTlab.hf | elasticTlabDecay.hf | selfHealing.hf
      | cardBarrier.hf =>
    exact ValueReader.fits_flag rfl
  case initialHeapSize.hf | maxHeapSize.hf | minHeapExpand.hf | minTlabSize.hf
      | maxTlabSize.hf | updateCountersStep.hf =>
    exact ValueReader.fits_size rfl fun n _ => positive_iff n
  case regionSize.hf => exact ValueReader.fits_size rfl fun n hn => isRegionSize_iff hn
  case tlabDecayTime.hf | concGcThreads.hf | satbBufferSize.hf | controlInterval.hf =>
    exact ValueReader.fits_count rfl fun n _ => positive_iff n
  case printHeapSteps.hf =>
    exact ValueReader.fits_count rfl fun _ _ => ⟨fun _ => trivial, fun _ => rfl⟩
  case garbageThreshold.hf | minFreeThreshold.hf | evacReserve.hf =>
    exact ValueReader.fits_count rfl fun n _ => upToHundred_iff n
  all_goals exact fun v => ⟨rfl, fun k hk => by cases k <;> first | rfl | exact absurd rfl hk⟩

theorem setSnake_eq_ok_iff {s : String} : o.setSnake s text = .ok o' ↔
    ∃ n v, OptionName.snake n = s ∧ n.Takes text v ∧ o.Sets n v o' := by
  constructor
  · intro h
    unfold setSnake at h
    split at h
    · rename_i n hn
      obtain ⟨v, hv, hsets⟩ := (yields_set.eq_ok_iff o').1 h
      exact ⟨n, v, OptionName.ofSnake?_eq_some.1 hn, hv, hsets⟩
    · cases h
  · rintro ⟨n, v, hn, hv, hsets⟩
    rw [setSnake, OptionName.ofSnake?_eq_some.2 hn]
    exact (yields_set.eq_ok_iff o').2 ⟨v, hv, hsets⟩

theorem exists_setSnake_eq_ok {s : String} (h : Settable s text) : ∃ o', o.setSnake s text = .ok o' := by
  obtain ⟨n, v, hn, hv⟩ := h
  rw [setSnake, OptionName.ofSnake?_eq_some.2 hn]
  exact yields_set.exists_eq_ok v hv

/-- **What becomes of one setting**: it is applied if it can be, and else nothing changes. -/
structure Settled (o : Options) (name text : String) (r : SettingRun) : Prop where
  applied_iff : ∀ o', r.complete = true ∧ r.options = o' ↔
    ∃ n v, OptionName.snake n = name ∧ n.Takes text v ∧ o.Sets n v o'
  refused_iff : r.complete = false ↔ ¬ Settable name text
  unchanged : r.complete = false → r.options = o

/-- **One setting by name.** -/
theorem settled_setSnake (o : Options) (s text : String) :
    o.Settled s text (.single o (o.setSnake s text)) := by
  cases h : o.setSnake s text with
  | ok o₁ =>
    obtain ⟨n, v, hn, hv, -⟩ := setSnake_eq_ok_iff.1 h
    refine ⟨fun o' => ?_, ?_, fun hc => Bool.noConfusion hc⟩
    · rw [← setSnake_eq_ok_iff, h, Except.ok.injEq]
      exact and_iff_right rfl
    · exact iff_of_false (fun hc => Bool.noConfusion hc) fun hns => hns ⟨n, v, hn, hv⟩
  | error e =>
    refine ⟨fun o' => ?_, iff_of_true rfl fun hs => ?_, fun _ => rfl⟩
    · rw [← setSnake_eq_ok_iff, h]
      exact iff_of_false (fun hc => Bool.noConfusion hc.1) nofun
    · obtain ⟨o', ho'⟩ := exists_setSnake_eq_ok (o := o) hs
      cases h.symm.trans ho'

end Options

/-! ## 3. Words and their sides -/

namespace Text

variable {sep : Char → Bool} {c : Char} {cs w : List Char} {ws : List (List Char)}

/-- A text without separators is one piece. -/
theorem splitAt_eq_singleton (h : ∀ c ∈ w, sep c = false) : splitAt sep w = [w] := by
  induction w with
  | nil => rfl
  | cons c rest ih =>
    obtain ⟨hc, hrest⟩ := List.forall_mem_cons.1 h
    rw [splitAt, hc, ih hrest]
    rfl

/-- The first piece goes up to the first separator. -/
theorem splitAt_append_cons (h : ∀ c ∈ w, sep c = false) (hc : sep c = true) :
    splitAt sep (w ++ c :: cs) = w :: splitAt sep cs := by
  induction w with
  | nil => rw [List.nil_append, splitAt, if_pos hc]
  | cons d rest ih =>
    obtain ⟨hd, hrest⟩ := List.forall_mem_cons.1 h
    rw [List.cons_append, splitAt, hd, ih hrest]
    rfl

/-- A text has no separators, or a first one. -/
theorem splits (sep : Char → Bool) (cs : List Char) : (∀ c ∈ cs, sep c = false) ∨
    ∃ w c rest, cs = w ++ c :: rest ∧ (∀ d ∈ w, sep d = false) ∧ sep c = true := by
  cases hd : cs.dropWhile (!sep ·) with
  | nil => exact .inl fun c hc => by simpa using List.dropWhile_eq_nil_iff.1 hd c hc
  | cons c rest =>
    refine .inr ⟨cs.takeWhile (!sep ·), c, rest, ?_, fun d hm => ?_, ?_⟩
    · rw [← hd, List.takeWhile_append_dropWhile]
    · simpa using List.mem_takeWhile_imp hm
    · have hhead := List.head?_dropWhile_not (!sep ·) cs
      rw [hd] at hhead
      simpa using hhead

/-- There is a piece in every text. -/
theorem splitAt_ne_nil (sep : Char → Bool) (cs : List Char) : splitAt sep cs ≠ [] := by
  rcases splits sep cs with h | ⟨w, c, rest, rfl, hw, hc⟩
  · simp [splitAt_eq_singleton h]
  · simp [splitAt_append_cons hw hc]

/-- **The words of a text**: what stands between blanks, as far as it is not empty. -/
inductive Spaced : List Char → List (List Char) → Prop where
  | nil : Spaced [] []
  | blank {c : Char} {cs : List Char} {ws : List (List Char)} (hc : isAsciiBlank c = true)
    (h : Spaced cs ws) : Spaced (c :: cs) ws
  | last {w : List Char} (hne : w ≠ []) (hw : ∀ c ∈ w, isAsciiBlank c = false) : Spaced w [w]
  | word {w : List Char} {c : Char} {cs : List Char} {ws : List (List Char)} (hne : w ≠ [])
    (hw : ∀ c ∈ w, isAsciiBlank c = false) (hc : isAsciiBlank c = true) (h : Spaced cs ws) :
    Spaced (w ++ c :: cs) (w :: ws)

theorem Spaced.eq_asciiWords (h : Spaced cs ws) : ws = asciiWords cs := by
  induction h with
  | nil => rfl
  | blank hc _ ih =>
    rw [ih, asciiWords, asciiWords, splitAt, if_pos hc]
    rfl
  | last hne hw => simp [asciiWords, splitAt_eq_singleton hw, hne]
  | word hne hw hc _ ih => simp [ih, asciiWords, splitAt_append_cons hw hc, hne]

theorem spaced_asciiWords (cs : List Char) : Spaced cs (asciiWords cs) := by
  -- A text that is not used up has a first blank, and what follows it is shorter.
  induction hn : cs.length using Nat.strong_induction_on generalizing cs with
  | _ n ih =>
    rcases splits isAsciiBlank cs with hw | ⟨w, c, rest, rfl, hw, hc⟩
    · cases cs with
      | nil => exact .nil
      | cons c rest =>
        have h := Spaced.last (List.cons_ne_nil c rest) hw
        rwa [h.eq_asciiWords] at h
    · have hrest := ih rest.length (by simp at hn; omega) rest rfl
      cases w with
      | nil =>
        have h := hrest.blank hc
        rwa [h.eq_asciiWords] at h
      | cons d w =>
        have h := hrest.word (List.cons_ne_nil d w) hw hc
        rwa [h.eq_asciiWords] at h

end Text

/-- A word that gives a name and a text, with one equals sign between them. -/
structure IsSetting (word : List Char) (name text : String) : Prop where
  word_eq : word = name.toList ++ '=' :: text.toList
  name_ne : '=' ∉ name.toList
  text_ne : '=' ∉ text.toList

section

variable {word : List Char} {name text : String}

private theorem notEqual_iff {w : List Char} : (∀ c ∈ w, decide (c = '=') = false) ↔ '=' ∉ w := by
  simp only [decide_eq_false_iff_not]
  exact ⟨fun h hm => h _ hm rfl, fun h c hc he => h (he ▸ hc)⟩

theorem IsSetting.splitSetting?_eq (h : IsSetting word name text) :
    splitSetting? word = some (name, text) := by
  rw [splitSetting?, h.word_eq, Text.splitAt_append_cons (notEqual_iff.2 h.name_ne) rfl,
    Text.splitAt_eq_singleton (notEqual_iff.2 h.text_ne)]
  simp

/-- A word that is not split has no equals sign, or more than one. -/
theorem splitSetting?_eq_none_or (word : List Char) :
    (splitSetting? word = none ∧ word.count '=' ≠ 1) ∨ ∃ name text, IsSetting word name text := by
  rcases Text.splits (· = '=') word with hw | ⟨w, c, rest, rfl, hw, hc⟩
  · refine .inl ⟨by rw [splitSetting?, Text.splitAt_eq_singleton hw], ?_⟩
    rw [List.count_eq_zero_of_not_mem (notEqual_iff.1 hw)]
    decide
  · obtain rfl : c = '=' := by simpa using hc
    rcases Text.splits (· = '=') rest with hr | ⟨w', c', rest', rfl, hw', hc'⟩
    · exact .inr ⟨String.ofList w, String.ofList rest, by simp, by simpa using notEqual_iff.1 hw,
        by simpa using notEqual_iff.1 hr⟩
    · obtain rfl : c' = '=' := by simpa using hc'
      refine .inl ⟨?_, by simp; omega⟩
      rw [splitSetting?, Text.splitAt_append_cons hw hc, Text.splitAt_append_cons hw' hc']
      obtain ⟨piece, pieces, hp⟩ := List.exists_cons_of_ne_nil (Text.splitAt_ne_nil (· = '=') rest')
      rw [hp]

end

/-! ## 4. Lines, variables and calls -/

/-- A word that cannot be applied: it has not one equals sign, or what it says cannot be set. -/
def BadWord (word : List Char) : Prop :=
  word.count '=' ≠ 1 ∨ ∃ name text, IsSetting word name text ∧ ¬ Settable (snakeName name) text

namespace Options

variable {o o₁ o₂ : Options} {words : List (List Char)}

/-- The settings that words say, applied from the left to `o`, lead to the last options. -/
inductive Applies : Options → List (List Char) → Options → Prop where
  | nil {o : Options} : Applies o [] o
  | cons {o o₁ o₂ : Options} {word : List Char} {words : List (List Char)} {name text : String}
    {n : OptionName} {v : OptionValue} (hw : IsSetting word name text) (hn : n.snake = snakeName name)
    (hv : n.Takes text v) (hs : o.Sets n v o₁) (h : Applies o₁ words o₂) : Applies o (word :: words) o₂

/-- **What becomes of the words of a line**: all are applied, or those before the first that cannot be
applied. -/
def LineOutcome (o : Options) (words : List (List Char)) (r : SettingRun) : Prop :=
  (r.complete = true ∧ o.Applies words r.options) ∨
  (r.complete = false ∧ ∃ done word rest, words = done ++ word :: rest ∧
    o.Applies done r.options ∧ BadWord word)

/-- **A line of settings**, by induction on its words. -/
theorem lineOutcome_setWords (o : Options) (words : List (List Char)) :
    o.LineOutcome words (o.setWords words) := by
  induction words generalizing o with
  | nil => exact .inl ⟨rfl, .nil⟩
  | cons word rest ih =>
    rw [setWords]
    rcases splitSetting?_eq_none_or word with ⟨hnone, hcount⟩ | ⟨name, text, hw⟩
    · rw [hnone]
      exact .inr ⟨rfl, [], word, rest, rfl, .nil, .inl hcount⟩
    · simp only [hw.splitSetting?_eq]
      cases h : o.setCamel name text with
      | ok o₁ =>
        obtain ⟨n, v, hn, hv, hs⟩ := setSnake_eq_ok_iff.1 h
        rcases ih o₁ with ⟨hc, happ⟩ | ⟨hc, done, bad, after, rfl, happ, hbad⟩
        · exact .inl ⟨hc, .cons hw hn hv hs happ⟩
        · exact .inr ⟨hc, word :: done, bad, after, rfl, .cons hw hn hv hs happ, hbad⟩
      | error e =>
        refine .inr ⟨rfl, [], word, rest, rfl, .nil, .inr ⟨name, text, hw, fun hset => ?_⟩⟩
        obtain ⟨o', ho'⟩ := exists_setSnake_eq_ok (o := o) hset
        cases h.symm.trans ho'

/-- Settings by hand: by the names of options, on lines, and from the environment. -/
inductive SettingCall where
  | snake (name text : String)
  | camel (name text : String)
  | bulk (line : String)
  | environment (vars : List (String × String))

/-- What a call does to options. -/
def SettingCall.run (o : Options) : SettingCall → SettingRun
  | .snake name text => .single o (o.setSnake name text)
  | .camel name text => .single o (o.setCamel name text)
  | .bulk line => o.setBulk line
  | .environment vars => o.setVariables vars

/-- The options after calls, whether or not these were refused. -/
def afterCalls (o : Options) (calls : List SettingCall) : Options :=
  calls.foldl (fun o call => (call.run o).options) o

/-- One option has changed, to a value that it accepts. -/
def Step (o o' : Options) : Prop := ∃ n v, OptionName.Accepts n v ∧ o.Sets n v o'

/-- **Each option has a value that it accepts.** -/
def Sound (o : Options) : Prop := ∀ n, OptionName.Accepts n (o.value n)

/-- What one step preserves. -/
theorem Sound.step (h : o.Sound) (hs : o.Step o₁) : o₁.Sound := by
  obtain ⟨n, v, hv, hs⟩ := hs
  intro k
  by_cases hk : k = n
  · rw [hk, hs.value_eq]
    exact hv
  · rw [hs.value_ne k hk]
    exact h k

/-- What any number of steps preserves. -/
theorem Sound.steps (h : o.Sound) (hs : Relation.ReflTransGen Step o o₁) : o₁.Sound := by
  induction hs with
  | refl => exact h
  | tail _ hstep ih => exact ih.step hstep

theorem Sets.step {n : OptionName} {v : OptionValue} {text : String} (hs : o.Sets n v o₁)
    (hv : n.Takes text v) : o.Step o₁ := ⟨n, v, hv.accepts, hs⟩

/-- A setting that is applied or refused is one step or none. -/
theorem steps_apply {r : SettingRun} {result : Except SettingError Options}
    (h : ∀ o', result = .ok o' → r.options.Step o') :
    Relation.ReflTransGen Step r.options (r.apply result).options := by
  cases result with
  | ok o' => exact .single (h o' rfl)
  | error e => exact .refl

theorem Applies.steps (h : o.Applies words o₁) : Relation.ReflTransGen Step o o₁ := by
  induction h with
  | nil => exact .refl
  | cons _ _ hv hs _ ih => exact .head (hs.step hv) ih

theorem steps_setVariables (o : Options) (vars : List (String × String)) :
    Relation.ReflTransGen Step o (o.setVariables vars).options := by
  unfold setVariables
  refine List.foldlRecOn vars _
    (motive := fun r : SettingRun => Relation.ReflTransGen Step o r.options) .refl fun r hr var _ => ?_
  split
  · refine hr.trans (steps_apply fun o' h => ?_)
    obtain ⟨v, hv, hs⟩ := (yields_set.eq_ok_iff o').1 h
    exact hs.step hv
  · exact hr

/-- **Each call is made of steps.** -/
theorem steps_run (o : Options) (call : SettingCall) :
    Relation.ReflTransGen Step o (call.run o).options := by
  have hstep {s text : String} {o' : Options} (h : o.setSnake s text = .ok o') : o.Step o' := by
    obtain ⟨n, v, -, hv, hs⟩ := setSnake_eq_ok_iff.1 h
    exact hs.step hv
  cases call with
  | snake name text => exact steps_apply (r := { options := o }) fun o' => hstep
  | camel name text => exact steps_apply (r := { options := o }) fun o' => hstep
  | bulk line =>
    rcases lineOutcome_setWords o (Text.asciiWords line.toList) with
      ⟨-, happ⟩ | ⟨-, done, word, rest, -, happ, -⟩
    · exact happ.steps
    · exact happ.steps
  | environment vars => exact steps_setVariables o vars

theorem steps_afterCalls (o : Options) (calls : List SettingCall) :
    Relation.ReflTransGen Step o (o.afterCalls calls) :=
  List.foldlRecOn calls _ Relation.ReflTransGen.refl fun o₁ h call _ => h.trans (steps_run o₁ call)

/-- The conditions are those that the setters check. -/
theorem sound_iff_proper : o.Sound ↔ o.Proper := by
  have hsize {n : Nat} : n < wordLimit ∧ n.isPowerOfTwo ∧ pageBytes ≤ n ↔ Admits isRegionSize n :=
    and_congr_right fun hlt => (isRegionSize_iff hlt).symm
  have hpos {n : Nat} : n < wordLimit ∧ 0 < n ↔ Admits positive n :=
    and_congr_right fun _ => (positive_iff n).symm
  have hpercent {n : Nat} : n < wordLimit ∧ n ≤ 100 ↔ Admits upToHundred n :=
    and_congr_right fun _ => (upToHundred_iff n).symm
  constructor
  · intro h
    exact {
      initialHeapSize := hpos.1 (h .initialHeapSize)
      maxHeapSize := hpos.1 (h .maxHeapSize)
      minHeapExpand := hpos.1 (h .minHeapExpand)
      minTlabSize := hpos.1 (h .minTlabSize)
      maxTlabSize := hpos.1 (h .maxTlabSize)
      tlabDecayTime := hpos.1 (h .tlabDecayTime)
      printHeapSteps := ⟨(h .printHeapSteps).1, rfl⟩
      updateCountersStep := hpos.1 (h .updateCountersStep)
      regionSize := hsize.1 (h .regionSize)
      garbageThreshold := hpercent.1 (h .garbageThreshold)
      minFreeThreshold := hpercent.1 (h .minFreeThreshold)
      evacReserve := hpercent.1 (h .evacReserve)
      concGcThreads := hpos.1 (h .concGcThreads)
      satbBufferSize := hpos.1 (h .satbBufferSize)
      controlInterval := hpos.1 (h .controlInterval) }
  · intro P n
    cases n with
    | initialHeapSize => exact hpos.2 P.initialHeapSize
    | maxHeapSize => exact hpos.2 P.maxHeapSize
    | minHeapExpand => exact hpos.2 P.minHeapExpand
    | minTlabSize => exact hpos.2 P.minTlabSize
    | maxTlabSize => exact hpos.2 P.maxTlabSize
    | tlabDecayTime => exact hpos.2 P.tlabDecayTime
    | printHeapSteps => exact ⟨P.printHeapSteps.1, trivial⟩
    | updateCountersStep => exact hpos.2 P.updateCountersStep
    | regionSize => exact hsize.2 P.regionSize
    | garbageThreshold => exact hpercent.2 P.garbageThreshold
    | minFreeThreshold => exact hpercent.2 P.minFreeThreshold
    | evacReserve => exact hpercent.2 P.evacReserve
    | concGcThreads => exact hpos.2 P.concGcThreads
    | satbBufferSize => exact hpos.2 P.satbBufferSize
    | controlInterval => exact hpos.2 P.controlInterval
    | collector | heuristics => trivial
    | exitOnOutOfMemory | elasticTlab | elasticTlabDecay | selfHealing | cardBarrier => trivial

/-- **Settings are atomic, and keep every condition.**  A setting by name is applied, or changes
nothing, in either spelling of the name.  A line is applied word by word from the left, up to the
first word that cannot be applied.  If each option has a value that it accepts, then this is so after
any calls. -/
theorem settings_atomic (o : Options) :
    (∀ name text, o.Settled name text (.single o (o.setSnake name text))) ∧
    (∀ name text, o.Settled (snakeName name) text (.single o (o.setCamel name text))) ∧
    (∀ line : String, ∃ words, (∀ ws, Text.Spaced line.toList ws ↔ ws = words) ∧
      o.LineOutcome words (o.setBulk line)) ∧
    (o.Sound → ∀ calls, (o.afterCalls calls).Sound) := by
  refine ⟨settled_setSnake o, fun name => settled_setSnake o (snakeName name), fun line => ?_,
    fun h calls => h.steps (steps_afterCalls o calls)⟩
  refine ⟨Text.asciiWords line.toList, fun ws => ⟨Text.Spaced.eq_asciiWords, ?_⟩,
    lineOutcome_setWords o _⟩
  rintro rfl
  exact Text.spaced_asciiWords _

/-- The first setting of a line stays in force when the second is refused, and calls with values that
are out of range or unreadable leave the defaults as sound as they were. -/
theorem settings_atomic_refusedLine :
    (∃ r : SettingRun, r = setBulk {} "MaxHeapSize=128M RegionSize=3000 EvacReserve=7" ∧
      r.complete = false ∧ r.options = { maxHeapSize := 134217728 }) ∧
    Sound {} ∧
    (afterCalls {} [.bulk "MaxHeapSize=128M RegionSize=3000 EvacReserve=7", .snake "evac_reserve" "101",
      .camel "GarbageThreshold" "-1", .environment [("VMHEAP_MIN_TLAB_SIZE", "0")]]).Sound := by
  have hsound : Sound {} := sound_iff_proper.2 proper_default
  refine ⟨⟨_, rfl, by decide +kernel, by decide +kernel⟩, hsound, ?_⟩
  exact (settings_atomic {}).2.2.2 hsound _

end Options

end ManagedHeap
