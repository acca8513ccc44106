/-
# Options that settings lead to

Every value that a setting is read to is a word and satisfies the condition of its option
(`ValueReader.run_eq_ok`).  So options that start from the defaults and change by accepted settings
alone are proper: each of them is a word that passes its own condition (`Options.Reached.proper`).

What the options must satisfy together is not a matter of single settings; see `Options.validate`.
-/
import ManagedHeap.Proofs.SizeTexts
import ManagedHeap.Proofs.Words
import ManagedHeap.Options.Agreement
import ManagedHeap.Options.Setting

namespace ManagedHeap

/-! ## 1. What is read is a word -/

namespace ValueReader

variable {α : Type} {name : OptionName} {text : String}

/-- A value that is not refused was read from the text, and is accepted. -/
theorem run_eq_ok {r : ValueReader α} {v : α} :
    r.run name text = .ok v ↔ r.read text = some v ∧ r.accepts v = true := by
  constructor
  · intro h
    unfold run at h
    split at h
    · cases h
    · split at h
      · cases h
        exact ⟨‹_›, ‹_›⟩
      · cases h
  · rintro ⟨hread, haccepts⟩
    simp only [run, hread, if_pos haccepts]

theorem of_size {accepts : Nat → Bool} {n : Nat} (h : (size accepts).run name text = .ok n) :
    n < wordLimit ∧ accepts n = true := by
  obtain ⟨hread, hn⟩ := run_eq_ok.1 h
  obtain ⟨_, _, -, -, hlt⟩ := ByteSize.spells_of_readSize (toOption_eq_some.1 hread)
  exact ⟨hlt, hn⟩

theorem of_count {accepts : Nat → Bool} {n : Nat} (h : (count accepts).run name text = .ok n) :
    n < wordLimit ∧ accepts n = true := by
  obtain ⟨hread, hn⟩ := run_eq_ok.1 h
  exact ⟨(Text.numeral_of_readNumber (toOption_eq_some.1 hread)).2, hn⟩

end ValueReader

/-- What passes for a power of two is one. -/
theorem isPowerOfTwo_of_eq_true {n : Nat} (h : isPowerOfTwo n = true) : n.isPowerOfTwo := by
  obtain ⟨k, -, hk⟩ := List.any_eq_true.1 h
  exact ⟨k, by simpa [Nat.one_shiftLeft] using hk⟩

/-! ## 2. Each option by itself -/

namespace Options

/-- A number that an option with the condition `accepts` may have. -/
def Admits (accepts : Nat → Bool) (n : Nat) : Prop := n < wordLimit ∧ accepts n = true

instance (accepts : Nat → Bool) (n : Nat) : Decidable (Admits accepts n) :=
  inferInstanceAs (Decidable (_ ∧ _))

/-- Each option passes its own condition. -/
structure Proper (o : Options) : Prop where
  initialHeapSize : Admits positive o.initialHeapSize
  maxHeapSize : Admits positive o.maxHeapSize
  minHeapExpand : Admits positive o.minHeapExpand
  minTlabSize : Admits positive o.minTlabSize
  maxTlabSize : Admits positive o.maxTlabSize
  tlabDecayTime : Admits positive o.tlabDecayTime
  printHeapSteps : Admits (fun _ => true) o.printHeapSteps
  updateCountersStep : Admits positive o.updateCountersStep
  regionSize : Admits isRegionSize o.regionSize
  garbageThreshold : Admits upToHundred o.garbageThreshold
  minFreeThreshold : Admits upToHundred o.minFreeThreshold
  evacReserve : Admits upToHundred o.evacReserve
  concGcThreads : Admits positive o.concGcThreads
  satbBufferSize : Admits positive o.satbBufferSize
  controlInterval : Admits positive o.controlInterval

/-- Every default passes its own condition. -/
theorem proper_default : Proper {} := by constructor <;> decide

/-- So they do on a machine with any number of processors. -/
theorem proper_builtin {threads : Nat} (h : Admits positive threads) :
    Proper { concGcThreads := threads } := { proper_default with concGcThreads := h }

/-- What was set is one option, to a value that was read for it. -/
theorem exists_of_map_eq_ok {α : Type} {x : Except SettingError α} {f : α → Options} {o : Options}
    (h : x.map f = .ok o) : ∃ v, x = .ok v ∧ o = f v := by
  cases x with
  | error e => cases h
  | ok v =>
    cases h
    exact ⟨v, rfl, rfl⟩

/-- **An accepted setting keeps every condition.** -/
theorem Proper.set {o o' : Options} {name : OptionName} {text : String} (P : o.Proper)
    (h : o.set name text = .ok o') : o'.Proper := by
  cases name <;> obtain ⟨v, hv, rfl⟩ := exists_of_map_eq_ok h
  case initialHeapSize => exact { P with initialHeapSize := ValueReader.of_size hv }
  case maxHeapSize => exact { P with maxHeapSize := ValueReader.of_size hv }
  case minHeapExpand => exact { P with minHeapExpand := ValueReader.of_size hv }
  case minTlabSize => exact { P with minTlabSize := ValueReader.of_size hv }
  case maxTlabSize => exact { P with maxTlabSize := ValueReader.of_size hv }
  case tlabDecayTime => exact { P with tlabDecayTime := ValueReader.of_count hv }
  case printHeapSteps => exact { P with printHeapSteps := ValueReader.of_count hv }
  case updateCountersStep => exact { P with updateCountersStep := ValueReader.of_size hv }
  case regionSize => exact { P with regionSize := ValueReader.of_size hv }
  case garbageThreshold => exact { P with garbageThreshold := ValueReader.of_count hv }
  case minFreeThreshold => exact { P with minFreeThreshold := ValueReader.of_count hv }
  case evacReserve => exact { P with evacReserve := ValueReader.of_count hv }
  case concGcThreads => exact { P with concGcThreads := ValueReader.of_count hv }
  case satbBufferSize => exact { P with satbBufferSize := ValueReader.of_count hv }
  case controlInterval => exact { P with controlInterval := ValueReader.of_count hv }
  -- The other options are words and flags, which have no condition.
  all_goals exact { P with }

/-! ## 3. Runs of settings -/

/-- Options that accepted settings lead to from the defaults. -/
inductive Reached : Options → Prop where
  /-- The defaults.  How many workers the collector has by default depends on the machine. -/
  | builtin (threads : Nat) (h : Admits positive threads) : Reached { concGcThreads := threads }
  | set {o o' : Options} {name : OptionName} {text : String} :
    Reached o → o.set name text = .ok o' → Reached o'

variable {o o' : Options}

theorem Reached.proper (h : o.Reached) : o.Proper := by
  induction h with
  | builtin threads h => exact proper_builtin h
  | set _ hset ih => exact ih.set hset

theorem Reached.setSnake {name text : String} (h : o.Reached)
    (hset : o.setSnake name text = .ok o') : o'.Reached := by
  unfold Options.setSnake at hset
  split at hset
  · exact h.set hset
  · cases hset

theorem Reached.setCamel {name text : String} (h : o.Reached)
    (hset : o.setCamel name text = .ok o') : o'.Reached := h.setSnake hset

/-- Settings by name, all of which are accepted. -/
theorem Reached.setAll {settings : List (String × String)} (h : o.Reached)
    (hset : o.setAll settings = .ok o') : o'.Reached := by
  induction settings generalizing o with
  | nil =>
    cases hset
    exact h
  | cons s rest ih =>
    rw [Options.setAll] at hset
    split at hset
    · exact ih (h.setCamel ‹_›) hset
    · cases hset

/-- Settings on one line, up to the first that is refused. -/
theorem Reached.setWords {words : List (List Char)} (h : o.Reached) :
    (o.setWords words).options.Reached := by
  induction words generalizing o with
  | nil => exact h
  | cons word rest ih =>
    rw [Options.setWords]
    split
    · exact h
    · split
      · exact ih (h.setCamel ‹_›)
      · exact h

theorem Reached.setBulk {s : String} (h : o.Reached) : (o.setBulk s).options.Reached := h.setWords

end Options

end ManagedHeap
