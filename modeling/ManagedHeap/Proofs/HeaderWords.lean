/-
# The words of a header

The header of an object is two words.  The layout word has the size and the number of fields, each in
a half of its own, and the status word is zero or has an address with a tag.  Either can be read back
whatever the other parts are (`Object.headers_keep_apart`).

An object may be installed a copy of any number of times.  The first copy wins: it is what every later
attempt is told, and what the object resolves to, until the forwarding is cleared.  None of this changes
a word besides the status word, so the object keeps its shape, its fields and its payload
(`Object.StatusOnly`).
-/
import ManagedHeap.Proofs.Objects
import ManagedHeap.Proofs.Program

namespace ManagedHeap

namespace Object

variable {m m' : Memory} {o c d n refs start : Nat} {ds : List Nat}

/-! ## 1. Whether an object is forwarded -/

/-- The object has no copy. -/
structure Unforwarded (m : Memory) (o : Nat) : Prop where
  isForwarded_eq : isForwarded m o = false
  forwardee_eq : forwardee? m o = none
  resolve_eq : resolve m o = o
  isSelfForwarded_eq : isSelfForwarded m o = false

/-- The object has a copy, which may be itself. -/
structure ForwardsTo (m : Memory) (o c : Nat) : Prop where
  isForwarded_eq : isForwarded m o = true
  forwardee_eq : forwardee? m o = some c
  resolve_eq : resolve m o = c
  isSelfForwarded_iff : isSelfForwarded m o = true ↔ c = o

theorem Unforwarded.of_zero (h : m.read o = 0) : Unforwarded m o where
  isForwarded_eq := by simp [isForwarded, h, forwardedTag]
  forwardee_eq := forwardee?_of_zero h
  resolve_eq := resolve_of_zero h
  isSelfForwarded_eq := by simp [isSelfForwarded, forwardee?_of_zero h]

theorem ForwardsTo.of_tagged (h : m.read o = tagged c) (hc : 8 ∣ c) (ho : 0 < o) :
    ForwardsTo m o c where
  isForwarded_eq := by simp [isForwarded, h, tagged_mod]
  forwardee_eq := forwardee?_of_tagged h hc
  resolve_eq := resolve_of_tagged h hc ho
  isSelfForwarded_iff := by simp [isSelfForwarded, forwardee?_of_tagged h hc]

/-! ## 2. What stays as it is -/

/-- No word changes but the status word, and nothing that the object consists of. -/
structure StatusOnly (m : Memory) (o : Nat) (m' : Memory) : Prop where
  rest : ∀ b, b ≠ o → m'.read b = m.read b
  size_eq : size m' o = size m o
  refCount_eq : refCount m' o = refCount m o
  field_eq : ∀ i, m'.read (field o i) = m.read (field o i)
  payload_eq : ∀ k, m'.readByte (payloadStart m' o + k) = m.readByte (payloadStart m o + k)

/-- The parts of an object are not in its status word. -/
theorem StatusOnly.of_rest (ho : 8 ∣ o) (h : ∀ b, b ≠ o → m'.read b = m.read b) :
    StatusOnly m o m' := by
  have hlayout : m'.read (o + wordBytes) = m.read (o + wordBytes) :=
    h _ (by simp only [wordBytes]; omega)
  have hrefs : refCount m' o = refCount m o := by simp only [refCount, hlayout]
  refine ⟨h, by simp only [size, hlayout], hrefs, fun i => ?_, fun k => ?_⟩
  · exact h _ (by simp only [field]; omega)
  · rw [payloadStart_eq, payloadStart_eq, hrefs]
    exact Memory.readByte_congr (h _ (by omega))

/-! ## 3. Installing a copy, again and again -/

/-- An attempt that comes too late is told the copy that there is, and has no effect. -/
theorem ends_install_again {post : Except Nat Nat → Memory → Prop} (h : m.read o = tagged c)
    (hc : 8 ∣ c) : Ends (install o d) m post ↔ post (.error c) m := by
  simp only [install, ends_bind, ends_get, h, tagged_ne_zero, if_false, ends_lift, tagged_mod,
    require_eq_ok, untagged_tagged hc, ends_pure, exists_const, true_and]

theorem ends_installs_again (h : m.read o = tagged c) (hc : 8 ∣ c) :
    Ends (Action.runAll (install o) ds) m fun rs m' =>
      rs = ds.map (fun _ => .error c) ∧ m' = m := by
  induction ds with
  | nil => exact ends_pure.2 ⟨rfl, rfl⟩
  | cons d rest ih =>
    rw [Action.runAll, ends_bind, ends_install_again h hc, ends_bind]
    refine ih.mono ?_
    rintro rs m' ⟨rfl, rfl⟩
    exact ends_pure.2 ⟨rfl, rfl⟩

/-- **The first copy wins.** -/
theorem ends_installs (h : m.read o = 0) (hc : 8 ∣ c) :
    Ends (Action.runAll (install o) (c :: ds)) m fun rs m' =>
      rs = .ok c :: ds.map (fun _ => .error c) ∧ m' = m.write o (tagged c) := by
  rw [Action.runAll, ends_bind, ends_install h, ends_bind]
  refine (ends_installs_again (Memory.read_write_self m o _) hc).mono ?_
  rintro rs m' ⟨rfl, rfl⟩
  exact ends_pure.2 ⟨rfl, rfl⟩

/-! ## 4. The result -/

/-- **The parts of a header do not interfere.**  A header that is written reads back as its size and
its number of fields, is not forwarded, and takes two words only.  Of the copies that are installed in
an object without one, the first is its copy and the answer to all others, until the forwarding is
cleared; and nothing but the status word ever changes. -/
theorem headers_keep_apart :
    (∀ {m : Memory} {start n refs}, 8 ∣ start → 16 + 8 * refs ≤ n → n ≤ maxSize →
      Ends (writeHeader start n refs) m fun o m' =>
        o = start ∧ size m' o = n ∧ refCount m' o = refs ∧ Unforwarded m' o ∧
          ∀ b, b ≠ start → b ≠ start + 8 → m'.read b = m.read b) ∧
    (∀ {m : Memory} {o c ds}, 0 < o → 8 ∣ o → m.read o = 0 → 8 ∣ c →
      Ends (Action.runAll (install o) (c :: ds)) m fun rs m' =>
        rs = .ok c :: ds.map (fun _ => .error c) ∧ ForwardsTo m' o c ∧ StatusOnly m o m' ∧
          Ends (clearForwarding o) m' fun _ m'' => Unforwarded m'' o ∧ StatusOnly m o m'') := by
  constructor
  · intro m start n refs ha hn hmax
    rw [ends_writeHeader hn hmax ha]
    exact ⟨rfl, size_of_layout read_withHeader_layout hmax,
      refCount_of_layout read_withHeader_layout hmax, .of_zero read_withHeader_status,
      fun b => read_withHeader_of_ne⟩
  · intro m o c ds ho ha hm hc
    refine (ends_installs hm hc).mono ?_
    rintro rs m' ⟨rfl, rfl⟩
    refine ⟨rfl, .of_tagged (Memory.read_write_self m o _) hc ho,
      .of_rest ha fun b hb => Memory.read_write_of_ne _ (Ne.symm hb) _, ?_⟩
    rw [clearForwarding, Memory.store, ends_modify]
    refine ⟨.of_zero (Memory.read_write_self _ o 0), .of_rest ha fun b hb => ?_⟩
    rw [Memory.read_write_of_ne _ (Ne.symm hb), Memory.read_write_of_ne _ (Ne.symm hb)]

/-- An object with two fields and a word of payload, for which a copy is installed twice, at first
another object and then itself. -/
theorem headers_keep_apart_twice :
    (8 ∣ 4096 ∧ 16 + 8 * 2 ≤ 40 ∧ 40 ≤ maxSize ∧
      Ends (writeHeader 4096 40 2) {} fun o m => o = 4096 ∧ size m o = 40 ∧ refCount m o = 2 ∧
        Unforwarded m o ∧ ∀ b, b ≠ 4096 → b ≠ 4096 + 8 → m.read b = ({} : Memory).read b) ∧
    ∃ m, m = withHeader {} 4096 40 2 ∧ 0 < 4096 ∧ m.read 4096 = 0 ∧ 8 ∣ 8192 ∧
      Ends (Action.runAll (install 4096) [8192, 4096]) m fun rs m' =>
        rs = [.ok 8192, .error 8192] ∧ ForwardsTo m' 4096 8192 ∧ StatusOnly m 4096 m' ∧
          Ends (clearForwarding 4096) m' fun _ m'' =>
            Unforwarded m'' 4096 ∧ StatusOnly m 4096 m'' := by
  have ha : 8 ∣ 4096 := by decide
  have hc : 8 ∣ 8192 := by decide
  have hmax : 40 ≤ maxSize := by decide
  have hm : (withHeader {} 4096 40 2).read 4096 = 0 := read_withHeader_status
  exact ⟨⟨ha, by decide, hmax, headers_keep_apart.1 ha (by decide) hmax⟩,
    _, rfl, by decide, hm, hc, headers_keep_apart.2 (by decide) ha hm hc⟩

end Object

end ManagedHeap
