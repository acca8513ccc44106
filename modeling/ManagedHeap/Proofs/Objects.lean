/-
# Objects

What the operations on one object do to memory, and when they come to their end.

`Object.Fits` says that the header of an object is one that `Object.writeHeader` may write at its
address: the fields and the payload are words inside of its size.  Under it the slots of an object
can be computed (`fieldSlot_eq`, `payloadWord_eq`, `ends_eachSlot`), and an object is copied whole
(`ends_copy`): every word of the copy but the status word reads as that of the object, and outside
of the copy memory is as before.
-/
import ManagedHeap.Proofs.Words
import ManagedHeap.Object

namespace ManagedHeap.Object

/-! ## 1. The parts of an object -/

/-- The address of a reference field. -/
def field (object i : Nat) : Nat := object + 16 + 8 * i

/-- The number of payload bytes of an object. -/
def payloadBytes (m : Memory) (object : Nat) : Nat := size m object - (16 + 8 * refCount m object)

/-- The header at an address describes an object. -/
structure Fits (m : Memory) (object : Nat) : Prop where
  pos : 0 < object
  aligned : 8 ∣ object
  size_aligned : 8 ∣ size m object
  fields_le : 16 + 8 * refCount m object ≤ size m object
  size_le : size m object ≤ maxSize
  low : object < 1 <<< 52

theorem Fits.size_pos {m : Memory} {o : Nat} (h : Fits m o) : 0 < size m o :=
  Nat.lt_of_lt_of_le (by omega) h.fields_le

theorem maxSize_eq : maxSize = 4294967288 := by decide

theorem wordLimit_eq : wordLimit = 18446744073709551616 := rfl

/-- Two memories in which the layout word is the same hold objects of the same shape. -/
theorem Fits.congr {m m' : Memory} {o : Nat} (h : Fits m o) (hl : m'.read (o + 8) = m.read (o + 8)) :
    Fits m' o := by
  have hs : size m' o = size m o := by simp only [size, wordBytes, hl]
  have hr : refCount m' o = refCount m o := by simp only [refCount, wordBytes, hl]
  exact ⟨h.pos, h.aligned, hs ▸ h.size_aligned, hs ▸ hr ▸ h.fields_le, hs ▸ h.size_le, h.low⟩

section
variable {m : Memory} {o i : Nat}

theorem slotAt_eq {a : Nat} (hpos : 0 < a) (ha : 8 ∣ a) : Memory.slotAt a = .ok a := by
  simp only [Memory.slotAt, Except.bind_eq_ok, require_eq_ok, isAligned_wordBytes]
  exact ⟨(), by omega, (), ha, rfl⟩

theorem fieldSlot_eq (ha : 8 ∣ o) (hi : i < refCount m o) :
    fieldSlot m o i = .ok (field o i) := by
  have he : o + headerBytes + i * wordBytes = field o i := by
    simp only [field, headerBytes, wordBytes]
    omega
  simp only [fieldSlot, Except.bind_eq_ok, require_eq_ok, he]
  exact ⟨(), hi, slotAt_eq (by simp only [field]; omega) (by simp only [field]; omega)⟩

theorem Fits.field_lt (h : Fits m o) (hi : i < refCount m o) : field o i + 8 ≤ o + size m o := by
  have := h.fields_le
  simp only [field]
  omega

theorem payloadStart_eq : payloadStart m o = o + 16 + 8 * refCount m o := by
  simp only [payloadStart, headerBytes, wordBytes]
  omega

/-- A word inside of the payload has an address. -/
theorem Fits.payloadWord_eq (h : Fits m o) {offset : Nat} (ha : 8 ∣ offset)
    (hi : offset + 8 ≤ payloadBytes m o) :
    payloadWord m o offset = .ok (o + 16 + 8 * refCount m o + offset) := by
  have := h.fields_le
  have := h.size_le
  have := h.low
  simp only [payloadBytes, maxSize_eq] at *
  simp only [payloadWord, Except.bind_eq_ok, require_eq_ok, sum_eq_ok, payloadStart_eq,
    Except.pure_eq_ok, endOf, wordLimit_eq]
  simp only [wordBytes]
  refine ⟨(), by omega, _, ⟨?_, rfl⟩, _, ⟨?_, rfl⟩, (), ?_, rfl⟩
  · omega
  · omega
  · exact require_eq_ok.2 (by omega)

/-- The slot with an index in a run of fields. -/
theorem Fits.slot_eq (h : Fits m o) {len k : Nat} (hlen : i + len ≤ refCount m o) (hk : k < len) :
    SlotRange.slot ⟨field o i, len⟩ k = .ok (field o (i + k)) := by
  have hin := h.field_lt (i := i + k) (by omega)
  have hsize := h.size_le
  have hlow := h.low
  have ha := h.aligned
  have he : field o i + k * wordBytes = field o (i + k) := by
    simp only [field, wordBytes]
    omega
  simp only [SlotRange.slot, Except.bind_eq_ok, require_eq_ok, product_eq_ok, sum_eq_ok]
  simp only [field, maxSize_eq, wordLimit_eq, wordBytes] at *
  refine ⟨(), hk, _, ⟨by omega, rfl⟩, _, ⟨by omega, rfl⟩, ?_⟩
  rw [he]
  exact slotAt_eq (by omega) (by omega)

/-- **A loop over the fields of an object.**  `inv k s` holds when the first `k` fields were
visited. -/
theorem ends_eachSlot {σ : Type} {g : σ → Memory} {f : Nat → Action σ Unit} {s : σ}
    (inv : Nat → σ → Prop) (ha : 8 ∣ o) (hstart : inv 0 s)
    (hcount : ∀ k s', inv k s' → refCount (g s') o = refCount (g s) o)
    (hstep : ∀ k s', k < refCount (g s) o → inv k s' →
      Ends (f (field o k)) s' fun _ s'' => inv (k + 1) s'') :
    Ends (eachSlot g o f) s fun _ s' => inv (refCount (g s) o) s' := by
  simp only [eachSlot, ends_bind, ends_get]
  refine ends_upTo inv hstart fun k s' hk hinv => ?_
  have hs : fieldSlot (g s') o (0 + k) = .ok (field o k) := by
    rw [Nat.zero_add]
    exact fieldSlot_eq ha (by rw [hcount k s' hinv]; exact hk)
  simp only [ends_bind, ends_get, ends_lift, hs]
  exact ⟨_, rfl, hstep k s' hk hinv⟩

end

/-! ## 2. Headers and sizes -/

/-- Memory with the header of a new object. -/
def withHeader (m : Memory) (o n refs : Nat) : Memory :=
  (m.write o 0).write (o + 8) (layoutWord n refs)

theorem ends_writeHeader {m : Memory} {o n refs : Nat} {post : Nat → Memory → Prop}
    (hn : 16 + 8 * refs ≤ n) (hmax : n ≤ maxSize) (ha : 8 ∣ o) :
    Ends (writeHeader o n refs) m post ↔ post o (withHeader m o n refs) := by
  have hfit : headerBytes + refs * wordBytes ≤ n := by
    simp only [headerBytes, wordBytes]
    omega
  have haligned : isAligned o objectAlignment = true := isAligned_wordBytes.2 ha
  simp only [writeHeader, ends_bind, ends_lift, require_eq_ok, hfit, hmax, haligned, Memory.store,
    ends_modify, ends_pure]
  simp [withHeader, wordBytes]

section
variable {m : Memory} {o n refs b : Nat}

theorem read_withHeader_of_ne (h : b ≠ o) (h' : b ≠ o + 8) :
    (withHeader m o n refs).read b = m.read b := by
  rw [withHeader, Memory.read_write_of_ne _ (Ne.symm h'), Memory.read_write_of_ne _ (Ne.symm h)]

@[simp] theorem read_withHeader_status : (withHeader m o n refs).read o = 0 := by
  rw [withHeader, Memory.read_write_of_ne _ (by omega), Memory.read_write_self]

@[simp] theorem read_withHeader_layout :
    (withHeader m o n refs).read (o + 8) = layoutWord n refs := by
  rw [withHeader, Memory.read_write_self]

/-- The layout word holds the size and the number of fields, and nothing else. -/
theorem read_layout (m : Memory) (o : Nat) :
    m.read (o + 8) = layoutWord (size m o) (refCount m o) := by
  simp only [layoutWord, size, refCount, halfWordLimit, wordBytes]
  omega

theorem size_of_layout (h : m.read (o + 8) = layoutWord n refs) (hn : n ≤ maxSize) :
    size m o = n := by
  simp only [size, wordBytes, h, layoutWord, halfWordLimit, maxSize_eq] at *
  omega

theorem refCount_of_layout (h : m.read (o + 8) = layoutWord n refs) (hn : n ≤ maxSize) :
    refCount m o = refs := by
  simp only [refCount, wordBytes, h, layoutWord, halfWordLimit, maxSize_eq] at *
  omega

end

/-- **The size of an object** is its header, its fields and its payload in whole words, unless that
is above `maxSize`. -/
theorem sizeFor_eq_some_iff {refs payload n : Nat} : sizeFor refs payload = some n ↔
    n = 16 + 8 * refs + (payload + 7) / 8 * 8 ∧ n ≤ maxSize := by
  have hdown (k : Nat) : alignDown k objectAlignment = k / 8 * 8 := alignDown_wordBytes k
  simp only [sizeFor, Option.bind_eq_bind, Option.bind_eq_some_iff, toOption_eq_some, sum_eq_ok,
    product_eq_ok, hdown, Option.ite_none_right_eq_some, Option.some.injEq]
  simp only [objectAlignment, headerBytes, wordBytes, wordLimit_eq, maxSize_eq]
  constructor
  · rintro ⟨_, ⟨-, rfl⟩, _, ⟨-, rfl⟩, _, ⟨-, rfl⟩, _, ⟨-, rfl⟩, hle, rfl⟩
    omega
  · -- No part of a size that is allowed overflows a word.
    rintro ⟨rfl, hle⟩
    refine ⟨_, ⟨by omega, rfl⟩, _, ⟨by omega, rfl⟩, _, ⟨by omega, rfl⟩, _, ⟨by omega, rfl⟩, ?_⟩
    omega

theorem sizeFor_eq_some {refs payload n : Nat} (h : sizeFor refs payload = some n) :
    n = 16 + 8 * refs + (payload + 7) / 8 * 8 ∧ n ≤ maxSize := sizeFor_eq_some_iff.1 h

/-! ## 3. Copies -/

/-- The fields are copied one by one. -/
theorem ends_copyFields {m : Memory} {o dst refs : Nat} (ha : 8 ∣ o) (hrefs : refCount m o = refs)
    (hdis : o + 16 + 8 * refs ≤ dst ∨ dst + 16 + 8 * refs ≤ o) :
    Ends (copyFields o dst refs) m fun _ m' =>
      (∀ i < refs, m'.read (field dst i) = m.read (field o i)) ∧
      ∀ b, (∀ i < refs, b ≠ field dst i) → m'.read b = m.read b := by
  refine ends_upTo (fun k (m' : Memory) => (∀ i < k, m'.read (field dst i) = m.read (field o i)) ∧
    ∀ b, (∀ i < k, b ≠ field dst i) → m'.read b = m.read b) ⟨by omega, fun b _ => rfl⟩ ?_
  rintro k m' hk ⟨hdone, hrest⟩
  have hout {b : Nat} (hb : b < dst + 16 ∨ dst + 16 + 8 * k ≤ b) : m'.read b = m.read b :=
    hrest b fun i hi e => by simp only [field] at e; omega
  have hcount : refCount m' o = refs := by
    simp only [refCount, wordBytes] at hrefs ⊢
    rw [hout (by omega)]
    exact hrefs
  have hslot : fieldSlot m' o (0 + k) = .ok (field o k) := by
    rw [Nat.zero_add]
    exact fieldSlot_eq ha (by omega)
  have hsrc : m'.read (field o k) = m.read (field o k) := hout (by simp only [field]; omega)
  have hdst : dst + headerBytes + (0 + k) * wordBytes = field dst k := by
    simp only [field, headerBytes, wordBytes]
    omega
  simp only [ends_bind, ends_get, ends_lift, hslot, Memory.store, ends_modify, hdst]
  refine ⟨_, rfl, fun i hi => ?_, fun b hb => ?_⟩
  · by_cases hik : i = k
    · subst hik
      rw [Memory.read_write_self, hsrc]
    · rw [Memory.read_write_of_ne _ (by simp only [field]; omega), hdone i (by omega)]
  · rw [Memory.read_write_of_ne _ (Ne.symm (hb k (by omega))), hrest b fun i hi => hb i (by omega)]

/-- **A copy takes three steps**: the fields, which leads to a memory `m₁`, then the payload, and the
header last. -/
theorem ends_copy_of {m : Memory} {o dst : Nat} {post : Nat → Memory → Prop} (ho : 8 ∣ o)
    (hle : 16 + 8 * refCount m o ≤ size m o) (hmax : size m o ≤ maxSize) (hd : 8 ∣ dst)
    (hdis : o + size m o ≤ dst ∨ dst + size m o ≤ o)
    (hpost : ∀ m₁ : Memory, (∀ i < refCount m o, m₁.read (field dst i) = m.read (field o i)) →
      (∀ b, (∀ i < refCount m o, b ≠ field dst i) → m₁.read b = m.read b) →
      post dst (withHeader (m₁.copyBytes (o + (16 + 8 * refCount m o))
        (dst + (16 + 8 * refCount m o)) (payloadBytes m o)) dst (size m o) (refCount m o))) :
    Ends (copy o dst) m post := by
  have hfront : headerBytes + refCount m o * wordBytes = 16 + 8 * refCount m o := by
    simp only [headerBytes, wordBytes]
    omega
  simp only [copy, ends_bind, ends_get]
  refine (ends_copyFields (m := m) ho rfl (by omega)).mono fun _ m₁ h₁ => ?_
  simp only [ends_lift, hfront, ends_modify]
  refine ⟨payloadBytes m o, distance_eq_ok.2 ⟨hle, rfl⟩, ?_⟩
  exact (ends_writeHeader hle hmax hd).2 (hpost m₁ h₁.1 h₁.2)

/-- **A copy of an object.**  It reads as the object but for the status word, which is zero, and
outside of it memory is as before. -/
theorem ends_copy {m : Memory} {o dst : Nat} (h : Fits m o) (hd : 8 ∣ dst)
    (hdis : o + size m o ≤ dst ∨ dst + size m o ≤ o) :
    Ends (copy o dst) m fun c m' => c = dst ∧ m'.read dst = 0 ∧
      (∀ k, 1 ≤ k → 8 * k < size m o → m'.read (dst + 8 * k) = m.read (o + 8 * k)) ∧
      ∀ b, b < dst ∨ dst + size m o ≤ b → m'.read b = m.read b := by
  have ho := h.aligned
  have hle := h.fields_le
  refine ends_copy_of ho hle h.size_le hd hdis fun m₁ hfields hrest => ?_
  have hlayout := read_layout m o
  have hbytes : payloadBytes m o = size m o - (16 + 8 * refCount m o) := rfl
  have hsz := h.size_aligned
  generalize size m o = n at *
  generalize refCount m o = r at *
  rw [Memory.copyBytes_eq_copyWords _ (by omega) (by omega) (by omega)]
  obtain ⟨q, hq⟩ : ∃ q, q = payloadBytes m o / 8 := ⟨_, rfl⟩
  rw [← hq]
  have hwords {k : Nat} (hk : k < q) :
      (m₁.copyWords (o + (16 + 8 * r)) (dst + (16 + 8 * r)) q).read (dst + (16 + 8 * r) + 8 * k) =
        m.read (o + (16 + 8 * r) + 8 * k) := by
    rw [Memory.read_copyWords _ (by omega) hk]
    exact hrest _ fun i hi e => by simp only [field] at e; omega
  refine ⟨rfl, read_withHeader_status, fun k hk hkn => ?_, fun b hb => ?_⟩
  · by_cases hk1 : k = 1
    · subst hk1
      rw [Nat.mul_one, read_withHeader_layout, hlayout]
    rw [read_withHeader_of_ne (by omega) (by omega)]
    by_cases hkr : k < 2 + r
    · rw [Memory.read_copyWords_of_outside _ fun i hi => by omega]
      have := hfields (k - 2) (by omega)
      simp only [field] at this
      rw [show dst + 8 * k = dst + 16 + 8 * (k - 2) by omega, this]
      congr 1
      omega
    · have := @hwords (k - (2 + r)) (by omega)
      rw [show dst + 8 * k = dst + (16 + 8 * r) + 8 * (k - (2 + r)) by omega, this]
      congr 1
      omega
  · rw [read_withHeader_of_ne (by omega) (by omega),
      Memory.read_copyWords_of_outside _ fun i hi => by omega]
    exact hrest b fun i hi e => by simp only [field] at e; omega

/-! ## 4. Forwarding -/

section
variable {m : Memory} {o c : Nat}

theorem untagged_tagged (h : 8 ∣ c) : untagged (tagged c) = c := by
  simp only [untagged, tagged, tagValues, forwardedTag]
  omega

theorem tagged_mod (c : Nat) : tagged c % tagValues = forwardedTag := by
  simp only [untagged, tagged, tagValues, forwardedTag]
  omega

theorem tagged_ne_zero : tagged c ≠ 0 := by
  simp only [tagged, forwardedTag]
  omega

theorem forwardee?_of_zero (h : m.read o = 0) : forwardee? m o = none := by
  simp [forwardee?, isForwarded, h, forwardedTag]

theorem forwardee?_of_tagged (h : m.read o = tagged c) (hc : 8 ∣ c) :
    forwardee? m o = some c := by
  simp [forwardee?, isForwarded, h, tagged_mod, untagged_tagged hc]

theorem forwardee?_congr {m' : Memory} (h : m'.read o = m.read o) :
    forwardee? m' o = forwardee? m o := by
  simp [forwardee?, isForwarded, h]

theorem resolve_of_zero (h : m.read o = 0) : resolve m o = o := by
  simp [resolve, forwardee?_of_zero h]

theorem resolve_of_tagged (h : m.read o = tagged c) (hc : 8 ∣ c) (ho : 0 < o) :
    resolve m o = c := by
  simp [resolve, forwardee?_of_tagged h hc, null, Nat.pos_iff_ne_zero.1 ho]

/-- The first copy of an object becomes its forwardee. -/
theorem ends_install {post : Except Nat Nat → Memory → Prop} (h : m.read o = 0) :
    Ends (install o c) m post ↔ post (.ok c) (m.write o (tagged c)) := by
  simp only [install, ends_bind, ends_get, h, if_true, ends_set, ends_pure]

end

end ManagedHeap.Object
