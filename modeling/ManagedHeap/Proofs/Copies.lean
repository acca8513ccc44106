/-
# Copies of objects

An object is copied field by field, then its payload as bytes, and at last the copy gets a header of
its own.  The size of an object need not be one of whole words, so a payload may end within a word.

The copy is exact, whatever the target held before and whether the object is forwarded or not; and
nothing outside of the target is touched, the rest of its last word included
(`Object.copied_exactly`).
-/
import ManagedHeap.Proofs.Objects

namespace ManagedHeap.Object

/-- `m'` is `m` with a copy of the object `o` at `dst`.  The copy is not forwarded; its shape, its
fields and its payload are those of the object.  All bytes outside of its range are as they were. -/
structure CopiedTo (m : Memory) (o dst : Nat) (m' : Memory) : Prop where
  status_eq : m'.read dst = 0
  layout_eq : m'.read (dst + 8) = m.read (o + 8)
  field_eq : ∀ i < refCount m o, m'.read (field dst i) = m.read (field o i)
  payload_eq : ∀ k < payloadBytes m o,
    m'.readByte (payloadStart m' dst + k) = m.readByte (payloadStart m o + k)
  rest : ∀ b, b < dst ∨ dst + size m o ≤ b → m'.readByte b = m.readByte b

variable {m m' : Memory} {o dst : Nat}

/-- The object itself is outside of the range of its copy. -/
theorem CopiedTo.original_eq (h : CopiedTo m o dst m')
    (hdis : o + size m o ≤ dst ∨ dst + size m o ≤ o) :
    ∀ k < size m o, m'.readByte (o + k) = m.readByte (o + k) :=
  fun k hk => h.rest (o + k) (by omega)

/-- **A copy is exact, and nothing else is touched.**  An object whose size covers its header and its
fields, and is not too large, is copied to each range of its size that does not overlap it. -/
theorem copied_exactly (ho : 8 ∣ o) (hle : 16 + 8 * refCount m o ≤ size m o)
    (hmax : size m o ≤ maxSize) (hd : 8 ∣ dst) (hdis : o + size m o ≤ dst ∨ dst + size m o ≤ o) :
    Ends (copy o dst) m fun c m' => c = dst ∧ CopiedTo m o dst m' ∧
      ∀ k < size m o, m'.readByte (o + k) = m.readByte (o + k) := by
  refine ends_copy_of ho hle hmax hd hdis fun m₁ hfields hrest => ?_
  have hbytes : payloadBytes m o = size m o - (16 + 8 * refCount m o) := rfl
  -- When the payload is copied, only the fields of the copy have been written.
  have hwritten {b : Nat} (hb : b < dst ∨ dst + (16 + 8 * refCount m o) ≤ b) :
      m₁.readByte b = m.readByte b := by
    refine Memory.readByte_congr (hrest _ fun i hi he => ?_)
    simp only [field] at he
    omega
  suffices h : CopiedTo m o dst _ from ⟨rfl, h, h.original_eq hdis⟩
  refine ⟨read_withHeader_status, ?_, fun i hi => ?_, fun k hk => ?_, fun b hb => ?_⟩
  · rw [read_withHeader_layout, read_layout]
  · have hfield : field dst i = dst + 16 + 8 * i := rfl
    rw [read_withHeader_of_ne (by omega) (by omega),
      Memory.read_copyBytes_of_outside (by omega) (by omega) (by omega) (by omega), hfields i hi]
  · rw [payloadStart_eq, payloadStart_eq, refCount_of_layout read_withHeader_layout hmax,
      Memory.readByte_congr (read_withHeader_of_ne (by omega) (by omega)), Nat.add_assoc dst,
      Nat.add_assoc o, Memory.readByte_copyBytes (by omega) (by omega) (by omega) hk]
    exact hwritten (by omega)
  · rw [Memory.readByte_congr (read_withHeader_of_ne (by omega) (by omega)),
      Memory.readByte_copyBytes_of_outside (by omega) (by omega) (by omega)]
    exact hwritten (by omega)

/-- An object that is forwarded, with one field and a payload of five bytes, and a target of which the
last word is full. -/
def unevenObject : Memory :=
  (((((({} : Memory).write 4096 (tagged 8192)).write 4104 (layoutWord 29 1)).write 4112 12288).write
    4120 (wordLimit - 2)).write 4128 5).write 4152 (wordLimit - 1)

/-- Of the last word of the target only five bytes are replaced; the next one is as full as before. -/
theorem copied_exactly_uneven :
    8 ∣ 4096 ∧ refCount unevenObject 4096 = 1 ∧ size unevenObject 4096 = 29 ∧
    isForwarded unevenObject 4096 = true ∧ unevenObject.read 4128 = 5 ∧
    Ends (copy 4096 4128) unevenObject fun c m' => c = 4128 ∧ CopiedTo unevenObject 4096 4128 m' ∧
      m'.readByte 4157 = 255 := by
  have hrefs : refCount unevenObject 4096 = 1 := by decide
  have hsize : size unevenObject 4096 = 29 := by decide
  refine ⟨by decide, hrefs, hsize, by decide, by decide, ?_⟩
  have h := copied_exactly (show 8 ∣ 4096 by decide) (by rw [hrefs, hsize]; decide)
    (by rw [hsize]; decide) (show 8 ∣ 4128 by decide) (.inl (by rw [hsize]; decide))
  refine h.mono ?_
  rintro c m' ⟨rfl, hcopy, -⟩
  refine ⟨rfl, hcopy, (hcopy.rest 4157 (.inr (by rw [hsize]))).trans ?_⟩
  decide

end ManagedHeap.Object
