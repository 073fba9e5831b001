import BlipMQ.Lib.Bytes

/-!
# CRC-32

The reflected CRC-32 (polynomial `0xEDB88320`, initial register and final
mask all ones) as a shift register, and why it notices a changed byte: one
shift is injective, so registers that differ once stay different however
many equal bytes follow.
-/

namespace BlipMQ.Crc32

def polynomial : BitVec 32 := 0xEDB88320#32

/-- One shift of the register. -/
def shift (c : BitVec 32) : BitVec 32 :=
  if c.getLsbD 0 then (c >>> 1) ^^^ polynomial else c >>> 1

/-- The register after one input byte: eight shifts. -/
def feed (c : BitVec 32) (b : UInt8) : BitVec 32 :=
  shift (shift (shift (shift (shift (shift (shift (shift
    (c ^^^ b.toBitVec.setWidth 32))))))))

/-- The register after a byte string. -/
def feedAll (c : BitVec 32) (bs : Bytes) : BitVec 32 := bs.foldl feed c

def crc32 (bs : Bytes) : UInt32 := ⟨~~~(feedAll (BitVec.allOnes 32) bs)⟩

/-! ## The register never forgets a difference -/

/-- Bit 31 of the shifted register is the bit that was shifted out: the
polynomial has that bit set and the shift leaves it clear. -/
theorem shift_top (c : BitVec 32) : (shift c).getLsbD 31 = c.getLsbD 0 := by
  have hp : polynomial.getLsbD 31 = true := by decide
  have hs : (c >>> 1).getLsbD 31 = false := by simp
  unfold shift
  split
  · rename_i h
    rw [BitVec.getLsbD_xor, hs, hp, h]
    rfl
  · rename_i h
    rw [hs]
    simpa using h

theorem shift_injective : Function.Injective shift := by
  intro a b h
  have h0 : a.getLsbD 0 = b.getLsbD 0 := by
    rw [← shift_top a, ← shift_top b, h]
  have hsh : a >>> 1 = b >>> 1 := by
    unfold shift at h
    rw [h0] at h
    split at h
    · have := congrArg (· ^^^ polynomial) h
      simpa [BitVec.xor_assoc] using this
    · exact h
  apply BitVec.eq_of_getLsbD_eq
  intro i _
  cases i with
  | zero => exact h0
  | succ i =>
    have := congrArg (·.getLsbD i) hsh
    simpa [BitVec.getLsbD_ushiftRight, Nat.add_comm] using this

theorem feed_left_injective (b : UInt8) : Function.Injective (feed · b) := by
  intro c d h
  have hx := shift_injective (shift_injective (shift_injective (shift_injective
    (shift_injective (shift_injective (shift_injective (shift_injective h)))))))
  have := congrArg (· ^^^ b.toBitVec.setWidth 32) hx
  simpa [BitVec.xor_assoc] using this

theorem feed_right_injective (c : BitVec 32) : Function.Injective (feed c) := by
  intro a b h
  have hx := shift_injective (shift_injective (shift_injective (shift_injective
    (shift_injective (shift_injective (shift_injective (shift_injective h)))))))
  have hw : a.toBitVec.setWidth 32 = b.toBitVec.setWidth 32 := by
    have := congrArg (c ^^^ ·) hx
    simpa [← BitVec.xor_assoc] using this
  have hn := congrArg BitVec.toNat hw
  simp only [BitVec.toNat_setWidth] at hn
  have ha := a.toNat_lt
  have hb := b.toNat_lt
  apply UInt8.toNat_inj.mp
  change a.toNat % 2 ^ 32 = b.toNat % 2 ^ 32 at hn
  omega

theorem feedAll_injective (bs : Bytes) : Function.Injective (feedAll · bs) := by
  induction bs with
  | nil => exact fun _ _ h => h
  | cons b bs ih => exact fun c d h => feed_left_injective b (ih h)

/-- **A changed byte changes the checksum**, whatever stands around it. -/
theorem crc32_byte_ne (front back : Bytes) {a b : UInt8} (h : a ≠ b) :
    crc32 (front ++ a :: back) ≠ crc32 (front ++ b :: back) := by
  intro he
  have hreg : feedAll (BitVec.allOnes 32) (front ++ a :: back)
      = feedAll (BitVec.allOnes 32) (front ++ b :: back) := by
    have := congrArg UInt32.toBitVec he
    exact BitVec.not_inj.mp this
  simp only [feedAll, List.foldl_append, List.foldl_cons] at hreg
  exact h (feed_right_injective _ (feedAll_injective back hreg))

/-- The check value of the algorithm: the checksum of the ASCII digits
`123456789`. -/
example : crc32 [0x31, 0x32, 0x33, 0x34, 0x35, 0x36, 0x37, 0x38, 0x39] = 0xCBF43926 := by
  decide +kernel

end BlipMQ.Crc32
