import MyLibraries.Crc.Crc32

/-!
# CRC-8 of Dallas

`crc8Dallas` adds a byte to the register and shifts it eight times, with the reflected
polynomial `0x8C`: a step is eight bits of a feedback register whose shifts are injective. A
string is accepted, with the value 0, exactly when its last byte is the checksum of the
others; and strings of one length that part within eight consecutive bits never have one
value, so they are not both accepted.
-/

namespace MyLibraries.Crc

open Register Feedback

/-- The body of the loop of `crc8Dallas`: one byte. -/
def crc8DallasStep (crc byte : BitVec 8) : BitVec 8 := (shift 0x8C)^[8] (crc ^^^ byte)

def crc8Dallas (buf : List UInt8) : BitVec 8 :=
  feed crc8DallasStep 0#8 (buf.map UInt8.toBitVec)

variable {a b : List UInt8}

/-- The polynomial of `crc8Dallas`. -/
def dallasPoly : BitVec 8 := 0x8C

theorem shift_dallasPoly_injective : Function.Injective (shift dallasPoly) :=
  shift_injective dallasPoly (by decide)

theorem crc8DallasStep_eq (crc byte : BitVec 8) :
    crc8DallasStep crc byte = feed (clock dallasPoly) crc (byteBits byte) := by
  have hlen : (byteBits byte).length = 8 := by simp [byteBits]
  rw [feed_clock dallasPoly crc _ (by omega), hlen, word_byteBits, BitVec.setWidth_eq]
  rfl

theorem crc8Dallas_eq (buf : List UInt8) :
    crc8Dallas buf = feed (clock dallasPoly) 0#8 (bits buf) := by
  rw [crc8Dallas, feed_bits crc8DallasStep_eq]

theorem crc8Dallas_append (buf : List UInt8) (x : UInt8) :
    crc8Dallas (buf ++ [x]) = crc8DallasStep (crc8Dallas buf) x.toBitVec := by
  rw [crc8Dallas, List.map_append, feed_append]
  rfl

/-- The register is empty after a step exactly when the byte met itself in it. -/
theorem crc8DallasStep_eq_zero_iff (crc byte : BitVec 8) :
    crc8DallasStep crc byte = 0#8 ↔ byte = crc := by
  have hzero : (shift dallasPoly)^[8] 0#8 = 0#8 := by decide
  have hinj := shift_dallasPoly_injective.iterate 8
  constructor
  · intro h
    have hxor : crc ^^^ byte = 0#8 := hinj (h.trans hzero.symm)
    exact (BitVec.xor_eq_zero_iff.mp hxor).symm
  · rintro rfl
    rw [crc8DallasStep, BitVec.xor_self]
    exact hzero

/-- The last byte is the checksum of the others. -/
theorem crc8Dallas_eq_zero_iff (h : b ≠ []) :
    crc8Dallas b = 0#8 ↔ (b.getLast h).toBitVec = crc8Dallas b.dropLast := by
  conv_lhs => rw [← List.dropLast_append_getLast h]
  rw [crc8Dallas_append, crc8DallasStep_eq_zero_iff]

/-- Strings that part within eight consecutive bits have different checksums. -/
theorem crc8Dallas_detects_burst (hlen : a.length = b.length) (hne : a ≠ b) (start : Nat)
    (hwin : ∀ i, (bits a)[i]? ≠ (bits b)[i]? → start ≤ i ∧ i < start + 8) :
    crc8Dallas a ≠ crc8Dallas b := by
  rw [crc8Dallas_eq, crc8Dallas_eq]
  have hbits : (bits a).length = (bits b).length := by rw [length_bits, length_bits, hlen]
  exact feed_window dallasPoly (by decide) hbits (fun h => hne (bits_injective h)) start hwin 0#8

end MyLibraries.Crc
