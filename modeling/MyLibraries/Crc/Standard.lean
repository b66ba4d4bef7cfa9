import MyLibraries.Crc.Crc32

/-!
# CRC-32 and the standard

The standard takes the bits of the message one by one through the register of the
polynomial `0xEDB88320`, which starts with all its bits set and is complemented at the end.
`crc32` complements it at the end too and starts from zero. Start and message act apart,
so the two differ by what the shifts of the message make of the start
(`crc32_eq_standard_xor`), and a shift is injective: it is never zero.
-/

namespace MyLibraries.Crc

open Register Feedback

/-- The checksum of IEEE 802.3, bit by bit. -/
def crc32Standard (buf : List UInt8) : BitVec 32 :=
  feed (clock 0xEDB88320) 0xFFFFFFFF#32 (bits buf) ^^^ 0xFFFFFFFF#32

theorem clock_linear {w : Nat} (p : BitVec w) : LinearStep (clock p) := by
  intro a b x y
  rw [clock, clock, clock, ← shift_xor, BitVec.setWidth_xor]
  congr 1
  ac_rfl

/-- Bits that are zero shift the register only. -/
theorem feed_clock_zero {w : Nat} (p c : BitVec w) (n : Nat) :
    feed (clock p) c (List.replicate n 0#1) = (shift p)^[n] c := by
  induction n generalizing c with
  | zero => rfl
  | succ n ih =>
    have hclock : clock p c 0#1 = shift p c := by
      rw [clock, BitVec.setWidth_zero, BitVec.xor_zero]
    rw [List.replicate_succ, Function.iterate_succ_apply, ← hclock, ← ih]
    rfl

/-- The standard checksum is that of the code and what becomes of the start. -/
theorem crc32_eq_standard_xor (buf : List UInt8) :
    crc32Standard buf = crc32 buf ^^^ (shift poly)^[8 * buf.length] 0xFFFFFFFF#32 := by
  have hsplit := feed_split (clock_linear poly) 0xFFFFFFFF#32 (bits buf)
  rw [feed_clock_zero, length_bits] at hsplit
  rw [crc32_eq, crc32Standard]
  show feed (clock poly) 0xFFFFFFFF#32 (bits buf) ^^^ 0xFFFFFFFF#32 = _
  rw [hsplit, BitVec.xor_assoc, BitVec.xor_comm]
  rfl

theorem iterate_shift_start_ne (n : Nat) : (shift poly)^[n] 0xFFFFFFFF#32 ≠ 0#32 := by
  have hzero : (shift poly)^[n] 0#32 = 0#32 := by
    rw [iterate_shift_of_low poly fun i _ => BitVec.getLsbD_zero]
    exact BitVec.zero_ushiftRight
  intro heq
  rw [← hzero] at heq
  exact absurd ((shift_injective poly (by decide)).iterate n heq) (by decide)

/-- **No message has its standard checksum.** -/
theorem crc32_ne_standard (buf : List UInt8) : crc32 buf ≠ crc32Standard buf := by
  intro heq
  rw [crc32_eq_standard_xor] at heq
  apply iterate_shift_start_ne (8 * buf.length)
  rw [← BitVec.xor_right_inj (crc32 buf), ← heq, BitVec.xor_zero]

/-- The standard checksum of "123" is `0x884863D2`. -/
theorem crc32_ne_standard_digits :
    crc32Standard [0x31, 0x32, 0x33] = 0x884863D2 ∧ crc32 [0x31, 0x32, 0x33] = 0x88F6453F ∧
      ¬ crc32 [0x31, 0x32, 0x33] = crc32Standard [0x31, 0x32, 0x33] := by
  decide +kernel

end MyLibraries.Crc
