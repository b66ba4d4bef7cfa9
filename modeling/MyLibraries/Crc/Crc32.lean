import MyLibraries.Core.Feedback

/-!
# CRC-32

`crc32` takes a byte at a time through a table of 256 words. The table is eight shifts of
the polynomial `0xEDB88320`, lowest bit first, so a byte is eight message bits of a
feedback register, and the checksum is the state that the bits of the buffer leave.
-/

namespace MyLibraries.Crc

open Register Feedback

def crc32Tab : List (BitVec 32) :=
   [0x00000000, 0x77073096, 0xee0e612c, 0x990951ba, 0x076dc419, 0x706af48f, 0xe963a535, 0x9e6495a3,
    0x0edb8832, 0x79dcb8a4, 0xe0d5e91e, 0x97d2d988, 0x09b64c2b, 0x7eb17cbd, 0xe7b82d07, 0x90bf1d91,
    0x1db71064, 0x6ab020f2, 0xf3b97148, 0x84be41de, 0x1adad47d, 0x6ddde4eb, 0xf4d4b551, 0x83d385c7,
    0x136c9856, 0x646ba8c0, 0xfd62f97a, 0x8a65c9ec, 0x14015c4f, 0x63066cd9, 0xfa0f3d63, 0x8d080df5,
    0x3b6e20c8, 0x4c69105e, 0xd56041e4, 0xa2677172, 0x3c03e4d1, 0x4b04d447, 0xd20d85fd, 0xa50ab56b,
    0x35b5a8fa, 0x42b2986c, 0xdbbbc9d6, 0xacbcf940, 0x32d86ce3, 0x45df5c75, 0xdcd60dcf, 0xabd13d59,
    0x26d930ac, 0x51de003a, 0xc8d75180, 0xbfd06116, 0x21b4f4b5, 0x56b3c423, 0xcfba9599, 0xb8bda50f,
    0x2802b89e, 0x5f058808, 0xc60cd9b2, 0xb10be924, 0x2f6f7c87, 0x58684c11, 0xc1611dab, 0xb6662d3d,
    0x76dc4190, 0x01db7106, 0x98d220bc, 0xefd5102a, 0x71b18589, 0x06b6b51f, 0x9fbfe4a5, 0xe8b8d433,
    0x7807c9a2, 0x0f00f934, 0x9609a88e, 0xe10e9818, 0x7f6a0dbb, 0x086d3d2d, 0x91646c97, 0xe6635c01,
    0x6b6b51f4, 0x1c6c6162, 0x856530d8, 0xf262004e, 0x6c0695ed, 0x1b01a57b, 0x8208f4c1, 0xf50fc457,
    0x65b0d9c6, 0x12b7e950, 0x8bbeb8ea, 0xfcb9887c, 0x62dd1ddf, 0x15da2d49, 0x8cd37cf3, 0xfbd44c65,
    0x4db26158, 0x3ab551ce, 0xa3bc0074, 0xd4bb30e2, 0x4adfa541, 0x3dd895d7, 0xa4d1c46d, 0xd3d6f4fb,
    0x4369e96a, 0x346ed9fc, 0xad678846, 0xda60b8d0, 0x44042d73, 0x33031de5, 0xaa0a4c5f, 0xdd0d7cc9,
    0x5005713c, 0x270241aa, 0xbe0b1010, 0xc90c2086, 0x5768b525, 0x206f85b3, 0xb966d409, 0xce61e49f,
    0x5edef90e, 0x29d9c998, 0xb0d09822, 0xc7d7a8b4, 0x59b33d17, 0x2eb40d81, 0xb7bd5c3b, 0xc0ba6cad,
    0xedb88320, 0x9abfb3b6, 0x03b6e20c, 0x74b1d29a, 0xead54739, 0x9dd277af, 0x04db2615, 0x73dc1683,
    0xe3630b12, 0x94643b84, 0x0d6d6a3e, 0x7a6a5aa8, 0xe40ecf0b, 0x9309ff9d, 0x0a00ae27, 0x7d079eb1,
    0xf00f9344, 0x8708a3d2, 0x1e01f268, 0x6906c2fe, 0xf762575d, 0x806567cb, 0x196c3671, 0x6e6b06e7,
    0xfed41b76, 0x89d32be0, 0x10da7a5a, 0x67dd4acc, 0xf9b9df6f, 0x8ebeeff9, 0x17b7be43, 0x60b08ed5,
    0xd6d6a3e8, 0xa1d1937e, 0x38d8c2c4, 0x4fdff252, 0xd1bb67f1, 0xa6bc5767, 0x3fb506dd, 0x48b2364b,
    0xd80d2bda, 0xaf0a1b4c, 0x36034af6, 0x41047a60, 0xdf60efc3, 0xa867df55, 0x316e8eef, 0x4669be79,
    0xcb61b38c, 0xbc66831a, 0x256fd2a0, 0x5268e236, 0xcc0c7795, 0xbb0b4703, 0x220216b9, 0x5505262f,
    0xc5ba3bbe, 0xb2bd0b28, 0x2bb45a92, 0x5cb36a04, 0xc2d7ffa7, 0xb5d0cf31, 0x2cd99e8b, 0x5bdeae1d,
    0x9b64c2b0, 0xec63f226, 0x756aa39c, 0x026d930a, 0x9c0906a9, 0xeb0e363f, 0x72076785, 0x05005713,
    0x95bf4a82, 0xe2b87a14, 0x7bb12bae, 0x0cb61b38, 0x92d28e9b, 0xe5d5be0d, 0x7cdcefb7, 0x0bdbdf21,
    0x86d3d2d4, 0xf1d4e242, 0x68ddb3f8, 0x1fda836e, 0x81be16cd, 0xf6b9265b, 0x6fb077e1, 0x18b74777,
    0x88085ae6, 0xff0f6a70, 0x66063bca, 0x11010b5c, 0x8f659eff, 0xf862ae69, 0x616bffd3, 0x166ccf45,
    0xa00ae278, 0xd70dd2ee, 0x4e048354, 0x3903b3c2, 0xa7672661, 0xd06016f7, 0x4969474d, 0x3e6e77db,
    0xaed16a4a, 0xd9d65adc, 0x40df0b66, 0x37d83bf0, 0xa9bcae53, 0xdebb9ec5, 0x47b2cf7f, 0x30b5ffe9,
    0xbdbdf21c, 0xcabac28a, 0x53b39330, 0x24b4a3a6, 0xbad03605, 0xcdd70693, 0x54de5729, 0x23d967bf,
    0xb3667a2e, 0xc4614ab8, 0x5d681b02, 0x2a6f2b94, 0xb40bbe37, 0xc30c8ea1, 0x5a05df1b, 0x2d02ef8d]

/-- The body of the loop of `crc32`. -/
def crc32Step (crc : BitVec 32) (byte : BitVec 8) : BitVec 32 :=
  crc32Tab.getD ((crc ^^^ byte.setWidth 32) &&& 0xFF#32).toNat 0 ^^^ (crc >>> 8)

def crc32 (buf : List UInt8) : BitVec 32 :=
  feed crc32Step 0#32 (buf.map UInt8.toBitVec) ^^^ ~~~0#32

/-- The polynomial of the table. -/
def poly : BitVec 32 := 0xEDB88320

/-- The bits of a byte, lowest first. -/
def byteBits (byte : BitVec 8) : List (BitVec 1) :=
  (List.range 8).map fun i => BitVec.ofBool (byte.getLsbD i)

/-- The bits of a byte string, in the order in which they enter the register. -/
def bits (buf : List UInt8) : List (BitVec 1) := buf.flatMap fun byte => byteBits byte.toBitVec

variable {a b : List UInt8}

/-! ## The table -/

theorem crc32Tab_eq :
    crc32Tab = (List.range 256).map fun i => (shift poly)^[8] (BitVec.ofNat 32 i) := by
  decide +kernel

theorem crc32Tab_getD {i : Nat} (hi : i < 256) :
    crc32Tab.getD i 0 = (shift poly)^[8] (BitVec.ofNat 32 i) := by
  rw [crc32Tab_eq, List.getD_eq_getElem?_getD, List.getElem?_map, List.getElem?_range hi]
  rfl

theorem word_byteBits {w : Nat} (byte : BitVec 8) :
    word w (byteBits byte) = byte.setWidth w := by
  apply BitVec.eq_of_getLsbD_eq
  intro i hi
  rw [word_getLsbD, BitVec.getLsbD_setWidth, byteBits, List.getD_eq_getElem?_getD,
    List.getElem?_map]
  by_cases h8 : i < 8
  · rw [List.getElem?_range h8]
    cases hb : byte.getLsbD i <;> simp [hb]
  · rw [List.getElem?_eq_none (by simp; omega), BitVec.getLsbD_of_ge byte i (by omega)]
    simp

theorem low_getLsbD (x : BitVec 32) (i : Nat) :
    (x &&& 0xFF#32).getLsbD i = (x.getLsbD i && decide (i < 8)) := by
  have hmask : (255 : Nat).testBit i = decide (i < 8) := Nat.testBit_two_pow_sub_one 8 i
  rw [BitVec.getLsbD_and, BitVec.getLsbD_ofNat, hmask]
  by_cases hi : i < 32
  · simp [hi]
  · rw [BitVec.getLsbD_of_ge x i (by omega)]
    rfl

/-- Eight shifts of a register: those of its low byte, and the rest of it moved down. -/
theorem iterate_shift_eight (x : BitVec 32) :
    (shift poly)^[8] x = (shift poly)^[8] (x &&& 0xFF#32) ^^^ (x >>> 8) := by
  have hsplit : x = (x &&& 0xFF#32) ^^^ ((x >>> 8) <<< 8) := by
    apply BitVec.eq_of_getLsbD_eq
    intro i hi
    rw [BitVec.getLsbD_xor, low_getLsbD, BitVec.getLsbD_shiftLeft, BitVec.getLsbD_ushiftRight]
    by_cases h8 : i < 8
    · simp [h8]
    · simp [h8, hi, show 8 + (i - 8) = i by omega]
  have hhigh : (shift poly)^[8] ((x >>> 8) <<< 8) = x >>> 8 := by
    rw [iterate_shift_of_low poly fun i hi => by simp [BitVec.getLsbD_shiftLeft, hi]]
    apply BitVec.eq_of_getLsbD_eq
    intro i hi
    simp only [BitVec.getLsbD_ushiftRight, BitVec.getLsbD_shiftLeft]
    by_cases hlast : 8 + i < 32
    · simp [hlast]
    · rw [BitVec.getLsbD_of_ge x (8 + i) (by omega)]
      simp [hlast]
  conv_lhs => rw [hsplit]
  rw [iterate_shift_xor, hhigh]

/-- **A step of the table is eight bits of the register.** -/
theorem crc32Step_eq (crc : BitVec 32) (byte : BitVec 8) :
    crc32Step crc byte = feed (clock poly) crc (byteBits byte) := by
  have hlen : (byteBits byte).length = 8 := by simp [byteBits]
  have hlow : ((crc ^^^ byte.setWidth 32) &&& 0xFF#32).toNat < 256 := by
    rw [BitVec.toNat_and]
    exact Nat.and_lt_two_pow (n := 8) _ (by decide)
  have hbyte : byte.setWidth 32 >>> 8 = 0#32 := by
    apply BitVec.eq_of_getLsbD_eq
    intro i hi
    rw [BitVec.getLsbD_ushiftRight, BitVec.getLsbD_setWidth, BitVec.getLsbD_of_ge byte _ (by omega),
      Bool.and_false, BitVec.getLsbD_zero]
  rw [feed_clock poly crc _ (by omega), hlen, word_byteBits, iterate_shift_eight, crc32Step,
    crc32Tab_getD hlow, BitVec.ofNat_toNat, BitVec.setWidth_eq, BitVec.ushiftRight_xor_distrib,
    hbyte, BitVec.xor_zero]

/-- A register that takes in bytes as eight bits each takes in the bits of the buffer. -/
theorem feed_bits {w : Nat} {p : BitVec w} {step : BitVec w → BitVec 8 → BitVec w}
    (hstep : ∀ c byte, step c byte = feed (clock p) c (byteBits byte)) (c : BitVec w)
    (buf : List UInt8) :
    feed step c (buf.map UInt8.toBitVec) = feed (clock p) c (bits buf) := by
  induction buf generalizing c with
  | nil => rfl
  | cons byte buf ih =>
    show feed step (step c byte.toBitVec) (buf.map UInt8.toBitVec) = _
    rw [ih, hstep, ← feed_append]
    rfl

/-- The checksum is what the bits of the buffer leave in the register. -/
theorem crc32_eq (buf : List UInt8) :
    crc32 buf = feed (clock poly) 0#32 (bits buf) ^^^ ~~~0#32 := by
  rw [crc32, feed_bits crc32Step_eq]

/-! ## Bursts -/

theorem length_bits (buf : List UInt8) : (bits buf).length = 8 * buf.length := by
  induction buf with
  | nil => rfl
  | cons byte buf ih =>
    rw [bits, List.flatMap_cons, List.length_append, List.length_cons, ← bits, ih]
    simp only [byteBits, List.length_map, List.length_range]
    omega

theorem byteBits_injective {x y : BitVec 8} (h : byteBits x = byteBits y) : x = y := by
  have hword := congrArg (word 8) h
  rw [word_byteBits, word_byteBits] at hword
  simpa only [BitVec.setWidth_eq] using hword

theorem bits_injective (h : bits a = bits b) : a = b := by
  induction a generalizing b with
  | nil =>
    have hlen := congrArg List.length h
    rw [length_bits, length_bits, List.length_nil] at hlen
    exact (List.length_eq_zero_iff.mp (by omega)).symm
  | cons x a ih =>
    cases b with
    | nil =>
      have hlen := congrArg List.length h
      rw [length_bits, length_bits, List.length_cons, List.length_nil] at hlen
      omega
    | cons y b =>
      rw [bits, bits, List.flatMap_cons, List.flatMap_cons] at h
      obtain ⟨hbyte, hrest⟩ := List.append_inj h (by simp [byteBits])
      rw [UInt8.toBitVec_inj.mp (byteBits_injective hbyte), ih hrest]

/-- Where two byte strings of one length differ is decided by their bits. -/
theorem differ_in_window (hlen : a.length = b.length) {start stop : Nat}
    (h : ∀ i, i < 8 * a.length → (bits a)[i]? ≠ (bits b)[i]? → start ≤ i ∧ i < stop) (i : Nat)
    (hi : (bits a)[i]? ≠ (bits b)[i]?) : start ≤ i ∧ i < stop := by
  by_cases hin : i < 8 * a.length
  · exact h i hin hi
  · have ha : (bits a).length ≤ i := by
      rw [length_bits]
      omega
    have hb : (bits b).length ≤ i := by
      rw [length_bits, ← hlen]
      omega
    rw [List.getElem?_eq_none ha, List.getElem?_eq_none hb] at hi
    exact absurd rfl hi

/-- **Bursts of up to 32 bits are detected**: byte strings of one length that differ, in
bits that all lie within 32 consecutive ones, have different checksums. -/
theorem crc32_detects_burst (a b : List UInt8) (hlen : a.length = b.length) (hne : a ≠ b)
    (start : Nat) (hwin : ∀ i, (bits a)[i]? ≠ (bits b)[i]? → start ≤ i ∧ i < start + 32) :
    crc32 a ≠ crc32 b := by
  intro heq
  rw [crc32_eq, crc32_eq, BitVec.xor_left_inj] at heq
  have hbits : (bits a).length = (bits b).length := by rw [length_bits, length_bits, hlen]
  exact feed_window poly (by decide) hbits (fun h => hne (bits_injective h)) start hwin 0#32 heq

/-- A burst of two bits across a byte border. -/
theorem crc32_detects_burst_border : crc32 [0x31, 0x32] ≠ crc32 [0xB1, 0x33] := by
  apply crc32_detects_burst [0x31, 0x32] [0xB1, 0x33] rfl (by decide) 7
  refine differ_in_window (by decide) ?_
  decide

example : crc32 [0x31, 0x32, 0x33] = 0x88F6453F := by decide +kernel

end MyLibraries.Crc
