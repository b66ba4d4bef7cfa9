import MyLibraries.Plbus.Crc

/-!
# CRC-16

The words of the table are eight shifts of the reflected polynomial `0xA001`, which move
a register towards its lowest bit, while the loop of `crc16` moves it towards its highest.
So a step loses what the low byte of a word holds: a byte touches only the bits 0, 6
and 7 of it (`crc16Tab_low`). Two bytes that differ can leave one register, and are then
lost for good. The pairs of differences that are lost are `Lost`, and nothing that comes
before or after matters (`crc16_ne_iff`).
-/

namespace MyLibraries.Crc

open Register

def crc16Tab : List (BitVec 16) :=
   [0x0000, 0xC0C1, 0xC181, 0x0140, 0xC301, 0x03C0, 0x0280, 0xC241,
    0xC601, 0x06C0, 0x0780, 0xC741, 0x0500, 0xC5C1, 0xC481, 0x0440,
    0xCC01, 0x0CC0, 0x0D80, 0xCD41, 0x0F00, 0xCFC1, 0xCE81, 0x0E40,
    0x0A00, 0xCAC1, 0xCB81, 0x0B40, 0xC901, 0x09C0, 0x0880, 0xC841,
    0xD801, 0x18C0, 0x1980, 0xD941, 0x1B00, 0xDBC1, 0xDA81, 0x1A40,
    0x1E00, 0xDEC1, 0xDF81, 0x1F40, 0xDD01, 0x1DC0, 0x1C80, 0xDC41,
    0x1400, 0xD4C1, 0xD581, 0x1540, 0xD701, 0x17C0, 0x1680, 0xD641,
    0xD201, 0x12C0, 0x1380, 0xD341, 0x1100, 0xD1C1, 0xD081, 0x1040,
    0xF001, 0x30C0, 0x3180, 0xF141, 0x3300, 0xF3C1, 0xF281, 0x3240,
    0x3600, 0xF6C1, 0xF781, 0x3740, 0xF501, 0x35C0, 0x3480, 0xF441,
    0x3C00, 0xFCC1, 0xFD81, 0x3D40, 0xFF01, 0x3FC0, 0x3E80, 0xFE41,
    0xFA01, 0x3AC0, 0x3B80, 0xFB41, 0x3900, 0xF9C1, 0xF881, 0x3840,
    0x2800, 0xE8C1, 0xE981, 0x2940, 0xEB01, 0x2BC0, 0x2A80, 0xEA41,
    0xEE01, 0x2EC0, 0x2F80, 0xEF41, 0x2D00, 0xEDC1, 0xEC81, 0x2C40,
    0xE401, 0x24C0, 0x2580, 0xE541, 0x2700, 0xE7C1, 0xE681, 0x2640,
    0x2200, 0xE2C1, 0xE381, 0x2340, 0xE101, 0x21C0, 0x2080, 0xE041,
    0xA001, 0x60C0, 0x6180, 0xA141, 0x6300, 0xA3C1, 0xA281, 0x6240,
    0x6600, 0xA6C1, 0xA781, 0x6740, 0xA501, 0x65C0, 0x6480, 0xA441,
    0x6C00, 0xACC1, 0xAD81, 0x6D40, 0xAF01, 0x6FC0, 0x6E80, 0xAE41,
    0xAA01, 0x6AC0, 0x6B80, 0xAB41, 0x6900, 0xA9C1, 0xA881, 0x6840,
    0x7800, 0xB8C1, 0xB981, 0x7940, 0xBB01, 0x7BC0, 0x7A80, 0xBA41,
    0xBE01, 0x7EC0, 0x7F80, 0xBF41, 0x7D00, 0xBDC1, 0xBC81, 0x7C40,
    0xB401, 0x74C0, 0x7580, 0xB541, 0x7700, 0xB7C1, 0xB681, 0x7640,
    0x7200, 0xB2C1, 0xB381, 0x7340, 0xB101, 0x71C0, 0x7080, 0xB041,
    0x5000, 0x90C1, 0x9181, 0x5140, 0x9301, 0x53C0, 0x5280, 0x9241,
    0x9601, 0x56C0, 0x5780, 0x9741, 0x5500, 0x95C1, 0x9481, 0x5440,
    0x9C01, 0x5CC0, 0x5D80, 0x9D41, 0x5F00, 0x9FC1, 0x9E81, 0x5E40,
    0x5A00, 0x9AC1, 0x9B81, 0x5B40, 0x9901, 0x59C0, 0x5880, 0x9841,
    0x8801, 0x48C0, 0x4980, 0x8941, 0x4B00, 0x8BC1, 0x8A81, 0x4A40,
    0x4E00, 0x8EC1, 0x8F81, 0x4F40, 0x8D01, 0x4DC0, 0x4C80, 0x8C41,
    0x4400, 0x84C1, 0x8581, 0x4540, 0x8701, 0x47C0, 0x4680, 0x8641,
    0x8201, 0x42C0, 0x4380, 0x8341, 0x4100, 0x81C1, 0x8081, 0x4040]

/-- The body of the loop of `crc16`. -/
def crc16Step (crc : BitVec 16) (byte : BitVec 8) : BitVec 16 :=
  (crc <<< 8) ^^^ crc16Tab.getD ((crc >>> 8) ^^^ byte.setWidth 16).toNat 0

def crc16 (buf : List UInt8) : BitVec 16 :=
  feed crc16Step 0#16 (buf.map UInt8.toBitVec)

/-- The exclusive or of the bits of a byte. -/
def parity (d : BitVec 8) : Bool :=
  d.getLsbD 0 ^^ d.getLsbD 1 ^^ d.getLsbD 2 ^^ d.getLsbD 3 ^^
    d.getLsbD 4 ^^ d.getLsbD 5 ^^ d.getLsbD 6 ^^ d.getLsbD 7

/-- Differences of two consecutive bytes that leave no trace: the two low bits of the first
are its parity, and the second follows from the first. -/
structure Lost (d e : BitVec 8) : Prop where
  bit0 : d.getLsbD 0 = parity d
  bit1 : d.getLsbD 1 = parity d
  second : e = (d >>> 1) ^^^ (d >>> 2) ^^^ if parity d then 0x3C#8 else 0#8

/-- The difference of two byte strings at an index. -/
def difference (a b : List UInt8) (i : Nat) : BitVec 8 :=
  (a.getD i 0).toBitVec ^^^ (b.getD i 0).toBitVec

variable {a b : List UInt8}

/-! ## The two copies -/

theorem crc16_eq_plbus (buf : List UInt8) : crc16 buf = Plbus.crc16 buf := rfl

theorem crc16Step_linear : LinearStep crc16Step := Plbus.crcStep_linear

/-! ## Words of the table -/

/-- The word of a byte. -/
def entry (i : BitVec 8) : BitVec 16 := crc16Tab.getD i.toNat 0

def high (c : BitVec 16) : BitVec 8 := (c >>> 8).setWidth 8

def low (c : BitVec 16) : BitVec 8 := c.setWidth 8

theorem eq_of_halves {c d : BitVec 16} (hhigh : high c = high d) (hlow : low c = low d) :
    c = d := by
  apply BitVec.eq_of_getLsbD_eq
  intro i hi
  by_cases h8 : i < 8
  · have hbit := congrArg (fun x : BitVec 8 => x.getLsbD i) hlow
    simpa [low, BitVec.getLsbD_setWidth, h8] using hbit
  · have hbit := congrArg (fun x : BitVec 8 => x.getLsbD (i - 8)) hhigh
    simpa [high, BitVec.getLsbD_setWidth, BitVec.getLsbD_ushiftRight, show i - 8 < 8 by omega,
      show 8 + (i - 8) = i by omega] using hbit

theorem eq_zero_iff_halves {c : BitVec 16} : c = 0#16 ↔ high c = 0#8 ∧ low c = 0#8 := by
  constructor
  · rintro rfl
    exact ⟨rfl, rfl⟩
  · rintro ⟨hhigh, hlow⟩
    exact eq_of_halves hhigh hlow

/-- The low byte of a word: the bits 0, 6 and 7 only. -/
def entryLow (i : BitVec 8) : BitVec 8 :=
  (BitVec.ofBool (parity i)).setWidth 8 ^^^ (BitVec.ofBool (i.getLsbD 0)).setWidth 8 <<< 6 ^^^
    (BitVec.ofBool (i.getLsbD 0 ^^ i.getLsbD 1)).setWidth 8 <<< 7

/-- The high byte of a word. -/
def entryHigh (i : BitVec 8) : BitVec 8 :=
  (i >>> 1) ^^^ (i >>> 2) ^^^ if parity i then 0xC0#8 else 0#8

theorem crc16Tab_eq : crc16Tab =
    (List.range 256).map fun i => entryHigh (BitVec.ofNat 8 i) ++ entryLow (BitVec.ofNat 8 i) := by
  decide +kernel

theorem entry_eq (i : BitVec 8) : entry i = entryHigh i ++ entryLow i := by
  rw [entry, crc16Tab_eq, List.getD_eq_getElem?_getD, List.getElem?_map,
    List.getElem?_range i.isLt, Option.map_some, Option.getD_some, BitVec.ofNat_toNat,
    BitVec.setWidth_eq]

theorem high_entry (i : BitVec 8) : high (entry i) = entryHigh i := by
  rw [entry_eq]
  exact BitVec.extractLsb'_append_eq_left

theorem low_entry (i : BitVec 8) : low (entry i) = entryLow i := by
  rw [entry_eq]
  exact BitVec.setWidth_append_eq_right

/-- What the three bits give. -/
def lowBytes : List (BitVec 8) := [0x00, 0x01, 0x40, 0x41, 0x80, 0x81, 0xC0, 0xC1]

theorem entryLow_mem (i : BitVec 8) : entryLow i ∈ lowBytes := by
  rw [entryLow]
  cases parity i <;> cases i.getLsbD 0 <;> cases i.getLsbD 1 <;> decide

theorem entryLow_even (i : BitVec 8) : entryLow i = 0#8 ↔
    i.getLsbD 0 = false ∧ i.getLsbD 1 = false ∧ parity i = false := by
  rw [entryLow]
  cases parity i <;> cases i.getLsbD 0 <;> cases i.getLsbD 1 <;> decide

theorem entryLow_odd (i : BitVec 8) : entryLow i = 0x41#8 ↔
    i.getLsbD 0 = true ∧ i.getLsbD 1 = true ∧ parity i = true := by
  rw [entryLow]
  cases parity i <;> cases i.getLsbD 0 <;> cases i.getLsbD 1 <;> decide

/-- The words that are the low byte of a word, moved up. -/
theorem entry_aligned : ∀ i : BitVec 8, entryLow i = 0#8 → entryHigh i ∈ lowBytes →
    i = 0#8 ∨ i = 0xFC#8 := by
  decide +kernel

theorem entry_unaligned : ∀ i : BitVec 8, entryLow i = 0x41#8 →
    entryHigh i ^^^ 0xFC#8 ∉ lowBytes := by
  decide +kernel

/-! ## Steps -/

theorem crc16Step_eq (c : BitVec 16) (x : BitVec 8) :
    crc16Step c x = (c <<< 8) ^^^ entry (high c ^^^ x) := by
  have hindex : ((c >>> 8) ^^^ x.setWidth 16).toNat = (high c ^^^ x).toNat := by
    have hhigh : (c >>> 8).toNat < 256 := by
      rw [BitVec.toNat_ushiftRight, Nat.shiftRight_eq_div_pow]
      have := c.isLt
      omega
    rw [BitVec.toNat_xor, BitVec.toNat_xor, high, BitVec.toNat_setWidth, BitVec.toNat_setWidth,
      Nat.mod_eq_of_lt (x.isLt.trans (by decide)), Nat.mod_eq_of_lt hhigh]
  rw [crc16Step, hindex, entry]

theorem high_step (c : BitVec 16) (x : BitVec 8) :
    high (crc16Step c x) = low c ^^^ high (entry (high c ^^^ x)) := by
  have hlow : (c <<< 8 >>> 8).setWidth 8 = low c := by
    apply BitVec.eq_of_getLsbD_eq
    intro i hi
    rw [low, BitVec.getLsbD_setWidth, BitVec.getLsbD_setWidth, BitVec.getLsbD_ushiftRight,
      BitVec.getLsbD_shiftLeft, Nat.add_sub_cancel_left]
    simp [show 8 + i < 16 by omega, show ¬ 8 + i < 8 by omega]
  rw [crc16Step_eq, high, BitVec.ushiftRight_xor_distrib, BitVec.setWidth_xor, hlow]
  rfl

theorem low_step (c : BitVec 16) (x : BitVec 8) :
    low (crc16Step c x) = low (entry (high c ^^^ x)) := by
  have hlow : (c <<< 8).setWidth 8 = 0#8 := by
    apply BitVec.eq_of_getLsbD_eq
    intro i hi
    simp [hi]
  rw [crc16Step_eq, low, BitVec.setWidth_xor, hlow, BitVec.zero_xor]
  rfl

theorem crc16Step_eq_zero_iff (c : BitVec 16) (x : BitVec 8) :
    crc16Step c x = 0#16 ↔
      low (entry (high c ^^^ x)) = 0#8 ∧ low c = high (entry (high c ^^^ x)) := by
  rw [eq_zero_iff_halves, high_step, low_step, BitVec.xor_eq_zero_iff, and_comm]

/-- A register whose halves come from words of the table. -/
def Settled (c : BitVec 16) : Prop :=
  ∃ i j, high c = low (entry i) ^^^ high (entry j) ∧ low c = low (entry j)

theorem settled_zero : Settled 0#16 := ⟨0#8, 0#8, by decide, by decide⟩

theorem Settled.step {c : BitVec 16} (hc : Settled c) (x : BitVec 8) : Settled (crc16Step c x) := by
  obtain ⟨-, j, -, hlow⟩ := hc
  refine ⟨j, high c ^^^ x, ?_, low_step c x⟩
  rw [high_step, hlow]

/-- The words that cancel a settled register. -/
theorem Settled.aligned {c : BitVec 16} (hc : Settled c) {x : BitVec 8}
    (h : crc16Step c x = 0#16) :
    (high c ^^^ x = 0#8 ∧ low c = 0#8) ∨ (high c ^^^ x = 0xFC#8 ∧ low c = 0x41#8) := by
  obtain ⟨-, j, -, hj⟩ := hc
  obtain ⟨hlow, hhigh⟩ := (crc16Step_eq_zero_iff c x).mp h
  rw [low_entry] at hlow hj
  rw [high_entry] at hhigh
  have hmem : entryHigh (high c ^^^ x) ∈ lowBytes := by
    rw [← hhigh, hj]
    exact entryLow_mem j
  rcases entry_aligned _ hlow hmem with hi | hi
  · left
    rw [hhigh, hi]
    exact ⟨rfl, by decide⟩
  · right
    rw [hhigh, hi]
    exact ⟨rfl, by decide⟩

/-- A byte without a difference keeps a difference. -/
theorem Settled.step_zero {c : BitVec 16} (hc : Settled c) :
    crc16Step c 0#8 = 0#16 ↔ c = 0#16 := by
  constructor
  · intro h
    have hcases := hc.aligned h
    rw [BitVec.xor_zero] at hcases
    rcases hcases with ⟨hhigh, hlow⟩ | ⟨hhigh, hlow⟩
    · exact eq_zero_iff_halves.mpr ⟨hhigh, hlow⟩
    · obtain ⟨i, j, hi, hj⟩ := hc
      rw [low_entry] at hi hj
      rw [high_entry] at hi
      have hmem : entryHigh j ^^^ 0xFC#8 ∈ lowBytes := by
        rw [← hhigh, hi, BitVec.xor_comm (entryLow i), ← BitVec.xor_assoc, BitVec.xor_self,
          BitVec.zero_xor]
        exact entryLow_mem i
      exact absurd hmem (entry_unaligned j (hj.symm.trans hlow))
  · rintro rfl
    decide

theorem Settled.feed_zeros {c : BitVec 16} (hc : Settled c) {zs : List (BitVec 8)}
    (hzs : ∀ z ∈ zs, z = 0#8) : feed crc16Step c zs = 0#16 ↔ c = 0#16 := by
  induction zs generalizing c with
  | nil => exact Iff.rfl
  | cons z zs ih =>
    obtain rfl := hzs z (List.mem_cons_self ..)
    show feed crc16Step (crc16Step c 0#8) zs = 0#16 ↔ _
    rw [ih (hc.step 0#8) fun z hz => hzs z (List.mem_cons_of_mem _ hz), hc.step_zero]

/-! ## Two bytes -/

theorem step_two_eq_zero_iff (d e : BitVec 8) :
    crc16Step (crc16Step 0#16 d) e = 0#16 ↔ Lost d e := by
  have hstart : crc16Step 0#16 d = entry d := by
    rw [crc16Step_eq, show high 0#16 = 0#8 by decide, BitVec.zero_xor]
    exact BitVec.zero_xor
  have hsettled : Settled (entry d) := hstart ▸ settled_zero.step d
  have hmove : ∀ k : BitVec 8, high (entry d) ^^^ e = k ↔ e = high (entry d) ^^^ k := by
    intro k
    rw [← BitVec.xor_right_inj (high (entry d)), ← BitVec.xor_assoc, BitVec.xor_self,
      BitVec.zero_xor]
  rw [hstart]
  constructor
  · intro h
    rcases hsettled.aligned h with ⟨hhigh, hlow⟩ | ⟨hhigh, hlow⟩
    · obtain ⟨h0, h1, hp⟩ := (entryLow_even d).mp ((low_entry d).symm.trans hlow)
      refine ⟨h0.trans hp.symm, h1.trans hp.symm, ?_⟩
      rw [(hmove _).mp hhigh, high_entry, entryHigh, hp]
      simp
    · obtain ⟨h0, h1, hp⟩ := (entryLow_odd d).mp ((low_entry d).symm.trans hlow)
      refine ⟨h0.trans hp.symm, h1.trans hp.symm, ?_⟩
      rw [(hmove _).mp hhigh, high_entry, entryHigh, hp, BitVec.xor_assoc]
      rfl
  · rintro ⟨h0, h1, he⟩
    rw [crc16Step_eq_zero_iff]
    cases hp : parity d with
    | false =>
      rw [hp] at h0 h1 he
      have hindex : high (entry d) ^^^ e = 0#8 := by
        rw [hmove, high_entry, entryHigh, hp, he]
        simp
      rw [hindex, low_entry d, (entryLow_even d).mpr ⟨h0, h1, hp⟩]
      decide
    | true =>
      rw [hp] at h0 h1 he
      have hindex : high (entry d) ^^^ e = 0xFC#8 := by
        rw [hmove, high_entry, entryHigh, hp, he, BitVec.xor_assoc _ _ (0xFC#8)]
        rfl
      rw [hindex, low_entry d, (entryLow_odd d).mpr ⟨h0, h1, hp⟩]
      decide

/-! ## Strings -/

theorem difference_eq_zero {i : Nat} (h : a[i]? = b[i]?) : difference a b i = 0#8 := by
  rw [difference, List.getD_eq_getElem?_getD, List.getD_eq_getElem?_getD, h, BitVec.xor_self]

theorem crc16_eq_iff (hlen : a.length = b.length) :
    crc16 a = crc16 b ↔
      feed crc16Step 0#16 ((List.range a.length).map (difference a b)) = 0#16 := by
  have hzip : List.zipWith (· ^^^ ·) (a.map UInt8.toBitVec) (b.map UInt8.toBitVec) =
      (List.range a.length).map (difference a b) := by
    apply List.ext_getElem
    · simp [hlen]
    · intro i hi hj
      have hib : i < b.length := by simpa [hlen] using hj
      have hia : i < a.length := hlen ▸ hib
      simp [difference, hia, hib]
  rw [crc16, crc16, feed_eq_iff_difference crc16Step_linear (by simp [hlen]), hzip]

/-- The two differences decide, whatever stands before and after them. -/
theorem crc16_eq_iff_lost (hlen : a.length = b.length) (hne : a ≠ b) (start : Nat)
    (hwin : ∀ i, a[i]? ≠ b[i]? → i = start ∨ i = start + 1) :
    crc16 a = crc16 b ↔ Lost (difference a b start) (difference a b (start + 1)) := by
  have hsame : ∀ i, ¬ (i = start ∨ i = start + 1) → difference a b i = 0#8 := by
    intro i hi
    apply difference_eq_zero
    by_contra hdiff
    exact hi (hwin i hdiff)
  have hstart : start < a.length := by
    by_contra hout
    apply hne
    apply List.ext_getElem?
    intro i
    by_contra hdiff
    have hi := hwin i hdiff
    apply hdiff
    rw [List.getElem?_eq_none (by omega), List.getElem?_eq_none (by omega)]
  -- what stands before the two bytes leaves the register empty
  have hbefore : feed crc16Step 0#16 ((List.range start).map (difference a b)) = 0#16 := by
    apply (settled_zero.feed_zeros _).mpr rfl
    intro z hz
    obtain ⟨i, hi, rfl⟩ := List.mem_map.mp hz
    have := List.mem_range.mp hi
    exact hsame i (by omega)
  rw [crc16_eq_iff hlen, ← step_two_eq_zero_iff]
  obtain ⟨k, hk⟩ := Nat.exists_eq_add_of_lt hstart
  cases k with
  | zero =>
    have hlast : difference a b (start + 1) = 0#8 := by
      apply difference_eq_zero
      rw [List.getElem?_eq_none (by omega), List.getElem?_eq_none (by omega)]
    rw [hk, Nat.add_zero, List.range_succ, List.map_append, feed_append, hbefore, hlast,
      (settled_zero.step _).step_zero]
    rfl
  | succ k =>
    have hsplit : (List.range (start + 2 + k)).map (difference a b) =
        (List.range start).map (difference a b) ++
          difference a b start :: difference a b (start + 1) ::
            (List.range k).map (fun i => difference a b (start + 2 + i)) := by
      rw [List.range_add, List.range_succ, List.range_succ]
      simp
    rw [hk, show start + (k + 1) + 1 = start + 2 + k by omega, hsplit, feed_append, hbefore]
    have hsettled := (settled_zero.step (difference a b start)).step (difference a b (start + 1))
    have hafter : ∀ z ∈ (List.range k).map (fun i => difference a b (start + 2 + i)),
        z = 0#8 := by
      intro z hz
      obtain ⟨i, -, rfl⟩ := List.mem_map.mp hz
      exact hsame _ (by omega)
    exact hsettled.feed_zeros hafter

/-- **Which bursts of two bytes are detected**: all but those whose differences are lost. -/
theorem crc16_ne_iff (a b : List UInt8) (hlen : a.length = b.length) (hne : a ≠ b) (start : Nat)
    (hwin : ∀ i, a[i]? ≠ b[i]? → i = start ∨ i = start + 1) :
    (crc16 a ≠ crc16 b ↔ ¬ Lost (difference a b start) (difference a b (start + 1))) ∧
      (Plbus.crc16 a ≠ Plbus.crc16 b ↔
        ¬ Lost (difference a b start) (difference a b (start + 1))) := by
  have hdetected := not_congr (crc16_eq_iff_lost hlen hne start hwin)
  refine ⟨hdetected, ?_⟩
  rw [← crc16_eq_plbus, ← crc16_eq_plbus]
  exact hdetected

/-- A burst that is detected, at the end of a string. -/
theorem crc16_ne_iff_digits :
    crc16 [0x31, 0x32, 0x33] ≠ crc16 [0x31, 0x32, 0x34] ∧
      Plbus.crc16 [0x31, 0x32, 0x33] ≠ Plbus.crc16 [0x31, 0x32, 0x34] := by
  have hwin : ∀ i : Nat, ([0x31, 0x32, 0x33] : List UInt8)[i]? ≠ [0x31, 0x32, 0x34][i]? →
      i = 2 ∨ i = 2 + 1 := by
    intro i hi
    match i with
    | 0 => exact absurd rfl hi
    | 1 => exact absurd rfl hi
    | 2 => exact Or.inl rfl
    | i + 3 => exact absurd rfl hi
  obtain ⟨hcrc, hplbus⟩ := crc16_ne_iff [0x31, 0x32, 0x33] [0x31, 0x32, 0x34] rfl (by decide) 2 hwin
  have hkept : ¬ Lost (difference [0x31, 0x32, 0x33] [0x31, 0x32, 0x34] 2)
      (difference [0x31, 0x32, 0x33] [0x31, 0x32, 0x34] (2 + 1)) :=
    fun h => absurd h.second (by decide)
  exact ⟨hcrc.mpr hkept, hplbus.mpr hkept⟩

/-- Two bytes that differ, in messages of four, and are lost. -/
theorem crc16_misses_burst :
    (∀ i : Nat, ([0x31, 0x32, 0x33, 0x34] : List UInt8)[i]? ≠ [0x31, 0x3E, 0x36, 0x34][i]? →
      i = 1 ∨ i = 2) ∧
    ¬ ([0x31, 0x32, 0x33, 0x34] : List UInt8) = [0x31, 0x3E, 0x36, 0x34] ∧
    ¬ crc16 [0x31, 0x32, 0x33, 0x34] ≠ crc16 [0x31, 0x3E, 0x36, 0x34] ∧
    ¬ Plbus.crc16 [0x31, 0x32, 0x33, 0x34] ≠ Plbus.crc16 [0x31, 0x3E, 0x36, 0x34] := by
  refine ⟨?_, by decide, by decide +kernel, by decide +kernel⟩
  intro i hi
  match i with
  | 0 => exact absurd rfl hi
  | 1 => exact Or.inl rfl
  | 2 => exact Or.inr rfl
  | 3 => exact absurd rfl hi
  | i + 4 => exact absurd rfl hi

end MyLibraries.Crc
