import MyLibraries.Bme280.Model

/-!
# Where the calibration of `BME280` comes from

`bme280_init` reads one byte of the registers behind `0xE4` where four are meant: `h4` and
`h5` get three bits each of bytes that nobody wrote, and `h5` all its high bits. Two runs on
one sensor leave the same calibration exactly when the stack agrees on these bits
(`init_calibration_iff`); what the device structure held before makes no difference.
-/

namespace MyLibraries.Bme280

/-- A chip that answers every read, from these registers. -/
def responding (regs : UInt8 → UInt8) : ReadReg := fun reg _ =>
  (0, fun i => regs (reg + UInt8.ofNat i))

/-- The identification is one of the two that the driver knows. -/
def Known (regs : UInt8 → UInt8) : Prop := regs regId = 0x58 ∨ regs regId = 0x60

instance (regs : UInt8 → UInt8) : Decidable (Known regs) := inferInstanceAs (Decidable (_ ∨ _))

/-- The results of a measurement are the same; only a `BME280` measures the humidity. -/
def SameResults (r r' : UInt8 × Bme) : Prop :=
  r.1 = r'.1 ∧ (r.1 = 0 → r.2.temperature = r'.2.temperature ∧ r.2.pressure = r'.2.pressure ∧
    (r.2.chip = .bme280 → r.2.humidity = r'.2.humidity))

/-- What the stack contributes to `h4` and `h5`. -/
def SameBits (buf buf' : Buf) : Prop :=
  buf 1 &&& (0x07 : UInt8) = buf' 1 &&& 0x07 ∧
    buf 2 &&& (0x07 : UInt8) = buf' 2 &&& 0x07 ∧ buf 3 = buf' 3

variable {regs : UInt8 → UInt8} {dev dev' : Bme} {buf buf' : Buf}
  {low low' high high' : UInt8}

/-! ## Two fields in one word -/

theorem pack_toNat (low high : UInt8) :
    ((low &&& 0x07).toUInt16 ||| high.toUInt16 <<< 4).toNat =
      16 * high.toNat + (low &&& 0x07).toNat := by
  have hlow : (low &&& 0x07).toNat < 2 ^ 4 := by
    rw [UInt8.toNat_and]
    exact Nat.lt_of_le_of_lt Nat.and_le_right (by decide)
  have hhigh := high.toNat_lt
  have hshift : (high.toUInt16 <<< 4).toNat = 2 ^ 4 * high.toNat := by
    rw [UInt16.toNat_shiftLeft, UInt8.toNat_toUInt16, Nat.shiftLeft_eq]
    show high.toNat * 2 ^ 4 % 2 ^ 16 = _
    omega
  rw [UInt16.toNat_or, hshift, UInt8.toNat_toUInt16, Nat.or_comm,
    ← Nat.two_pow_add_eq_or_of_lt hlow]

theorem pack_inj : ((low &&& 0x07).toUInt16 ||| high.toUInt16 <<< 4).toInt16 =
    ((low' &&& 0x07).toUInt16 ||| high'.toUInt16 <<< 4).toInt16 ↔
      low &&& 0x07 = low' &&& 0x07 ∧ high = high' := by
  constructor
  · intro h
    have hword := congrArg (fun x : Int16 => x.toUInt16.toNat) h
    have hnat : ((low &&& 0x07).toUInt16 ||| high.toUInt16 <<< 4).toNat =
      ((low' &&& 0x07).toUInt16 ||| high'.toUInt16 <<< 4).toNat := hword
    rw [pack_toNat, pack_toNat] at hnat
    have hlow : ∀ low : UInt8, (low &&& 0x07).toNat < 16 := by
      intro low
      rw [UInt8.toNat_and]
      exact Nat.lt_of_le_of_lt Nat.and_le_right (by decide)
    have h₁ := hlow low
    have h₂ := hlow low'
    exact ⟨UInt8.toNat_inj.mp (by omega), UInt8.toNat_inj.mp (by omega)⟩
  · rintro ⟨hlow, rfl⟩
    rw [hlow]

/-! ## One run -/

/-- What the registers alone determine. -/
def fromRegs (regs : UInt8 → UInt8) : Const :=
  let block := (responding regs 0x88 24).2
  let h2 := (responding regs 0xE1 2).2
  { Const.setBlock ⟨0, 0, 0, 0, 0, 0, 0, 0, 0, 0, 0, 0, 0, 0, 0, 0, 0, 0⟩ block with
    h1 := (responding regs 0xA1 1).2 0
    h2 := (word (h2 0) (h2 1)).toInt16
    h3 := (responding regs 0xE3 1).2 0
    h6 := ((responding regs 0xE7 1).2 0).toInt8 }

theorem checkId_idWrong_iff (regs : UInt8 → UInt8) :
    checkId (responding regs) = .idWrong ↔ ¬Known regs := by
  have hbyte : (responding regs regId 1).2 0 = regs regId := by
    simp [responding]
  unfold checkId Known
  dsimp only
  rw [if_neg (fun hne => hne rfl), hbyte]
  split
  · rename_i h
    exact iff_of_false (by decide) fun hne => hne (Or.inl h)
  · rename_i h₁
    split
    · rename_i h₂
      exact iff_of_false (by decide) fun hne => hne (Or.inr h₂)
    · rename_i h₂
      exact iff_of_true rfl fun h => h.elim h₁ h₂

/-- A successful call. -/
theorem init_known (hid : Known regs) (buf : Buf) (dev : Bme) :
    (init (responding regs) buf dev).1 = 0 ∧
      (init (responding regs) buf dev).2.1.chip = checkId (responding regs) ∧
      (init (responding regs) buf dev).2.1.calibration =
        (fromRegs regs).setBuf (Function.update buf 0 ((responding regs 0xE4 1).2 0)) := by
  have hchip : checkId (responding regs) ≠ .idWrong := fun heq =>
    (checkId_idWrong_iff regs).mp heq hid
  unfold init
  dsimp only
  rw [if_neg hchip]
  exact ⟨rfl, rfl, rfl⟩

/-- A call that finds another chip. -/
theorem init_unknown (hid : ¬Known regs) (buf : Buf) (dev : Bme) :
    (init (responding regs) buf dev).2.1.chip = checkId (responding regs) ∧
      (init (responding regs) buf dev).2.1.calibration = dev.calibration := by
  have hchip := (checkId_idWrong_iff regs).mpr hid
  unfold init
  dsimp only
  rw [if_pos hchip]
  exact ⟨rfl, rfl⟩

/-! ## Two runs -/

theorem setBuf_update (c : Const) (buf : Buf) (first : UInt8) :
    c.setBuf (Function.update buf 0 first) = { c with
      h4 := ((buf 1 &&& 0x07).toUInt16 ||| first.toUInt16 <<< 4).toInt16
      h5 := ((buf 2 &&& 0x07).toUInt16 ||| (buf 3).toUInt16 <<< 4).toInt16 } := rfl

/-- The stack shows in the two words that are made of it. -/
theorem setBuf_eq_iff (c : Const) (first : UInt8) :
    c.setBuf (Function.update buf 0 first) = c.setBuf (Function.update buf' 0 first) ↔
      SameBits buf buf' := by
  rw [setBuf_update, setBuf_update]
  constructor
  · intro heq
    have h4 := pack_inj.mp (congrArg Const.h4 heq)
    have h5 := pack_inj.mp (congrArg Const.h5 heq)
    exact ⟨h4.1, h5⟩
  · rintro ⟨hfirst, hsecond, hthird⟩
    rw [hfirst, hsecond, hthird]

/-- The results are made of the measurement and the calibration. -/
theorem sameResults_of_calibration (hcal : dev.calibration = dev'.calibration)
    (hchip : dev.chip = dev'.chip) (readReg : ReadReg) :
    SameResults (getResult readReg dev) (getResult readReg dev') := by
  unfold getResult SameResults
  rw [hcal]
  split
  · exact ⟨rfl, fun h => nomatch h⟩
  · dsimp only
    rw [hchip]
    split
    · exact ⟨rfl, fun _ => ⟨rfl, rfl, fun _ => rfl⟩⟩
    · rename_i hne
      exact ⟨rfl, fun _ => ⟨rfl, rfl, fun h => absurd h hne⟩⟩

/-- **When two runs of `bme280_init` on one chip agree**: when the stack does, on the bits
that were not read. On a chip that it does not know nothing is read at all. -/
theorem init_calibration_iff (regs : UInt8 → UInt8) (dev dev' : Bme) (buf buf' : Buf) :
    ((init (responding regs) buf dev).2.1.calibration =
        (init (responding regs) buf' dev').2.1.calibration ∧
      ∀ readReg, SameResults (getResult readReg (init (responding regs) buf dev).2.1)
        (getResult readReg (init (responding regs) buf' dev').2.1)) ↔
      if Known regs then SameBits buf buf' else dev.calibration = dev'.calibration := by
  have hchip : (init (responding regs) buf dev).2.1.chip =
      (init (responding regs) buf' dev').2.1.chip := by
    by_cases hid : Known regs
    · rw [(init_known hid buf dev).2.1, (init_known hid buf' dev').2.1]
    · rw [(init_unknown hid buf dev).1, (init_unknown hid buf' dev').1]
  have hcal : (init (responding regs) buf dev).2.1.calibration =
      (init (responding regs) buf' dev').2.1.calibration ↔
        if Known regs then SameBits buf buf' else dev.calibration = dev'.calibration := by
    split
    · rename_i hid
      rw [(init_known hid buf dev).2.2, (init_known hid buf' dev').2.2, setBuf_eq_iff]
    · rename_i hid
      rw [(init_unknown hid buf dev).2, (init_unknown hid buf' dev').2]
  rw [← hcal]
  constructor
  · exact fun h => h.1
  · exact fun h => ⟨h, sameResults_of_calibration h hchip⟩

/-- A device structure with nothing in it. -/
def blank : Bme :=
  ⟨0, 0, 0, 0, .skipped, .skipped, .skipped,
    ⟨0, 0, 0, 0, 0, 0, 0, 0, 0, 0, 0, 0, 0, 0, 0, 0, 0, 0⟩, .idWrong⟩

/-- Two stacks, and a sensor that answers the same: the calibration differs, and so does the
humidity of one measurement. -/
theorem init_reads_stack :
    let sensor : UInt8 → UInt8 := fun reg =>
      if reg = regId then 0x60 else if reg = 0xE1 then 0x63 else if reg = 0xE2 then 0x01
      else if reg = 0xFD then 0x40 else 0
    let dev := (init (responding sensor) (fun _ => 0) blank).2.1
    let dev' := (init (responding sensor) (fun i => if i = 1 then 7 else 0) blank).2.1
    dev.calibration.h4 = 0 ∧ dev'.calibration.h4 = 7 ∧
      (getResult (responding sensor) dev).2.humidity ≠
        (getResult (responding sensor) dev').2.humidity := by
  decide +kernel

end MyLibraries.Bme280
