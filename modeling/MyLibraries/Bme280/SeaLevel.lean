import MyLibraries.Bme280.Model

/-!
# `bme280_mmHg` and the pressure at sea level

`bme280_mmHg` cuts the product of the pressure and 760 to 16 bits before it divides, not the
quotient. So the pressure at sea level reads as 760 mm only if it is at most 86 Pa, and any
other pressure reads right only if its product has 16 bits, or is less than the divisor
(`mmHg_correct_iff`). A pressure of 0 at sea level, which is what the compensation gives for
a sensor whose `p1` is 0, is divided by.
-/

namespace MyLibraries.Bme280

variable {readReg : ReadReg} {dev dev' : Bme}

/-- A calibration that succeeds takes over the pressure. -/
theorem calibrate_seaLevel (h : calibrateSeaLevel readReg dev = (0, dev')) :
    dev'.pressure = dev'.seaLevelPressure := by
  unfold calibrateSeaLevel at h
  dsimp only at h
  split at h
  · rename_i hne
    exact absurd (Prod.mk.inj h).1 hne
  · rw [← (Prod.mk.inj h).2]

/-- What `bme280_mmHg` computes. -/
theorem mmHg_eq (dev : Bme) (hne : dev.seaLevelPressure ≠ 0) :
    ∃ v, mmHg dev = some v ∧
      v.toNat = dev.pressure.toNat * 760 % 2 ^ 16 / dev.seaLevelPressure.toNat := by
  refine ⟨_, if_neg hne, ?_⟩
  have hle : dev.pressure.toNat * 760 % 2 ^ 16 / dev.seaLevelPressure.toNat < 2 ^ 16 :=
    Nat.lt_of_le_of_lt (Nat.div_le_self _ _) (Nat.mod_lt _ (by decide))
  have hcut : (dev.pressure * 760).toUInt16.toUInt32.toNat = dev.pressure.toNat * 760 % 2 ^ 16 := by
    rw [UInt16.toNat_toUInt32, UInt32.toNat_toUInt16, UInt32.toNat_mul]
    exact Nat.mod_mod_of_dvd _ (by decide)
  rw [UInt32.toNat_toUInt16, UInt32.toNat_div, hcut, Nat.mod_eq_of_lt hle]

/-- A quotient of what is left of a number behind a cut is that of the number itself when
there is nothing cut off, or when both are 0. -/
theorem cut_div_iff {n d : Nat} (hd : 0 < d) :
    n % 2 ^ 16 / d = n / d ↔ n < 2 ^ 16 ∨ n < d := by
  constructor
  · intro heq
    by_contra hnot
    obtain ⟨hlong, hge⟩ := not_or.mp hnot
    have hone : 1 ≤ n / d := (Nat.one_le_div_iff hd).mpr (Nat.le_of_not_lt hge)
    have hrest : d ≤ n % 2 ^ 16 := (Nat.one_le_div_iff hd).mp (heq ▸ hone)
    have hcut : n % 2 ^ 16 < 2 ^ 16 := Nat.mod_lt _ (by decide)
    have hsum : d + n % 2 ^ 16 ≤ n := by omega
    have hmore := Nat.div_le_div_right (c := d) hsum
    rw [Nat.add_div_left _ hd] at hmore
    omega
  · rintro (hshort | hlt)
    · rw [Nat.mod_eq_of_lt hshort]
    · rw [Nat.div_eq_of_lt hlt, Nat.div_eq_of_lt (Nat.lt_of_le_of_lt (Nat.mod_le _ _) hlt)]

/-- When `bme280_mmHg` gives the quotient. -/
theorem mmHg_eq_div_iff (dev : Bme)
    (hfits : dev.pressure.toNat * 760 / dev.seaLevelPressure.toNat < 2 ^ 16) :
    mmHg dev = some (UInt16.ofNat (dev.pressure.toNat * 760 / dev.seaLevelPressure.toNat)) ↔
      dev.seaLevelPressure ≠ 0 ∧ (dev.pressure.toNat * 760 < 2 ^ 16 ∨
        dev.pressure.toNat * 760 < dev.seaLevelPressure.toNat) := by
  by_cases hzero : dev.seaLevelPressure = 0
  · have hnone : mmHg dev = none := if_pos hzero
    rw [hnone]
    exact iff_of_false (fun h => nomatch h) fun h => h.1 hzero
  · obtain ⟨v, hv, hnat⟩ := mmHg_eq dev hzero
    have hpos : 0 < dev.seaLevelPressure.toNat :=
      Nat.pos_of_ne_zero fun h => hzero (UInt32.toNat_inj.mp h)
    rw [hv, Option.some_inj, ← UInt16.toNat_inj, hnat, UInt16.toNat_ofNat', Nat.mod_eq_of_lt hfits,
      cut_div_iff hpos]
    exact (and_iff_right hzero).symm

/-- **When `bme280_mmHg` is right** behind a calibration at sea level: for the pressure that
was calibrated with, and for another one. -/
theorem mmHg_correct_iff (readReg : ReadReg) (dev dev' : Bme)
    (h : calibrateSeaLevel readReg dev = (0, dev')) :
    (mmHg dev' = some 760 ↔
      1 ≤ dev'.seaLevelPressure.toNat ∧ dev'.seaLevelPressure.toNat ≤ 86) ∧
    ∀ p : UInt32, p.toNat * 760 < 2 ^ 32 →
      p.toNat * 760 / dev'.seaLevelPressure.toNat < 2 ^ 16 →
      (mmHg { dev' with pressure := p } =
          some (UInt16.ofNat (p.toNat * 760 / dev'.seaLevelPressure.toNat)) ↔
        dev'.seaLevelPressure ≠ 0 ∧
          (p.toNat * 760 < 2 ^ 16 ∨ p.toNat * 760 < dev'.seaLevelPressure.toNat)) := by
  constructor
  · by_cases hzero : dev'.seaLevelPressure = 0
    · have hnone : mmHg dev' = none := if_pos hzero
      rw [hnone, hzero]
      exact iff_of_false (fun h => nomatch h) (by decide)
    · have hpos : 0 < dev'.seaLevelPressure.toNat :=
        Nat.pos_of_ne_zero fun h => hzero (UInt32.toNat_inj.mp h)
      have hquot : dev'.pressure.toNat * 760 / dev'.seaLevelPressure.toNat = 760 := by
        rw [calibrate_seaLevel h]
        exact Nat.mul_div_cancel_left 760 hpos
      have hiff := mmHg_eq_div_iff dev' (by rw [hquot]; decide)
      rw [hquot, calibrate_seaLevel h] at hiff
      refine Iff.trans hiff ?_
      constructor
      · rintro ⟨-, hlt⟩
        omega
      · rintro ⟨-, hle⟩
        exact ⟨hzero, Or.inl (by omega)⟩
  · exact fun p _ hfits => mmHg_eq_div_iff { dev' with pressure := p } hfits

/-- A sensor with a usual calibration. -/
def sample : Bme :=
  ⟨0, 0, 101325, 0, .skipped, .skipped, .skipped,
    ⟨27504, 26435, -1000, 36477, -10685, 3024, 2855, 140, -7, 15500, -14600, 6000,
      0, 0, 0, 0, 0, 0⟩, .bmp280⟩

/-- Its registers, in fair weather. -/
def fair (reg : UInt8) : UInt8 :=
  match reg with
  | 0xF7 => 0x65
  | 0xF8 => 0x5A
  | 0xF9 => 0xC0
  | 0xFA => 0x7E
  | 0xFB => 0xED
  | _ => 0

/-- The sensor calibrated in that weather. -/
def calibrated : Bme :=
  (calibrateSeaLevel (fun reg _ => (0, fun i => fair (reg + UInt8.ofNat i))) sample).2

/-- The theorem for it: 760 mm are not found there, and 86 Pa read as 0 mm, as they should. -/
theorem mmHg_correct_fair :
    (mmHg calibrated = some 760 ↔
      1 ≤ calibrated.seaLevelPressure.toNat ∧ calibrated.seaLevelPressure.toNat ≤ 86) ∧
    (mmHg { calibrated with pressure := 86 } =
        some (UInt16.ofNat (86 * 760 / calibrated.seaLevelPressure.toNat)) ↔
      calibrated.seaLevelPressure ≠ 0 ∧
        (86 * 760 < 2 ^ 16 ∨ 86 * 760 < calibrated.seaLevelPressure.toNat)) := by
  have h : calibrateSeaLevel
      (fun reg _ => (0, fun i => fair (reg + UInt8.ofNat i))) sample =
        (0, calibrated) := by
    decide +kernel
  obtain ⟨hsame, hother⟩ := mmHg_correct_iff _ _ _ h
  exact ⟨hsame, hother 86 (by decide) (by decide +kernel)⟩

/-- 100653 Pa at sea level read as 0 mm. -/
theorem mmHg_fair : calibrated.pressure = 100653 ∧ calibrated.seaLevelPressure = 100653 ∧
    mmHg calibrated = some 0 := by
  decide +kernel

end MyLibraries.Bme280
