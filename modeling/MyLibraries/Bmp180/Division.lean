import MyLibraries.Bmp180.Model
import Mathlib.Tactic.Positivity

/-!
# The two divisions of `BMP180_Get_Result`

The first divisor is `X1 + MD`, the second `B4`, and neither is looked at before it divides.
Both are what is left of a product when 15 bits of it are shifted out, so each is 0 exactly
when that product is small modulo the width of `long` (`getResult_returns_iff`). The raw
pressure and the oversampling have no part in it.
-/

namespace MyLibraries.Bmp180

open TwosComplement

variable {w : Nat} {c : Calibration} {ut b6 : Int} {oversampling : Oversampling}

/-- A product that 15 bits are shifted out of and something is left. -/
def Large (w : Nat) (product : Int) : Prop := 2 ^ 15 ≤ product % 2 ^ w

/-- `B6` of the data sheet; what wraps is the product in it. -/
def b6Of (w : Nat) (c : Calibration) (ut : Int) : Int :=
  let x1 := signed w ((ut - c.ac6.toNat) * c.ac5.toNat) / 2 ^ 15
  x1 + (c.mc.toInt * 2 ^ 11).tdiv (x1 + c.md.toInt) - 4000

/-- `X3` of the data sheet, from `B6`. -/
def x3Of (w : Nat) (c : Calibration) (b6 : Int) : Int :=
  (signed w (c.ac3.toInt * b6) / 2 ^ 13 +
    signed w (c.b1.toInt * (signed w (b6 * b6) / 2 ^ 12)) / 2 ^ 16 + 2) / 4

/-! ## What does not wrap -/

theorem pow_le (hw : 32 ≤ w) : (2 : Int) ^ 32 ≤ 2 ^ w :=
  pow_le_pow_right₀ (by decide) hw

/-- A value of 31 bits is in the range of `long`. -/
theorem signed_of_small (hw : 32 ≤ w) {x : Int} (hlow : -2 ^ 31 ≤ x) (hhigh : x < 2 ^ 31) :
    signed w x = x := by
  have hpow := pow_le hw
  exact signed_eq (by omega) (by omega)

theorem int16_bounds (x : Int16) : -2 ^ 15 ≤ x.toInt ∧ x.toInt < 2 ^ 15 :=
  ⟨x.le_toInt, x.toInt_lt⟩

theorem readUtValue_eq (buf : Buf) :
    readUtValue buf = 256 * (buf 0).toNat + (buf 1).toNat := by
  rw [readUtValue, Nat.shiftLeft_eq]
  push_cast
  ring

theorem readUtValue_bounds (buf : Buf) :
    0 ≤ readUtValue buf ∧ readUtValue buf < 2 ^ 16 := by
  have h0 := (buf 0).toNat_lt
  have h1 := (buf 1).toNat_lt
  rw [readUtValue_eq]
  omega

/-! ## The first divisor -/

theorem difference_eq (hw : 32 ≤ w) (hut : 0 ≤ ut ∧ ut < 2 ^ 16) :
    signed w (ut - c.ac6.toNat) = ut - c.ac6.toNat := by
  have hac6 := c.ac6.toNat_lt
  exact signed_of_small hw (by omega) (by omega)

/-- `X1 + MD` is 0 where the product is. -/
theorem divisor_eq_zero_iff (hw : 32 ≤ w) (hut : 0 ≤ ut ∧ ut < 2 ^ 16) :
    temperatureX1 w c ut + c.md.toInt = 0 ↔
      ¬Large w ((ut - c.ac6.toNat) * c.ac5.toNat + c.md.toInt * 2 ^ 15) := by
  have hpow := pow_le hw
  have hmd := int16_bounds c.md
  rw [temperatureX1, difference_eq hw hut, Large, not_le]
  exact shiftRight_add_eq_zero_iff (by omega) (by omega) (by omega)

theorem temperatureX1_eq (hw : 32 ≤ w) (hut : 0 ≤ ut ∧ ut < 2 ^ 16) :
    temperatureX1 w c ut = signed w ((ut - c.ac6.toNat) * c.ac5.toNat) / 2 ^ 15 := by
  rw [temperatureX1, difference_eq hw hut, Int.shiftRight_eq_div_pow]
  rfl

theorem tdiv_within {a d b : Int} (hlow : -b ≤ a) (hhigh : a ≤ b) :
    -b ≤ a.tdiv d ∧ a.tdiv d ≤ b := by
  have habs := Int.natAbs_tdiv_le_natAbs a d
  omega

/-- What the first division gives is in range. -/
theorem temperatureX1_bounds (hw : 32 ≤ w) (hut : 0 ≤ ut ∧ ut < 2 ^ 16) :
    -2 ^ 17 ≤ temperatureX1 w c ut ∧ temperatureX1 w c ut ≤ 2 ^ 17 := by
  have hac5 := c.ac5.toNat_lt
  have hac6 := c.ac6.toNat_lt
  have hlow : -(2 ^ 16 * 2 ^ 16) ≤ (ut - c.ac6.toNat) * c.ac5.toNat := by
    nlinarith
  have hhigh : (ut - c.ac6.toNat) * c.ac5.toNat ≤ 2 ^ 16 * 2 ^ 16 := by
    nlinarith
  have hproduct := signed_within (w := w) (by omega) hlow hhigh
  rw [temperatureX1_eq hw hut]
  omega

/-- The temperature is computed when the divisor is not 0. -/
theorem temperatureB5_eq (hw : 32 ≤ w) (hut : 0 ≤ ut ∧ ut < 2 ^ 16) :
    temperatureB5 w c ut =
      if temperatureX1 w c ut + c.md.toInt = 0 then none else some (b6Of w c ut + 4000) := by
  have hx1 := temperatureX1_bounds (c := c) hw hut
  have hmc := int16_bounds c.mc
  have hmd := int16_bounds c.md
  have hsum : signed w (temperatureX1 w c ut + c.md.toInt) = temperatureX1 w c ut + c.md.toInt :=
    signed_of_small hw (by omega) (by omega)
  rw [temperatureB5, hsum, divide]
  split
  · rfl
  · have hx2 := tdiv_within (a := c.mc.toInt * 2 ^ 11) (b := 2 ^ 26)
      (d := temperatureX1 w c ut + c.md.toInt) (by omega) (by omega)
    show some (signed w _) = _
    rw [signed_of_small hw (by omega) (by omega), b6Of, ← temperatureX1_eq hw hut, sub_add_cancel]

theorem b6Of_bounds (hw : 32 ≤ w) (hut : 0 ≤ ut ∧ ut < 2 ^ 16) :
    -2 ^ 27 ≤ b6Of w c ut ∧ b6Of w c ut ≤ 2 ^ 27 := by
  have hx1 := temperatureX1_bounds (c := c) hw hut
  have hmc := int16_bounds c.mc
  have hx2 := tdiv_within (a := c.mc.toInt * 2 ^ 11) (b := 2 ^ 26)
    (d := temperatureX1 w c ut + c.md.toInt) (by omega) (by omega)
  rw [b6Of, ← temperatureX1_eq hw hut]
  omega

/-! ## The second divisor -/

theorem pressureX3_eq (hw : 32 ≤ w) (c : Calibration) (b6 : Int) :
    pressureX3 w c b6 = x3Of w c b6 := by
  have hpow := pow_le hw
  have hx1 := signed_bounds (w := w) (by omega) (c.ac3.toInt * b6)
  have hx2 := signed_bounds (w := w) (by omega) (c.b1.toInt * (signed w (b6 * b6) / 2 ^ 12))
  have hshift : ∀ (x : Int) (n : Nat), x >>> n = x / 2 ^ n := by
    intro x n
    rw [Int.shiftRight_eq_div_pow]
    norm_cast
  simp only [pressureX3, x3Of, hshift]
  generalize signed w (c.ac3.toInt * b6) = x1 at hx1 ⊢
  generalize signed w (c.b1.toInt * (signed w (b6 * b6) / 2 ^ 12)) = x2 at hx2 ⊢
  have hsum : signed w (x1 / 2 ^ 13 + x2 / 2 ^ 16) = x1 / 2 ^ 13 + x2 / 2 ^ 16 :=
    signed_eq (by omega) (by omega)
  rw [hsum, signed_eq (by omega) (by omega)]
  norm_num

/-- `B4` is 0 where the product is. -/
theorem pressureB4_eq_zero_iff (x3 : Int) :
    pressureB4 w c x3 = 0 ↔ ¬Large w (c.ac4.toNat * (x3 + 2 ^ 15)) := by
  have hmod : unsigned w (c.ac4.toNat * unsigned w (signed w (x3 + 32768))) =
      c.ac4.toNat * (x3 + 2 ^ 15) % 2 ^ w := by
    rw [unsigned, unsigned, signed_emod, Int.mul_emod, Int.emod_emod, ← Int.mul_emod]
    rfl
  have hpos : (0 : Int) < 2 ^ w := by positivity
  have hnonneg := Int.emod_nonneg (c.ac4.toNat * (x3 + 2 ^ 15)) (ne_of_gt hpos)
  rw [pressureB4, hmod, Large, Int.shiftRight_eq_div_pow]
  show _ / (2 ^ 15 : Int) = 0 ↔ _
  omega

theorem quotient_eq_none_iff (b7 b4 : Int) : quotient w b7 b4 = none ↔ b4 = 0 := by
  unfold quotient divide
  by_cases hzero : b4 = 0
  · simp only [hzero, ↓reduceIte]
    split <;> exact iff_of_true rfl trivial
  · simp only [hzero, ↓reduceIte]
    split <;> exact iff_of_false (fun h => nomatch h) id

/-! ## Both -/

/-- The calculation faults on its first divisor, or on its second. -/
theorem getResult_eq_none_iff (hw : 32 ≤ w) (oversampling : Oversampling) (c : Calibration)
    (utBuf upBuf : Buf) :
    getResult w oversampling c utBuf upBuf = none ↔
      temperatureX1 w c (readUtValue utBuf) + c.md.toInt = 0 ∨
        pressureB4 w c (x3Of w c (b6Of w c (readUtValue utBuf))) = 0 := by
  have hut := readUtValue_bounds utBuf
  have hb6 := b6Of_bounds (c := c) hw hut
  unfold getResult
  dsimp only
  rw [temperatureB5_eq hw hut]
  split
  · rename_i hzero
    exact iff_of_true rfl (Or.inl hzero)
  · rename_i hne
    have hback : signed w (b6Of w c (readUtValue utBuf) + 4000 - 4000) =
        b6Of w c (readUtValue utBuf) := by
      rw [add_sub_cancel_right]
      exact signed_of_small hw (by omega) (by omega)
    show (quotient w (pressureB7 w oversampling _ (pressureB3 w oversampling c (signed w _)))
      (pressureB4 w c (pressureX3 w c (signed w _)))).bind _ = none ↔ _
    rw [hback, pressureX3_eq hw, or_iff_right hne, ← quotient_eq_none_iff]
    cases quotient w (pressureB7 w oversampling (readUpValue oversampling upBuf)
        (pressureB3 w oversampling c (b6Of w c (readUtValue utBuf))))
      (pressureB4 w c (x3Of w c (b6Of w c (readUtValue utBuf)))) with
    | none => exact iff_of_true rfl rfl
    | some p => exact iff_of_false (fun h => nomatch h) fun h => nomatch h

/-- **When `BMP180_Get_Result` divides by numbers that are not 0**, on what `BMP180_Init` and
the conversions have read: when both products have more than 15 bits. -/
theorem getResult_returns_iff (w : Nat) (hw : 32 ≤ w) (buf : Buf) (old : Calibration)
    (oversampling : Oversampling) (utBuf upBuf : Buf) :
    let c := (init 0 buf old).2
    let ut : Int := 256 * (utBuf 0).toNat + (utBuf 1).toNat
    (∃ result, getResult w oversampling c utBuf upBuf = some result) ↔
      Large w ((ut - c.ac6.toNat) * c.ac5.toNat + c.md.toInt * 2 ^ 15) ∧
        Large w (c.ac4.toNat * (x3Of w c (b6Of w c ut) + 2 ^ 15)) := by
  intro c ut
  have hut : readUtValue utBuf = ut := readUtValue_eq utBuf
  have hnone := getResult_eq_none_iff hw oversampling c utBuf upBuf
  rw [divisor_eq_zero_iff hw (readUtValue_bounds utBuf), pressureB4_eq_zero_iff, hut,
    ← not_and_or] at hnone
  rw [← Option.ne_none_iff_exists', ne_eq, hnone, not_not]

/-- The buffer with these bytes. -/
def bufOf (bytes : List UInt8) : Buf := fun i => bytes.getD i 0

/-- The calibration of the example in the data sheet, as it is read, with this `AC4`. -/
def sheet (high low : UInt8) : Buf :=
  bufOf [0x01, 0x98, 0xFF, 0xB8, 0xC7, 0xD1, high, low, 0x7F, 0xF5, 0x5A, 0x71, 0x18, 0x2E,
    0x00, 0x04, 0x80, 0x00, 0xDD, 0xF9, 0x0B, 0x34]

/-- A calibration that was never read. -/
def unread : Calibration := ⟨0, 0, 0, 0, 0, 0, 0, 0, 0, 0, 0⟩

/-- The theorem for that example: both products are long, and 15.0 degrees come out of it. -/
theorem getResult_returns_sheet :
    let c := (init 0 (sheet 0x7F 0xE5) unread).2
    getResult 32 .single c (bufOf [0x6C, 0xFA]) (bufOf [0x5D, 0x23, 0x00]) = some (150, 69964) ∧
    ((∃ result, getResult 32 .single c (bufOf [0x6C, 0xFA]) (bufOf [0x5D, 0x23, 0x00]) =
        some result) ↔
      Large 32 ((27898 - 23153) * 32757 + 2868 * 2 ^ 15) ∧
        Large 32 (32741 * (x3Of 32 c (b6Of 32 c 27898) + 2 ^ 15))) :=
  ⟨by decide +kernel, getResult_returns_iff 32 (by decide) (sheet 0x7F 0xE5) unread .single
    (bufOf [0x6C, 0xFA]) (bufOf [0x5D, 0x23, 0x00])⟩

/-- With that calibration the raw temperature 20285 makes the first divisor 0; with its `AC4`
set to 0 the second one is. -/
theorem getResult_divides_by_zero :
    getResult 32 .single (init 0 (sheet 0x7F 0xE5) unread).2 (bufOf [0x4F, 0x3D])
      (bufOf [0x5D, 0x23, 0x00]) = none ∧
    getResult 32 .single (init 0 (sheet 0 0) unread).2 (bufOf [0x6C, 0xFA])
      (bufOf [0x5D, 0x23, 0x00]) = none := by
  decide +kernel

end MyLibraries.Bmp180
