import MyLibraries.Core.TwosComplement

/-!
# The pressure sensor `BMP180`

`BMP180_Get_Result` turns the raw temperature and pressure into tenths of a degree and Pa,
with the calibration that `BMP180_Init` has read. Its variables are of type `long`, so the
width of that type is a parameter here; sums and products wrap to it, or to the 32 bits of
`int` where the source computes in that. Division by zero is a fault.
-/

namespace MyLibraries.Bmp180

open TwosComplement (signed unsigned)

/-- `BMP180_CalibrationStructTypeDef`. -/
structure Calibration where
  ac1 : Int16
  ac2 : Int16
  ac3 : Int16
  ac4 : UInt16
  ac5 : UInt16
  ac6 : UInt16
  b1 : Int16
  b2 : Int16
  mb : Int16
  mc : Int16
  md : Int16
  deriving DecidableEq

/-- `BMP180_OversamplingEnumTypeDef`. -/
inductive Oversampling
  | single
  | x2
  | x4
  | x8
  deriving DecidableEq, Repr

/-- The value of an enumerator. -/
def Oversampling.toNat : Oversampling → Nat
  | .single => 0
  | .x2 => 1
  | .x4 => 2
  | .x8 => 3

/-- A buffer, byte by byte. -/
abbrev Buf := Nat → UInt8

/-- `a / b`. -/
def divide (a b : Int) : Option Int := if b = 0 then none else some (a.tdiv b)

/-- Two bytes of the calibration. -/
def word (high low : UInt8) : UInt16 := high.toUInt16 <<< 8 ||| low.toUInt16

/-- `BMP180_Init`: what it returns, and the calibration; `result` and `buf` are what `ReadReg`
gives. -/
def init (result : UInt8) (buf : Buf) (calibration : Calibration) :
    UInt8 × Calibration :=
  if result ≠ 0 then (result, calibration)
  else (result,
    { ac1 := (word (buf 0) (buf 1)).toInt16
      ac2 := (word (buf 2) (buf 3)).toInt16
      ac3 := (word (buf 4) (buf 5)).toInt16
      ac4 := word (buf 6) (buf 7)
      ac5 := word (buf 8) (buf 9)
      ac6 := word (buf 10) (buf 11)
      b1 := (word (buf 12) (buf 13)).toInt16
      b2 := (word (buf 14) (buf 15)).toInt16
      mb := (word (buf 16) (buf 17)).toInt16
      mc := (word (buf 18) (buf 19)).toInt16
      md := (word (buf 20) (buf 21)).toInt16 })

/-- `BMP180_Read_UT_Value`: `UT`. -/
def readUtValue (buf : Buf) : Int := ((buf 0).toNat <<< 8 + (buf 1).toNat : Nat)

/-- `BMP180_Read_UP_Value`: `UP`. -/
def readUpValue (oversampling : Oversampling) (buf : Buf) : Int :=
  (((buf 0).toNat <<< 16 + (buf 1).toNat <<< 8 + (buf 2).toNat) >>> (8 - oversampling.toNat) : Nat)

/-! ## The temperature -/

/-- `X1` of the temperature. -/
def temperatureX1 (w : Nat) (c : Calibration) (ut : Int) : Int :=
  signed w (signed w (ut - c.ac6.toNat) * c.ac5.toNat) >>> (15 : Nat)

/-- `B5`. -/
def temperatureB5 (w : Nat) (c : Calibration) (ut : Int) : Option Int := do
  let x1 := temperatureX1 w c ut
  let x2 ← divide (c.mc.toInt * 2 ^ 11) (signed w (x1 + c.md.toInt))
  some (signed w (x1 + x2))

/-! ## The pressure -/

/-- `B3`. -/
def pressureB3 (w : Nat) (oversampling : Oversampling) (c : Calibration) (b6 : Int) : Int :=
  let x1 := signed w (c.b2.toInt * (signed w (b6 * b6) >>> (12 : Nat))) >>> (11 : Nat)
  let x2 := signed w (c.ac2.toInt * b6) >>> (11 : Nat)
  let x3 := signed w (x1 + x2)
  signed w (signed w (signed w (c.ac1.toInt * 4 + x3) * 2 ^ oversampling.toNat) + 2) >>> (2 : Nat)

/-- The second `X3`. -/
def pressureX3 (w : Nat) (c : Calibration) (b6 : Int) : Int :=
  let x1 := signed w (c.ac3.toInt * b6) >>> (13 : Nat)
  let x2 := signed w (c.b1.toInt * (signed w (b6 * b6) >>> (12 : Nat))) >>> (16 : Nat)
  signed w (signed w (x1 + x2) + 2) >>> (2 : Nat)

/-- `B4`. -/
def pressureB4 (w : Nat) (c : Calibration) (x3 : Int) : Int :=
  unsigned w (c.ac4.toNat * unsigned w (signed w (x3 + 32768))) >>> (15 : Nat)

/-- `B7`. -/
def pressureB7 (w : Nat) (oversampling : Oversampling) (up b3 : Int) : Int :=
  unsigned w (unsigned w (unsigned w up - unsigned w b3) * (50000 >>> oversampling.toNat : Nat))

/-- The pressure before its last correction. -/
def quotient (w : Nat) (b7 b4 : Int) : Option Int :=
  if b7 < 0x80000000 then do
    let p ← divide (unsigned w (b7 * 2)) b4
    some (signed 32 p)
  else do
    let p ← divide b7 b4
    some (signed 32 (unsigned w (p * 2)))

/-- The last correction. -/
def correct (w : Nat) (pressure : Int) : Int :=
  let x1 := signed 32 ((pressure >>> (8 : Nat)) * (pressure >>> (8 : Nat)))
  let x1 := signed w (x1 * 3038) >>> (16 : Nat)
  let x2 := signed 32 (-7357 * pressure) >>> (16 : Nat)
  signed 32 (signed w (pressure + signed w (signed w (x1 + x2) + 3791) >>> (4 : Nat)))

/-- `BMP180_Get_Result`: tenths of a degree, and Pa. -/
def getResult (w : Nat) (oversampling : Oversampling) (c : Calibration) (utBuf upBuf : Buf) :
    Option (Int × Int) := do
  let ut := readUtValue utBuf
  let up := readUpValue oversampling upBuf
  let b5 ← temperatureB5 w c ut
  let t := signed w (b5 + 8) >>> (4 : Nat)
  let b6 := signed w (b5 - 4000)
  let b3 := pressureB3 w oversampling c b6
  let b4 := pressureB4 w c (pressureX3 w c b6)
  let b7 := pressureB7 w oversampling up b3
  let pressure ← quotient w b7 b4
  some (t, correct w pressure)

end MyLibraries.Bmp180
