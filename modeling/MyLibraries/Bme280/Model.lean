import Mathlib.Data.UInt
import Mathlib.Logic.Function.Basic

/-!
# The pressure sensor `BME280`

`bme280_init` reads the calibration of the sensor, `bme280_get_result` a measurement, which
the three compensation functions turn into temperature, pressure and humidity with integers
of 32 and 64 bits that wrap. `read_reg` is a parameter: what it returns, and what the buffer
holds behind it. What the stack holds in the buffer of `bme280_init` is one too. Where the
results are of type `double`, they are here what is divided by 100 or 1024 for them.
-/

namespace MyLibraries.Bme280

/-- A buffer, byte by byte. -/
abbrev Buf := Nat → UInt8

/-- `dev->read_reg`: the register and the size; what it returns, and what is in the buffer
then. -/
abbrev ReadReg := UInt8 → Nat → UInt8 × Buf

/-- `enum oversampling`. -/
inductive Oversampling
  | skipped
  | x1
  | x2
  | x4
  | x8
  | x16
  deriving DecidableEq, Repr

/-- The value of an enumerator. -/
def Oversampling.toByte : Oversampling → UInt8
  | .skipped => 0
  | .x1 => 1
  | .x2 => 2
  | .x4 => 3
  | .x8 => 4
  | .x16 => 5

/-- `enum chip_type`. -/
inductive ChipType
  | idWrong
  | bmp280
  | bme280
  deriving DecidableEq, Repr

/-- `struct bme280_const`. -/
structure Const where
  t1 : UInt16
  t2 : Int16
  t3 : Int16
  p1 : UInt16
  p2 : Int16
  p3 : Int16
  p4 : Int16
  p5 : Int16
  p6 : Int16
  p7 : Int16
  p8 : Int16
  p9 : Int16
  h1 : UInt8
  h2 : Int16
  h3 : UInt8
  h4 : Int16
  h5 : Int16
  h6 : Int8
  deriving DecidableEq

/-- `struct bme280_t`; the temperature is in hundredths of a degree, the humidity in 1024ths
of a percent. -/
structure Bme where
  humidity : UInt32
  pressure : UInt32
  seaLevelPressure : UInt32
  temperature : Int32
  humidityOversampling : Oversampling
  pressureOversampling : Oversampling
  temperatureOversampling : Oversampling
  calibration : Const
  chip : ChipType
  deriving DecidableEq

def regPressMsb : UInt8 := 0xF7
def regCtrlMeas : UInt8 := 0xF4
def regStatus : UInt8 := 0xF3
def regCtrlHum : UInt8 := 0xF2
def regId : UInt8 := 0xD0

/-- `(uint8_t)ID_WRONG`. -/
def idWrong : UInt8 := 1

/-- `BME280_BUSY`. -/
def busy : UInt8 := 0x10

/-- `bme280_check_id`. -/
def checkId (readReg : ReadReg) : ChipType :=
  let (ret, id) := readReg regId 1
  if ret ≠ 0 then .idWrong
  else if id 0 = 0x58 then .bmp280
  else if id 0 = 0x60 then .bme280
  else .idWrong

/-- `check_busy`. -/
def checkBusy (readReg : ReadReg) : UInt8 := (readReg regStatus 1).2 0 &&& (1 : UInt8) <<< 3

/-! ## Compensation -/

/-- `compensate_t_int32`: what it returns, and `t_fine`. -/
def compensateT (adcT : Int32) (c : Const) : Int32 × Int32 :=
  let t1 := c.t1.toUInt32.toInt32
  let var1 := (((adcT >>> 3) - (t1 <<< 1)) * c.t2.toInt32) >>> 11
  let var2 := (((((adcT >>> 4) - t1) * ((adcT >>> 4) - t1)) >>> 12) * c.t3.toInt32) >>> 14
  let tFine := var1 + var2
  ((tFine * 5 + 128) >>> 8, tFine)

/-- `compensate_p_int64`. -/
def compensateP (tFine adcP : Int32) (c : Const) : UInt32 :=
  let var1 := tFine.toInt64 - 128000
  let var2 := var1 * var1 * c.p6.toInt64
  let var2 := var2 + ((var1 * c.p5.toInt64) <<< 17)
  let var2 := var2 + (c.p4.toInt64 <<< 35)
  let var1 := ((var1 * var1 * c.p3.toInt64) >>> 8) + ((var1 * c.p2.toInt64) <<< 12)
  let var1 := ((((1 : Int64) <<< 47) + var1) * c.p1.toUInt64.toInt64) >>> 33
  if var1 = 0 then 0
  else
    let p := (1048576 - adcP).toInt64
    let p := (((p <<< 31) - var2) * 3125) / var1
    let var1 := (c.p9.toInt64 * (p >>> 13) * (p >>> 13)) >>> 25
    let var2 := (c.p8.toInt64 * p) >>> 19
    let p := ((p + var1 + var2) >>> 8) + (c.p7.toInt64 <<< 4)
    p.toUInt64.toUInt32

/-- `compensate_h_int32`. -/
def compensateH (tFine adcH : Int32) (c : Const) : UInt32 :=
  let hum := tFine - 76800
  let hum :=
    ((((adcH <<< 14) - (c.h4.toInt32 <<< 20) - (c.h5.toInt32 * hum)) + 16384) >>> 15) *
      (((((((hum * c.h6.toInt32) >>> 10) *
        (((hum * c.h3.toUInt32.toInt32) >>> 11) + 32768)) >>> 10) + 2097152) *
        c.h2.toInt32 + 8192) >>> 14)
  let hum := hum - (((((hum >>> 15) * (hum >>> 15)) >>> 7) * c.h1.toUInt32.toInt32) >>> 4)
  let hum := if hum < 0 then 0 else hum
  let hum := if hum > 419430400 then 419430400 else hum
  (hum >>> 12).toUInt32

/-! ## Calls -/

/-- A `uint16_t` from the two bytes of it in memory. -/
def word (low high : UInt8) : UInt16 := low.toUInt16 ||| high.toUInt16 <<< 8

/-- The first 24 bytes of `dev->calibration`. -/
def Const.setBlock (c : Const) (b : Buf) : Const :=
  { c with
    t1 := word (b 0) (b 1)
    t2 := (word (b 2) (b 3)).toInt16
    t3 := (word (b 4) (b 5)).toInt16
    p1 := word (b 6) (b 7)
    p2 := (word (b 8) (b 9)).toInt16
    p3 := (word (b 10) (b 11)).toInt16
    p4 := (word (b 12) (b 13)).toInt16
    p5 := (word (b 14) (b 15)).toInt16
    p6 := (word (b 16) (b 17)).toInt16
    p7 := (word (b 18) (b 19)).toInt16
    p8 := (word (b 20) (b 21)).toInt16
    p9 := (word (b 22) (b 23)).toInt16 }

/-- `h4` and `h5`, from the buffer. -/
def Const.setBuf (c : Const) (buf : Buf) : Const :=
  { c with
    h4 := ((buf 1 &&& 0x07).toUInt16 ||| (buf 0).toUInt16 <<< 4).toInt16
    h5 := ((buf 2 &&& 0x07).toUInt16 ||| (buf 3).toUInt16 <<< 4).toInt16 }

/-- `bme280_init`: what it returns, the device and what it writes to the registers; `buf` is
what the stack holds. -/
def init (readReg : ReadReg) (buf : Buf) (dev : Bme) :
    UInt8 × Bme × List (UInt8 × UInt8) :=
  let dev := { dev with chip := checkId readReg }
  if dev.chip = .idWrong then (idWrong, dev, [])
  else
    let (ret, block) := readReg 0x88 24
    let dev := { dev with
      seaLevelPressure := 101325, calibration := dev.calibration.setBlock block }
    if ret ≠ 0 then (ret, dev, [])
    else
      let h2 := (readReg 0xE1 2).2
      let calibration := { dev.calibration with
        h1 := (readReg 0xA1 1).2 0
        h2 := (word (h2 0) (h2 1)).toInt16
        h3 := (readReg 0xE3 1).2 0
        h6 := ((readReg 0xE7 1).2 0).toInt8 }
      let buf := Function.update buf 0 ((readReg 0xE4 1).2 0)
      let dev := { dev with calibration := calibration.setBuf buf }
      (ret, dev,
        [(regCtrlMeas, dev.temperatureOversampling.toByte <<< 5 |||
            dev.pressureOversampling.toByte <<< 2 ||| 3),
          (regCtrlHum, dev.humidityOversampling.toByte)])

/-- Twenty bits of a measurement. -/
def adc20 (msb lsb xlsb : UInt8) : Int32 :=
  (xlsb.toUInt32 ||| lsb.toUInt32 <<< 8 ||| msb.toUInt32 <<< 16).toInt32 >>> 4

/-- `bme280_get_result`. -/
def getResult (readReg : ReadReg) (dev : Bme) : UInt8 × Bme :=
  if checkBusy readReg ≠ 0 then (busy, dev)
  else
    let buf := (readReg regPressMsb 8).2
    let (temperature, tFine) := compensateT (adc20 (buf 3) (buf 4) (buf 5)) dev.calibration
    let pressure := compensateP tFine (adc20 (buf 0) (buf 1) (buf 2)) dev.calibration >>> 8
    let dev := { dev with temperature := temperature, pressure := pressure }
    if dev.chip = .bme280 then
      let adcH := ((buf 7).toUInt32 ||| (buf 6).toUInt32 <<< 8).toInt32
      (0, { dev with humidity := compensateH tFine adcH dev.calibration })
    else (0, dev)

/-- `bme280_calibrate_sea_level`. -/
def calibrateSeaLevel (readReg : ReadReg) (dev : Bme) : UInt8 × Bme :=
  let (ret, dev) := getResult readReg dev
  if ret ≠ 0 then (ret, dev) else (ret, { dev with seaLevelPressure := dev.pressure })

/-- `bme280_mmHg`; `none` is a division by zero. -/
def mmHg (dev : Bme) : Option UInt16 :=
  if dev.seaLevelPressure = 0 then none
  else some ((dev.pressure * 760).toUInt16.toUInt32 / dev.seaLevelPressure).toUInt16

end MyLibraries.Bme280
