import Mathlib.Algebra.Field.Rat
import MyLibraries.Crc.Dallas
import MyLibraries.OneWire.Model

/-!
# Several DS18B20 sensors on a bus

`Init`, `StartConversion` and `ReadTemperature` of `DS18B20_Multi`, whose rows of
`serial_number_` are a vector. A row outside of it is `none`, and so is a loop that takes
more rounds than its fuel. A temperature is a multiple of 1/16, which a `float` holds.
-/

namespace MyLibraries.OneWire

/-- `OneWire_InterfaceBase` with the reading of bytes. -/
structure ByteInterface (β : Type) extends Interface β where
  read : β → UInt8 × β

/-- `DS18B20_InterfaceBase::Resolution`. -/
inductive Resolution
  | res9bit
  | res10bit
  | res11bit
  | res12bit
  deriving DecidableEq, Repr

def Resolution.toUInt8 : Resolution → UInt8
  | .res9bit => 0
  | .res10bit => 1
  | .res11bit => 2
  | .res12bit => 3

/-- `SKIP_ROM`. -/
def skipRom : UInt8 := 0xCC

/-- `MATCH_ROM`. -/
def matchRom : UInt8 := 0x55

/-- `CONVERT_T_CMD`. -/
def convertTCmd : UInt8 := 0x44

/-- `WRITE_STRATCHPAD_CMD`. -/
def writeStratchpadCmd : UInt8 := 0x4E

/-- `READ_STRATCHPAD_CMD`. -/
def readStratchpadCmd : UInt8 := 0xBE

/-- `STRATCHPAD_SIZE`. -/
def stratchpadSize : Nat := 9

variable {β : Type} {maxDevices : Nat}

/-- `MATCH_ROM` and the bytes of a row. -/
def matchRow (interface : Interface β) (row : Rom) (bus : β) : β :=
  row.toList.foldl (fun bus byte => interface.write byte bus) (interface.write matchRom bus)

/-- `serial_number_[i]`. -/
def serialRow (serialNumber : Vector Rom maxDevices) (i : Int) : Option Rom :=
  if 0 ≤ i then serialNumber[i.toNat]? else none

/-! ## Init -/

/-- What `Init` writes to one sensor after the reset. -/
def initRow (interface : Interface β) (resolution : Resolution) (row : Rom) (bus : β) : β :=
  let bus := matchRow interface row bus
  let bus := interface.write writeStratchpadCmd bus
  let bus := interface.write 0 bus -- Th
  let bus := interface.write 0 bus -- Tl
  interface.write (resolution.toUInt8 <<< 5 ||| 0x1F) bus

/-- The loop of `Init`; `res` is not set before its first round. -/
def initLoop (interface : Interface β) (resolution : Resolution)
    (serialNumber : Vector Rom maxDevices) (devices : UInt8) :
    Nat → UInt8 → Option Result → β → Option (Option Result × β)
  | 0, _, _, _ => none
  | fuel + 1, i, res, bus =>
    if (if i ≠ devices then devices.toNat else maxDevices) ≠ 0 then
      let (res, bus) := interface.reset bus
      if res ≠ .success then some (some res, bus)
      else do
        let row ← serialNumber[i.toNat]?
        initLoop interface resolution serialNumber devices fuel (i + 1) (some res)
          (initRow interface resolution row bus)
    else some (res, bus)

/-- `DS18B20_Multi::Init`. -/
def init (interface : Interface β) (fuel : Nat) (resolution : Resolution)
    (serialNumber : Vector Rom maxDevices) (devices : UInt8) (bus : β) :
    Option (Option Result × β) :=
  initLoop interface resolution serialNumber devices fuel 0 none bus

/-! ## Conversions -/

/-- `DS18B20_Multi::StartConversion`. -/
def startConversion (interface : Interface β) (serialNumber : Vector Rom maxDevices) (num : Int)
    (bus : β) : Option (Result × β) :=
  let (res, bus) := interface.reset bus
  if res ≠ .success then some (res, bus)
  else if num = 0 then
    some (res, interface.write convertTCmd (interface.write skipRom bus))
  else do
    let row ← serialRow serialNumber (num - 1)
    some (res, interface.write convertTCmd (matchRow interface row bus))

/-- The loop that reads the buffer. -/
def readBuf (interface : ByteInterface β) : Nat → β → List UInt8 × β
  | 0, bus => ([], bus)
  | n + 1, bus =>
    let (byte, bus) := interface.read bus
    let (buf, bus) := readBuf interface n bus
    (byte :: buf, bus)

/-- `rawvalue`, an `int16_t`. -/
def rawValue (buf : List UInt8) : Int :=
  (((buf.getD 1 0).toBitVec ++ (buf.getD 0 0).toBitVec : BitVec (8 + 8))).toInt

/-- `DS18B20_Multi::ReadTemperature`. -/
def readTemperature (interface : ByteInterface β) (serialNumber : Vector Rom maxDevices)
    (temp : ℚ) (num : Int) (bus : β) : Option (Result × ℚ × β) :=
  let (res, bus) := interface.reset bus
  if res ≠ .success then some (res, temp, bus)
  else do
    let row ← serialRow serialNumber num
    let bus := interface.write readStratchpadCmd (matchRow interface.toInterface row bus)
    let (buf, bus) := readBuf interface stratchpadSize bus
    if Crc.crc8Dallas buf ≠ 0 then some (.crcMissmatch, temp, bus)
    else if rawValue buf = 2495 then some (.notReady, temp, bus)
    else some (.success, rawValue buf / 16, bus)

end MyLibraries.OneWire
