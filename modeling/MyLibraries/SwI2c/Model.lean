import MyLibraries.I2cGpio.Model

/-!
# The software I2C driver

`SW_I2C_Driver.c`. The state is what has been done to the lines so far, and the slave
answers a reading of SDA by it in any way. The pointer `SW_I2C_Driver` may be null. An
answer is stored as an `I2C_Result`, which is an `int` in C, so a result may be a number
without a name.
-/

namespace MyLibraries.SwI2c

open TwoWire
open I2cGpio (whileMask)

/-- `I2C_Result`. -/
inductive I2CResult
  | success
  | timeout
  | error
  | busBusy
  | ackOk
  | ackNotOk
  | addNotExist
  | verifyError
  | interfaceError
  | other (value : UInt16)
  deriving DecidableEq, Repr

/-- `(I2C_Result)value`. -/
def I2CResult.ofUInt16 (value : UInt16) : I2CResult :=
  match value.toNat with
  | 0 => .success
  | 1 => .timeout
  | 2 => .error
  | 3 => .busBusy
  | 4 => .ackOk
  | 5 => .ackNotOk
  | 6 => .addNotExist
  | 7 => .verifyError
  | 8 => .interfaceError
  | _ => .other value

/-- `SW_I2C_DriverStructTypeDef`: whether there is a `Delay_func`, and `IO_SDA_Read`. -/
structure Driver where
  delayFunc : Bool
  ioSdaRead : List Event → UInt16

/-- What has been done to the lines. -/
abbrev Bus := List Event

/-- `IO_SDA_Write`. -/
def ioSdaWrite (state : Bool) (bus : Bus) : Bus := bus ++ [.sda state]

/-- `IO_SCL_Write`. -/
def ioSclWrite (state : Bool) (bus : Bus) : Bus := bus ++ [.scl state]

/-- `--attempts`, as long as it does not come to 0. -/
theorem toNat_sub_one {attempts : UInt8} (h : attempts ≠ 0) :
    (attempts - 1).toNat + 1 = attempts.toNat := by
  have hpos : attempts.toNat ≠ 0 := fun hzero => h (UInt8.toNat_inj.mp hzero)
  have hle : (1 : UInt8) ≤ attempts := by
    rw [UInt8.le_iff_toNat_le, UInt8.toNat_one]
    omega
  rw [UInt8.toNat_sub_of_le _ _ hle, UInt8.toNat_one]
  omega

theorem toNat_sub_one_lt {attempts : UInt8} (h : attempts ≠ 0) :
    (attempts - 1).toNat < attempts.toNat := by
  have := toNat_sub_one h
  omega

namespace Driver

variable (d : Driver)

/-- `if (Delay_func) Delay_func(DelayValue)`. -/
def delay (bus : Bus) : Bus := if d.delayFunc then bus ++ [.delay] else bus

def start (bus : Bus) : I2CResult × Bus :=
  let bus := d.delay (ioSclWrite true (ioSdaWrite true bus))
  if d.ioSdaRead bus = 0 then (.busBusy, bus)
  else (.success, d.delay (ioSclWrite false (d.delay (ioSdaWrite false bus))))

def reStart (bus : Bus) : Bus :=
  let bus := d.delay (ioSclWrite true (ioSdaWrite true bus))
  ioSclWrite false (d.delay (ioSdaWrite false bus))

def stop (bus : Bus) : Bus :=
  let bus := d.delay (ioSclWrite true (ioSdaWrite false (d.delay bus)))
  d.delay (ioSdaWrite true bus)

def clock (bus : Bus) : UInt16 × Bus :=
  let bus := d.delay (ioSclWrite true bus)
  (d.ioSdaRead bus, d.delay (ioSclWrite false bus))

def write (data : UInt8) (bus : Bus) : UInt16 × Bus :=
  let bus := whileMask
    (fun mask bus => (d.clock (ioSdaWrite (data &&& mask ≠ 0) bus)).2) 8 0x80 bus
  d.clock (ioSdaWrite true bus)

/-- The loop body of `SW_I2C_Read`. -/
def readBit (mask : UInt8) : UInt8 × Bus → UInt8 × Bus
  | (data, bus) =>
    let (level, bus) := d.clock bus
    (if level ≠ 0 then data ||| mask else data, bus)

def read (ack : UInt8) (bus : Bus) : UInt16 × Bus :=
  let (data, bus) := whileMask d.readBit 8 0x80 (0, bus)
  if ack ≠ 0 then (data.toUInt16, ioSdaWrite true (d.clock (ioSdaWrite false bus)).2)
  else (data.toUInt16, (d.clock (ioSdaWrite true bus)).2)

/-! ## Loops -/

/-- `while (reglen--) Result = (I2C_Result)SW_I2C_Write(*reg++)`. -/
def writeReg : List UInt8 → I2CResult → Bus → I2CResult × Bus
  | [], result, bus => (result, bus)
  | byte :: reg, _, bus =>
    let (ack, bus) := d.write byte bus
    writeReg reg (.ofUInt16 ack) bus

/-- `while (size-- && Result == I2C_SUCCESS) Result = (I2C_Result)SW_I2C_Write(*buf++)`. -/
def writeBuf : List UInt8 → I2CResult → Bus → I2CResult × Bus
  | [], result, bus => (result, bus)
  | byte :: buf, result, bus =>
    if result = .success then
      let (ack, bus) := d.write byte bus
      writeBuf buf (.ofUInt16 ack) bus
    else (result, bus)

/-- `while (size--) *buf++ = SW_I2C_Read(size ? 1 : 0)`. -/
def readBuf : Nat → Bus → List UInt8 × Bus
  | 0, bus => ([], bus)
  | size + 1, bus =>
    let (byte, bus) := d.read (if size ≠ 0 then 1 else 0) bus
    let (buf, bus) := readBuf size bus
    (byte.toUInt8 :: buf, bus)

/-- `do { .. } while (Result && --attempts)` of `SW_I2C_RD_POOLING_ACK`: the result,
`attempts` and the lines. -/
def poolingLoop (address attempts : UInt8) (bus : Bus) : I2CResult × UInt8 × Bus :=
  let (ack, bus) := d.write (address ||| 0x01) (d.reStart bus)
  let result := I2CResult.ofUInt16 ack
  if result = .success then (result, attempts, bus)
  else if h : attempts - 1 = 0 then (result, attempts - 1, bus)
  else poolingLoop address (attempts - 1) bus
termination_by (attempts - 1).toNat
decreasing_by exact toNat_sub_one_lt h

/-- `do { .. } while (--attempts && ((ret & flagToPooling) == 0))` of
`SW_I2C_WriteWithFlagPooling`: `attempts` and the lines. -/
def flagLoop (flagToPooling attempts : UInt8) (bus : Bus) : UInt8 × Bus :=
  let (ret, bus) := d.read 1 bus
  if h : attempts - 1 = 0 then (attempts - 1, bus)
  else if ret.toUInt8 &&& flagToPooling = 0 then flagLoop flagToPooling (attempts - 1) bus
  else (attempts - 1, bus)
termination_by (attempts - 1).toNat
decreasing_by exact toNat_sub_one_lt h

end Driver

/-! ## Functions -/

/-- What all functions begin with: the interface, the bus, and then the transfer. -/
def onBus {α : Type} (driver : Option Driver) (refused : I2CResult → α)
    (transfer : Driver → Bus → α × Bus) (bus : Bus) : α × Bus :=
  match driver with
  | none => (refused .interfaceError, bus)
  | some d =>
    let (rc, bus) := d.start bus
    if rc ≠ .success then (refused .busBusy, bus) else transfer d bus

/-- `SW_I2C_WR` after the start. -/
def Driver.wr (d : Driver) (address : UInt8) (reg buf : List UInt8) (bus : Bus) :
    I2CResult × Bus :=
  let (ack, bus) := d.write (address &&& 0xFE) bus
  let (result, bus) :=
    if ack = 0 then
      let (result, bus) := d.writeReg reg .success bus
      d.writeBuf buf result bus
    else (.addNotExist, bus)
  (result, d.stop bus)

/-- `SW_I2C_WR`. -/
def wr (driver : Option Driver) (address : UInt8) (reg buf : List UInt8) (bus : Bus) :
    I2CResult × Bus :=
  onBus driver id (fun d bus => d.wr address reg buf bus) bus

/-- `SW_I2C_RD` after the start: the result and what `buf` holds. -/
def Driver.rd (d : Driver) (address : UInt8) (reg buf : List UInt8) (bus : Bus) :
    (I2CResult × List UInt8) × Bus :=
  let (ack, bus) := d.write (address &&& 0xFE) bus
  let (result, buf, bus) :=
    if ack = 0 then
      let (result, bus) := d.writeReg reg (.ofUInt16 0) bus
      let bus := d.reStart bus
      let (ack, bus) := d.write (address ||| 0x01) bus
      if ack = 0 then
        let (buf, bus) := d.readBuf buf.length bus
        (I2CResult.success, buf, bus)
      else (result, buf, bus)
    else (.addNotExist, buf, bus)
  ((result, buf), d.stop bus)

/-- `SW_I2C_RD`: the result, what `buf` holds, and the lines. -/
def rd (driver : Option Driver) (address : UInt8) (reg buf : List UInt8) (bus : Bus) :
    (I2CResult × List UInt8) × Bus :=
  onBus driver (fun result => (result, buf)) (fun d bus => d.rd address reg buf bus) bus

/-- `SW_I2C_RD_POOLING_ACK` after the start: the result and what `buf` holds. -/
def Driver.rdPoolingAck (d : Driver) (address reg : UInt8) (buf : List UInt8) (attempts : UInt8)
    (bus : Bus) : (I2CResult × List UInt8) × Bus :=
  let (ack, bus) := d.write (address &&& 0xFE) bus
  let (result, buf, bus) :=
    if ack = 0 then
      let (_, bus) := d.write reg bus
      let (result, attempts, bus) := d.poolingLoop address attempts bus
      if attempts ≠ 0 then
        let (buf, bus) := d.readBuf buf.length bus
        (result, buf, bus)
      else (.timeout, buf, bus)
    else (.addNotExist, buf, bus)
  ((result, buf), d.stop bus)

/-- `SW_I2C_RD_POOLING_ACK`: the result, what `buf` holds, and the lines. -/
def rdPoolingAck (driver : Option Driver) (address reg : UInt8) (buf : List UInt8)
    (attempts : UInt8) (bus : Bus) : (I2CResult × List UInt8) × Bus :=
  onBus driver (fun result => (result, buf))
    (fun d bus => d.rdPoolingAck address reg buf attempts bus) bus

/-- `SW_I2C_WriteWithFlagPooling` after the start. -/
def Driver.writeWithFlagPooling (d : Driver) (address reg : UInt8) (value : Option UInt8)
    (attempts flagToPooling : UInt8) (bus : Bus) : I2CResult × Bus :=
  let (ack, bus) := d.write (address &&& 0xFE) bus
  let (attempts, bus) :=
    if ack = 0 then
      let bus := if reg ≠ 0 then (d.write reg bus).2 else bus
      let bus :=
        match value with
        | some value => (d.write value bus).2
        | none => bus
      let bus := (d.write (address ||| 0x01) (d.reStart bus)).2
      let (attempts, bus) := d.flagLoop flagToPooling attempts bus
      (attempts, (d.read 0 bus).2)
    else (attempts, bus)
  let bus := d.stop bus
  if attempts = 0 then (.timeout, bus) else (.success, bus)

/-- `SW_I2C_WriteWithFlagPooling`; `value` may be null. -/
def writeWithFlagPooling (driver : Option Driver) (address reg : UInt8) (value : Option UInt8)
    (attempts flagToPooling : UInt8) (bus : Bus) : I2CResult × Bus :=
  onBus driver id
    (fun d bus => d.writeWithFlagPooling address reg value attempts flagToPooling bus) bus

end MyLibraries.SwI2c
