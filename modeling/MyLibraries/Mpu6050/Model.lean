import MyLibraries.Core.Device

/-!
# The accelerometer `MPU6050`

`mpu6050_get_result` and `mpu6050_zero_cal` are programs over the functions of
`struct acc_interface`. A `rd` returns its result and leaves a buffer, of which a block takes
the first bytes; it leaves one also where it fails. The loop of `mpu6050_zero_cal` has no
bound, so it is given a number of rounds here, and a fault stands for a call that is still in
it. The results in floating point take part in nothing and are left out.
-/

namespace MyLibraries.Mpu6050

open Device

/-- What the functions of `struct acc_interface` are called with. -/
inductive Port
  | rd (reg : UInt8) (size : Nat)
  | ready
  deriving DecidableEq, Repr

/-- What they answer. -/
structure Reply where
  value : UInt16
  buf : Vector UInt8 14
  deriving DecidableEq

abbrev Io := Dev Port Reply

/-! ## `enum acc_result` -/

def success : UInt8 := 0
def busy : UInt8 := 1
def interfaceError : UInt8 := 2
def inval : UInt8 := 4

/-- `struct acc_measdata`. -/
structure AccMeasdata where
  x : Int16
  y : Int16
  z : Int16
  temp : Int16
  ax : Int16
  ay : Int16
  az : Int16
  deriving DecidableEq

/-- `struct acc_zeropoint`. -/
structure AccZeropoint where
  xOffset : Int16
  yOffset : Int16
  zOffset : Int16
  axOffset : Int16
  ayOffset : Int16
  azOffset : Int16
  deriving DecidableEq

/-- `struct acc`: whether `ready` is set, the last measurement, and the zero point if it is
there. -/
structure Acc where
  ready : Bool
  raw : AccMeasdata
  zero : Option AccZeropoint
  deriving DecidableEq

def intStatus : UInt8 := 0x3A
def dataReadyBit : UInt8 := 0x01

/-- `dev->i.rd`. -/
def rd (reg : UInt8) (size : Nat) : Io (UInt8 × Vector UInt8 14) :=
  .read (.rd reg size) fun r => .done (r.value.toUInt8, r.buf)

/-- `dev->i.ready`. -/
def isReady : Io UInt16 := .read .ready fun r => .done r.value

/-- Two bytes as an `int16_t` of the processor. -/
def half (low high : UInt8) : Int16 := (low.toUInt16 ||| high.toUInt16 <<< 8).toInt16

/-- The bytes as a `struct acc_measdata`. -/
def measdata (buf : Vector UInt8 14) : AccMeasdata where
  x := half buf[0] buf[1]
  y := half buf[2] buf[3]
  z := half buf[4] buf[5]
  temp := half buf[6] buf[7]
  ax := half buf[8] buf[9]
  ay := half buf[10] buf[11]
  az := half buf[12] buf[13]

/-- A measurement without its zero point. -/
def AccMeasdata.remove (raw : AccMeasdata) (zero : AccZeropoint) : AccMeasdata :=
  { raw with
    x := raw.x - zero.xOffset
    y := raw.y - zero.yOffset
    z := raw.z - zero.zOffset
    ax := raw.ax - zero.axOffset
    ay := raw.ay - zero.ayOffset
    az := raw.az - zero.azOffset }

/-- The measurement as a zero point. -/
def AccMeasdata.offsets (raw : AccMeasdata) : AccZeropoint :=
  ⟨raw.x, raw.y, raw.z, raw.ax, raw.ay, raw.az⟩

/-- No offsets. -/
def AccZeropoint.removed : AccZeropoint := ⟨0, 0, 0, 0, 0, 0⟩

/-- The first part of `mpu6050_get_result`: 0 where there is data. -/
def awaitData (dev : Acc) : Io UInt8 :=
  if dev.ready then do
    let ready ← isReady
    pure (if ready = 0 then busy else success)
  else do
    let (res, buf) ← rd intStatus 1
    if res ≠ 0 then pure res
    else pure (if buf[0] &&& dataReadyBit = 0 then busy else success)

/-- `mpu6050_get_result`. -/
def getResult (dev : Acc) : Io (UInt8 × Acc) := do
  let res ← awaitData dev
  if res ≠ 0 then pure (res, dev)
  else
    let (res, buf) ← rd intStatus 14
    if res ≠ 0 then pure (interfaceError, { dev with raw := measdata buf })
    else
      match dev.zero with
      | none => pure (success, { dev with raw := measdata buf })
      | some zero => pure (success, { dev with raw := (measdata buf).remove zero })

/-- The loop of `mpu6050_zero_cal`. -/
def updateData : Nat → Acc → Io (UInt8 × Acc)
  | 0, _ => .fault
  | rounds + 1, dev => do
    let (res, dev) ← getResult dev
    if res = busy then updateData rounds dev else pure (res, dev)

/-- `mpu6050_zero_cal`. -/
def zeroCal (rounds : Nat) (dev : Acc) : Io (UInt8 × Acc) :=
  match dev.zero with
  | none => pure (inval, dev)
  | some _ => do
    let (res, dev) ← updateData rounds { dev with zero := some .removed }
    if res ≠ 0 then pure (res, dev)
    else pure (success, { dev with zero := some dev.raw.offsets })

end MyLibraries.Mpu6050
