import MyLibraries.Core.TwoWire

/-!
# The I2C master over two pins

`I2C_GPIO`. The pins are open-drain: a line reads high if the master has released it and
so have the others, who decide by the trace so far. No one stretches the clock, so what
the others make of SCL matters only where the master reads it.
-/

namespace MyLibraries.I2cGpio

open TwoWire

/-- Whether the others release the lines, after a trace. -/
structure Others where
  sda : List Event → Bool
  scl : List Event → Bool

/-- The levels of `sda_pin_` and `scl_pin_`, and what has been done to them. -/
structure Bus where
  sda : Bool
  scl : Bool
  trace : List Event
  deriving DecidableEq

/-- `EIO`. -/
def eio : Int := 5

/-- `EBUSY`. -/
def ebusy : Int := 16

/-- `while (mask) { body; mask >>= 1; }`, for a mask of at most `n` bits. -/
def whileMask {σ : Type} (body : UInt8 → σ → σ) : Nat → UInt8 → σ → σ
  | 0, _, s => s
  | n + 1, mask, s => if mask ≠ 0 then whileMask body n (mask >>> 1) (body mask s) else s

namespace Bus

/-- Both lines are released. -/
def idle (past : List Event) : Bus := { sda := true, scl := true, trace := past }

/-- `sda_pin_.Set`. -/
def setSda (level : Bool) (b : Bus) : Bus :=
  { b with sda := level, trace := b.trace ++ [.sda level] }

/-- `scl_pin_.Set`. -/
def setScl (level : Bool) (b : Bus) : Bus :=
  { b with scl := level, trace := b.trace ++ [.scl level] }

/-- `DelayFunc`. -/
def delayFunc (b : Bus) : Bus := { b with trace := b.trace ++ [.delay] }

variable (others : Others)

/-- `sda_pin_.Get`. -/
def getSda (b : Bus) : Bool := b.sda && others.sda b.trace

/-- `scl_pin_.Get`. -/
def getScl (b : Bus) : Bool := b.scl && others.scl b.trace

def startCondition (b : Bus) : Int × Bus :=
  let b := b.setSda true |>.setScl true |>.delayFunc
  if b.getSda others = false ∨ b.getScl others = false then (-ebusy, b)
  else (0, b.setSda false |>.delayFunc |>.setScl false |>.delayFunc)

def repeatStartCondition (b : Bus) : Bus :=
  let b := b.setSda true |>.setScl true |>.delayFunc
  b.setSda false |>.delayFunc |>.setScl false |>.delayFunc

def stopCondition (b : Bus) : Bus :=
  b.delayFunc |>.setSda false |>.setScl true |>.delayFunc |>.setSda true |>.delayFunc

/-- The loop body of `WriteByte`. -/
def writeBit (data mask : UInt8) (b : Bus) : Bus :=
  let b := if data &&& mask ≠ 0 then b.setSda true else b.setSda false
  b.setScl true |>.delayFunc |>.setScl false |>.delayFunc

def writeByte (data : UInt8) (b : Bus) : UInt16 × Bus :=
  let b := whileMask (writeBit data) 8 0x80 b
  let b := b.setSda true |>.delayFunc |>.setScl true |>.delayFunc
  let ack := (b.getSda others).toUInt16
  (ack, b.setScl false |>.delayFunc)

/-- The loop body of `ReadByte`. -/
def readBit (mask : UInt8) : UInt8 × Bus → UInt8 × Bus
  | (data, b) =>
    let b := b.setScl true |>.delayFunc
    let data := if b.getSda others then data ||| mask else data
    (data, b.setScl false |>.delayFunc)

def readByte (ack : Bool) (b : Bus) : UInt16 × Bus :=
  let (data, b) := whileMask (readBit others) 8 0x80 (0, b.setSda true)
  let b := if ack then b.setSda false else b.setSda true
  let b := b.delayFunc |>.setScl true |>.delayFunc |>.setScl false |>.delayFunc
  (data.toUInt16, b.setSda true)

end Bus

/-! ## Transfers -/

/-- `Result<Unit>`. -/
structure Result where
  error : Int
  deriving DecidableEq

def Result.ok : Result := ⟨0⟩

def Result.err (error : Int) : Result := ⟨error⟩

def Result.isOk (r : Result) : Bool := r.error == 0

/-- What the lambdas of `Write` and of `Read` share: the bus, `started`, and the buffer. -/
structure Transfer where
  bus : Bus
  started : Bool
  data : List UInt8
  deriving DecidableEq

/-- `Result<Unit>::AndThen`. -/
def andThen (r : Result × Transfer) (func : Transfer → Result × Transfer) :
    Result × Transfer :=
  if !r.1.isOk then (.err r.1.error, r.2) else func r.2

theorem andThen_err {t : Transfer} {func : Transfer → Result × Transfer} {error : Int}
    (h : error ≠ 0) :
    andThen (⟨error⟩, t) func = (⟨error⟩, t) := by
  have hok : (!Result.isOk ⟨error⟩) = true := by simpa [Result.isOk] using h
  unfold andThen
  rw [if_pos hok]
  rfl

theorem andThen_ok {t : Transfer} {func : Transfer → Result × Transfer} :
    andThen (.ok, t) func = func t := rfl

namespace Transfer

variable (others : Others)

def start (t : Transfer) : Result × Transfer :=
  let (rc, bus) := t.bus.startCondition others
  if rc ≠ 0 then (.err rc, { t with bus }) else (.ok, { t with bus, started := true })

def writeByte (byte : UInt8) (t : Transfer) : Result × Transfer :=
  let (ack, bus) := t.bus.writeByte others byte
  if ack ≠ 0 then (.err (-eio), { t with bus }) else (.ok, { t with bus })

def writeMany : List UInt8 → Transfer → Result × Transfer
  | [], t => (.ok, t)
  | byte :: buffer, t =>
    let (ack, bus) := t.bus.writeByte others byte
    if ack ≠ 0 then (.err (-eio), { t with bus }) else writeMany buffer { t with bus }

def repeatStart (t : Transfer) : Result × Transfer :=
  (.ok, { t with bus := t.bus.repeatStartCondition })

/-- The loop body of `readMany`. -/
def readAt (dataLength : Nat) (t : Transfer) (i : Nat) : Transfer :=
  let ack := decide (i + 1 < dataLength)
  let (byte, bus) := t.bus.readByte others ack
  { t with bus, data := t.data.set i byte.toUInt8 }

def readMany (t : Transfer) : Result × Transfer :=
  (.ok, (List.range t.data.length).foldl (readAt others t.data.length) t)

/-- What `Write` and `Read` do after the chain: the return value, the buffer and the bus. -/
def finish : Result × Transfer → Int × List UInt8 × Bus
  | (result, t) =>
    let bus := if t.started then t.bus.stopCondition else t.bus
    if !result.isOk then (result.error, t.data, bus) else (0, t.data, bus)

end Transfer

variable (others : Others)

/-- `I2C_GPIO::Write`: the return value, `data` and the bus. -/
def write (deviceAddr : UInt8) (regAddr data : List UInt8) (bus : Bus) :
    Int × List UInt8 × Bus :=
  let result := andThen (.ok, { bus, started := false, data }) (Transfer.start others)
  let result := andThen result (Transfer.writeByte others ((deviceAddr <<< 1) ||| 0))
  let result := andThen result (Transfer.writeMany others regAddr)
  let result := andThen result (Transfer.writeMany others data)
  Transfer.finish result

/-- `I2C_GPIO::Read`: the return value, `data` and the bus. -/
def read (deviceAddr : UInt8) (regAddr data : List UInt8) (bus : Bus) :
    Int × List UInt8 × Bus :=
  let result := andThen (.ok, { bus, started := false, data }) (Transfer.start others)
  let result := andThen result (Transfer.writeByte others ((deviceAddr <<< 1) ||| 0))
  let result := andThen result (Transfer.writeMany others regAddr)
  let result := andThen result Transfer.repeatStart
  let result := andThen result (Transfer.writeByte others ((deviceAddr <<< 1) ||| 1))
  let result := andThen result (Transfer.readMany others)
  Transfer.finish result

/-- A call of `Write` or of `Read`. -/
inductive Request
  | write (deviceAddr : UInt8) (regAddr data : List UInt8)
  | read (deviceAddr : UInt8) (regAddr data : List UInt8)

def Request.run : Request → Bus → Int × List UInt8 × Bus
  | .write deviceAddr regAddr data => I2cGpio.write others deviceAddr regAddr data
  | .read deviceAddr regAddr data => I2cGpio.read others deviceAddr regAddr data

end MyLibraries.I2cGpio
