import MyLibraries.Core.Device

/-!
# Gestures of the `APDS-9960` sensor

`apds9960_gesture` waits for the gesture interrupt, reads as many samples from the FIFO of
the sensor as its level says, keeps the first and the last valid one, and compares their
channels. It is a program over the functions of `struct apds9960`; a read gives the bytes
of the block that was asked for. A fault is a buffer that the read does not fill, a
division by zero, or a wait that does not end within the polls it is given.
-/

namespace MyLibraries.Apds9960

open Device

/-- What the functions of `struct apds9960` are called with: a register and the size of
the block for `write_reg` and `read_reg`, nothing for `check_irq`, the bit for
`wait_for_irq`. -/
inductive Port
  | reg (addr : UInt8) (size : Nat)
  | checkIrq
  | waitForIrq (bit : UInt8)
  deriving DecidableEq, Repr

abbrev Io := Dev Port (List UInt8)

/-- `struct apds9960`: which of the two optional functions are set. -/
structure Apds where
  checkIrq : Bool
  waitForIrq : Bool
  deriving DecidableEq, Repr

/-- `enum apds_gesture`. -/
inductive Gesture
  | noActivity
  | dirUp
  | dirDown
  | dirLeft
  | dirRight
  | errDataInvalid
  | errFifoEmpty
  deriving DecidableEq, Repr

/-- `struct gesture_data`. -/
structure GestureData where
  up : UInt8
  down : UInt8
  left : UInt8
  right : UInt8
  deriving DecidableEq, Repr

def enableReg : UInt8 := 0x80
def enableGen : UInt8 := 0x40
def enableWen : UInt8 := 0x08
def enablePen : UInt8 := 0x04
def enableAen : UInt8 := 0x02
def enablePon : UInt8 := 0x01
def statusReg : UInt8 := 0x93
def statusGintBit : UInt8 := 0x04
def gflvlReg : UInt8 := 0xAE
def gstatusReg : UInt8 := 0xAF
def piclearReg : UInt8 := 0xE5
def ciclearReg : UInt8 := 0xE6
def aiclearReg : UInt8 := 0xE7
def gfifoUReg : UInt8 := 0xFC

/-- `GESTURE_THRESHOLD_MIN`. -/
def gestureThresholdMin : Nat := 10

/-- `GESTURE_THRESHOLD_MAX`. -/
def gestureThresholdMax : Nat := 240

/-! ## The interface -/

/-- `dev->write_reg`. -/
def writeReg (reg value : UInt8) : Io Unit := .write (.reg reg 1) [value] (.done ())

/-- The byte that a function gives. -/
def readByte (port : Port) : Io UInt8 :=
  .read port fun
    | [byte] => .done byte
    | _ => .fault

/-- `dev->read_reg` of one byte. -/
def readReg (reg : UInt8) : Io UInt8 := readByte (.reg reg 1)

/-- `dev->read_reg` of a sample; a `struct gesture_data` has four bytes. -/
def readSample : Io GestureData :=
  .read (.reg gfifoUReg 4) fun
    | [up, down, left, right] => .done ⟨up, down, left, right⟩
    | _ => .fault

/-- `!dev->check_irq || dev->check_irq()`. -/
def pinRaised (dev : Apds) : Io UInt8 := if dev.checkIrq then readByte .checkIrq else pure 1

/-- `check_irq`. -/
def checkIrq (dev : Apds) (bit : UInt8) : Io UInt8 := do
  let raised ← pinRaised dev
  if raised = 0 then pure 0
  else
    let irq ← readReg statusReg
    pure (irq &&& bit)

/-- The loop of `wait_for_irq`, for as many rounds as `polls` says. -/
def pollIrq (dev : Apds) (bit : UInt8) : Nat → Io UInt8
  | 0 => .fault
  | polls + 1 => do
    let ret ← checkIrq dev bit
    if ret = 0 then pollIrq dev bit polls else pure ret

/-- `wait_for_irq`. -/
def waitForIrq (dev : Apds) (polls : Nat) (bit : UInt8) : Io UInt8 :=
  if dev.waitForIrq then readByte (.waitForIrq bit) else pollIrq dev bit polls

/-- `sleep_mode`. -/
def sleepMode : Io Unit := do
  writeReg enableReg 0
  writeReg piclearReg 0
  writeReg ciclearReg 0
  writeReg aiclearReg 0

/-! ## The gesture -/

/-- `validate_gest_data`. -/
def validateGestData (data : GestureData) : Bool :=
  data.up.toNat > gestureThresholdMin && data.down.toNat > gestureThresholdMin &&
    data.left.toNat > gestureThresholdMin && data.right.toNat > gestureThresholdMin &&
    data.up.toNat < gestureThresholdMax && data.down.toNat < gestureThresholdMax &&
    data.left.toNat < gestureThresholdMax && data.right.toNat < gestureThresholdMax

/-- `((a - b) * 100) / (a + b)`, of an `int`. -/
def ratio (a b : UInt8) : Option Int :=
  let sum : Int := a.toNat + b.toNat
  if sum = 0 then none else some ((((a.toNat : Int) - b.toNat) * 100).tdiv sum)

/-- The comparisons of `proccess_gesture`. -/
def direction (diffUd diffLr : Int) : Gesture :=
  if diffUd > diffLr ∧ diffUd > gestureThresholdMin then .dirUp
  else if diffUd > diffLr ∧ diffUd < -gestureThresholdMin then .dirDown
  else if diffUd < diffLr ∧ diffLr > gestureThresholdMin then .dirLeft
  else if diffUd < diffLr ∧ diffLr < -gestureThresholdMin then .dirRight
  else .errDataInvalid

/-- `proccess_gesture`. -/
def proccessGesture (min max : GestureData) : Option Gesture := do
  let udMin ← ratio min.up min.down
  let lrMin ← ratio min.left min.right
  let udMax ← ratio max.up max.down
  let lrMax ← ratio max.left max.right
  some (direction (udMax - udMin) (lrMax - lrMin))

/-- The first valid sample and the last one behind it; `none` where `is_filled` is not
set. -/
abbrev Kept := Option GestureData × Option GestureData

/-- What the loop does with a sample. -/
def keep (kept : Kept) (gesture : GestureData) : Kept :=
  if validateGestData gesture then
    match kept.1 with
    | none => (some gesture, kept.2)
    | some _ => (kept.1, some gesture)
  else kept

/-- The loop over the FIFO. -/
def readFifo : Nat → Kept → Io Kept
  | 0, kept => pure kept
  | fifoLevel + 1, kept => do
    let gesture ← readSample
    readFifo fifoLevel (keep kept gesture)

/-- `apds9960_gesture` up to its loop: the result so far, and how many samples to read. -/
def awaitFifo (dev : Apds) (polls : Nat) : Io (Gesture × UInt8) := do
  writeReg enableReg (enableGen ||| enablePen ||| enableAen ||| enablePon ||| enableWen)
  let ret ← waitForIrq dev polls statusGintBit
  if ret = 0 then pure (.noActivity, 0)
  else
    let gvalid ← readReg gstatusReg
    if gvalid = 0 then pure (.errDataInvalid, 0)
    else
      let fifoLevel ← readReg gflvlReg
      if fifoLevel = 0 then pure (.errFifoEmpty, 0) else pure (.noActivity, fifoLevel)

/-- The end of `apds9960_gesture`. -/
def evaluate (res : Gesture) (kept : Kept) : Io Gesture :=
  match kept with
  | (some min, some max) =>
    match proccessGesture min max with
    | none => .fault
    | some gesture => pure gesture
  | _ => pure res

/-- `apds9960_gesture`. -/
def apds9960Gesture (dev : Apds) (polls : Nat) : Io Gesture := do
  let (res, fifoLevel) ← awaitFifo dev polls
  let kept ← readFifo fifoLevel.toNat (none, none)
  sleepMode
  evaluate res kept

end MyLibraries.Apds9960
