import MyLibraries.Core.Device

/-!
# The radio `nRF24L01+`

The functions of the driver are programs over those of the interface: all of these answer, so
all of them are reads here, and what is written is part of what the function is called with. A
register read gives one byte; where the bus fails that is whatever was on the stack, so any
byte will do. The payload itself goes to the caller and is left out. A pipe number without an
element of `rx_pipe_size` is a fault.
-/

namespace MyLibraries.Nrf24

open Device

/-- What the functions of the interface are called with. -/
inductive Port
  | write (reg : UInt8) (buf : List UInt8)
  | read (reg : UInt8) (size : UInt8)
  | radioEn (state : Bool)
  | readIrq
  deriving DecidableEq, Repr

/-- What they give: the result, and a byte of the buffer. -/
structure Reply where
  code : UInt8
  byte : UInt8
  deriving DecidableEq, Repr

abbrev Io := Dev Port Reply

/-- `enum radio_mode`. -/
inductive RadioMode
  | tx
  | rx
  deriving DecidableEq, Repr

/-- `config`. -/
structure Config where
  mode : RadioMode
  powerEnable : Bool
  crcConfig : Bool
  crcEnable : Bool
  maxRtIrq : Bool
  txIrq : Bool
  rxIrq : Bool
  deriving DecidableEq, Repr

/-- The byte that `config` is. -/
def Config.toByte (c : Config) : UInt8 :=
  (if c.mode = .rx then 0x01 else 0) ||| (if c.powerEnable then 0x02 else 0) |||
    (if c.crcConfig then 0x04 else 0) ||| (if c.crcEnable then 0x08 else 0) |||
    (if c.maxRtIrq then 0x10 else 0) ||| (if c.txIrq then 0x20 else 0) |||
    (if c.rxIrq then 0x40 else 0)

/-- `struct nrf24l01_conf`: whether `read_irq` is set, the last result of the bus, and the
settings; those that are written to a register as they are stand as their byte. -/
structure Conf where
  readIrq : Bool
  error : UInt8
  config : Config
  autoAcknowledgment : UInt8
  enabledRxAddresses : UInt8
  addressWidths : UInt8
  autoRetransmit : UInt8
  channel : UInt8
  setup : UInt8
  rxAddressP0 : Option (Vector UInt8 5)
  rxAddressP1 : Option (Vector UInt8 5)
  rxAddressP2 : UInt8
  rxAddressP3 : UInt8
  rxAddressP4 : UInt8
  rxAddressP5 : UInt8
  txAddress : Option (Vector UInt8 5)
  rxPipeSize : Vector UInt8 6
  deriving DecidableEq

def configReg : UInt8 := 0x00
def enAaReg : UInt8 := 0x01
def enRxaddrReg : UInt8 := 0x02
def setupAwReg : UInt8 := 0x03
def setupRetrReg : UInt8 := 0x04
def rfChReg : UInt8 := 0x05
def rfSetupReg : UInt8 := 0x06
def statusReg : UInt8 := 0x07
def rxAddrP0Reg : UInt8 := 0x0A
def rxAddrP1Reg : UInt8 := 0x0B
def rxAddrP2Reg : UInt8 := 0x0C
def rxAddrP3Reg : UInt8 := 0x0D
def rxAddrP4Reg : UInt8 := 0x0E
def rxAddrP5Reg : UInt8 := 0x0F
def txAddrReg : UInt8 := 0x10
def rxPwP0Reg : UInt8 := 0x11
def fifoStatusReg : UInt8 := 0x17
def rxDrIrqMask : UInt8 := 0x40
def flushRxCmd : UInt8 := 0xE2
def sendPayloadCmd : UInt8 := 0xA0
def txDsIrqMask : UInt8 := 0x20
def maxRtIrqMask : UInt8 := 0x10
def flushTxCmd : UInt8 := 0xE1
def rxPayloadCmd : UInt8 := 0x61
def pipeBitmask : UInt8 := 0x0E
def rxFifoEmptyMask : UInt8 := 0x01
def invertIrqBits : UInt8 := 0x70
def maxPipeSize : UInt8 := 32

/-- `RX_PW_P0_REG` to `RX_PW_P5_REG`, which are `0x11` to `0x16`. -/
def rxPwReg (pipe : Nat) : UInt8 := rxPwP0Reg + UInt8.ofNat pipe

/-- `MIN`. -/
def minOf (a b : UInt8) : UInt8 := if a < b then a else b

/-! ## The interface -/

/-- `interface.write`. -/
def write (reg : UInt8) (buf : List UInt8) : Io UInt8 :=
  .read (.write reg buf) fun r => .done r.code

/-- `interface.read`. -/
def read (reg size : UInt8) : Io Reply := .read (.read reg size) fun r => .done r

/-- `interface.radio_en`. -/
def radioEn (state : Bool) : Io Unit := .read (.radioEn state) fun _ => .done ()

/-- `write_reg`. -/
def writeReg (dev : Conf) (reg value : UInt8) : Io Conf := do
  let error ← write (((0x1F : UInt8) &&& reg) ||| 0x20) [value]
  pure { dev with error := error }

/-- `read_reg`. -/
def readReg (dev : Conf) (reg : UInt8) : Io (UInt8 × Conf) := do
  let reply ← read ((0x1F : UInt8) &&& reg) 1
  pure (reply.byte, { dev with error := reply.code })

/-- `write_address`. -/
def writeAddress (reg : UInt8) (address : Option (Vector UInt8 5)) : Io Unit :=
  match address with
  | none => pure ()
  | some address => do
    let _ ← write (reg ||| 0x20) address.toList
    pure ()

/-- `read_irq`. -/
def readIrq (dev : Conf) (irqMask : UInt8) : Io (Bool × Conf) :=
  if dev.readIrq then .read .readIrq fun r => .done (r.byte = 0, dev)
  else do
    let (status, dev) ← readReg dev statusReg
    pure (status &&& irqMask ≠ 0, dev)

/-- `clear_irq`. -/
def clearIrq (dev : Conf) (irqMask : UInt8) : Io Conf := writeReg dev statusReg irqMask

/-- `flush_buffer`. -/
def flushBuffer (cmd : UInt8) : Io Unit := do
  let _ ← write cmd []
  pure ()

/-- `update_config`. -/
def updateConfig (dev : Conf) : Io Conf :=
  writeReg dev configReg (dev.config.toByte ^^^ invertIrqBits)

/-- `disable_radio`. -/
def disableRadio (dev : Conf) : Io Conf := writeReg dev configReg 0x00

/-! ## The driver -/

/-- `switch_mode`. -/
def switchMode (dev : Conf) (mode : RadioMode) (powerEnable : Bool) : Io Conf := do
  let dev := { dev with config := { dev.config with mode := mode, powerEnable := powerEnable } }
  let dev ← disableRadio dev
  match mode with
  | .tx =>
    updateConfig { dev with config := { dev.config with
      txIrq := true, rxIrq := false, maxRtIrq := dev.autoRetransmit &&& 0x0F ≠ 0 } }
  | .rx =>
    let dev := { dev with config := { dev.config with
      rxIrq := true, txIrq := false, maxRtIrq := false } }
    radioEn powerEnable
    updateConfig dev

/-- The first lines of `recv`: a transmitter becomes a receiver. -/
def toReceiver (dev : Conf) : Io Conf :=
  if dev.config.mode = .tx then do
    let dev ← switchMode dev .rx true
    radioEn true
    pure dev
  else pure dev

/-- `PIPE_BITMASK` and the shift behind it. -/
def pipeOf (status : UInt8) : Nat := ((status &&& pipeBitmask) >>> 1).toNat

/-- The end of `recv`: the interrupt is cleared when the last data was received. -/
def clearIfEmpty (dev : Conf) : Io Conf := do
  let (fifoStatus, dev) ← readReg dev fifoStatusReg
  if fifoStatus &&& rxFifoEmptyMask ≠ 0 then
    let dev ← clearIrq dev rxDrIrqMask
    flushBuffer flushRxCmd
    pure dev
  else pure dev

/-- The rest of `recv`, once there is something to receive. -/
def receive (dev : Conf) : Io (UInt8 × Option Nat × Conf) := do
  let (status, dev) ← readReg dev statusReg
  match dev.rxPipeSize[pipeOf status]? with
  | none => .fault
  | some size =>
    let _ ← read rxPayloadCmd size
    let dev ← clearIfEmpty dev
    pure (size, some (pipeOf status), dev)

/-- `recv`: the number of bytes, and the pipe when there are any. -/
def recv (dev : Conf) : Io (UInt8 × Option Nat × Conf) := do
  let dev ← toReceiver dev
  let (raised, dev) ← readIrq dev rxDrIrqMask
  if raised then receive dev else pure (0, none, dev)

/-- `while (!read_irq(tx_irq) && --cnt);`, from `cnt = left + 1`; the `cnt` at its end. -/
def waitIrq (dev : Conf) (irqMask : UInt8) : Nat → Io (UInt32 × Conf)
  | 0 => do
    let (raised, dev) ← readIrq dev irqMask
    pure (if raised then 1 else 0, dev)
  | left + 1 => do
    let (raised, dev) ← readIrq dev irqMask
    if raised then pure (UInt32.ofNat (left + 2), dev) else waitIrq dev irqMask left

/-- `auto_retransmit.count`, its four low bits. -/
def Conf.retransmits (dev : Conf) : Bool := dev.autoRetransmit &&& 0x0F ≠ 0

/-- The end of `send`: back to reception. -/
def sendEnd (dev : Conf) (inRx : Bool) : Io Conf :=
  if inRx then switchMode dev .rx true
  else do
    radioEn false
    pure dev

/-- What `send` reports: the status tells with retransmissions, and the count without. -/
def sendResult (dev : Conf) (cnt : UInt32) : Io (Bool × Conf) :=
  if dev.retransmits then do
    let (status, dev) ← readReg dev statusReg
    pure (status &&& maxRtIrqMask = 0, dev)
  else pure (cnt ≠ 0, dev)

/-- `send`, with the `read_cnt` of the configuration. -/
def send (readCnt : UInt32) (dev : Conf) (dest : Option (Vector UInt8 5)) (data : List UInt8) :
    Io (Bool × Conf) := do
  let inRx := dev.config.mode = .rx
  let txIrq := if dev.retransmits then maxRtIrqMask ||| txDsIrqMask else txDsIrqMask
  writeAddress txAddrReg dest
  radioEn true
  let dev ← switchMode dev .tx true
  let _ ← write sendPayloadCmd data
  let (cnt, dev) ← waitIrq dev txIrq (readCnt - 1).toNat
  let (res, dev) ← sendResult dev cnt
  let dev ← clearIrq dev txIrq
  flushBuffer flushTxCmd
  let dev ← sendEnd dev inRx
  pure (res, dev)

/-- `sleep`. -/
def sleep (dev : Conf) : Io Conf := do
  radioEn false
  switchMode dev dev.config.mode false

/-- `wakeup`. -/
def wakeup (dev : Conf) : Io Conf := do
  let dev ← switchMode dev dev.config.mode true
  if dev.config.mode = .rx then do
    radioEn true
    pure dev
  else pure dev

/-- A row of `write_reg`. -/
def writeRegs (dev : Conf) : List (UInt8 × UInt8) → Io Conf
  | [] => pure dev
  | (reg, value) :: rows => do
    let dev ← writeReg dev reg value
    writeRegs dev rows

/-- `nrf24l01_init`. -/
def nrf24l01Init (dev : Conf) : Io (UInt8 × Conf) := do
  let dev ← disableRadio dev
  let dev ← writeRegs dev
    [(enAaReg, dev.autoAcknowledgment),
      (enRxaddrReg, dev.enabledRxAddresses),
      (setupAwReg, dev.addressWidths),
      (setupRetrReg, dev.autoRetransmit),
      (rfChReg, dev.channel &&& 0x7F),
      (rfSetupReg, dev.setup)]
  writeAddress rxAddrP0Reg dev.rxAddressP0
  writeAddress rxAddrP1Reg dev.rxAddressP1
  writeAddress txAddrReg dev.txAddress
  let dev ← writeRegs dev
    [(rxAddrP2Reg, dev.rxAddressP2),
      (rxAddrP3Reg, dev.rxAddressP3),
      (rxAddrP4Reg, dev.rxAddressP4),
      (rxAddrP5Reg, dev.rxAddressP5)]
  let dev ← writeRegs dev ((List.finRange 6).map fun (pipe : Fin 6) =>
    (rxPwReg pipe.val, minOf (dev.rxPipeSize.get pipe) maxPipeSize))
  let dev ← switchMode dev dev.config.mode dev.config.powerEnable
  pure (dev.error, dev)

/-! ## Sessions -/

/-- A call of a function of the driver. -/
inductive Request
  | send (dest : Option (Vector UInt8 5)) (data : List UInt8)
  | recv
  | switchMode (mode : RadioMode) (powerEnable : Bool)
  | sleep
  | wakeup
  deriving DecidableEq

def Request.call (readCnt : UInt32) (dev : Conf) : Request → Io Conf
  | .send dest data => do
    let (_, dev) ← Nrf24.send readCnt dev dest data
    pure dev
  | .recv => do
    let (_, _, dev) ← Nrf24.recv dev
    pure dev
  | .switchMode mode powerEnable => Nrf24.switchMode dev mode powerEnable
  | .sleep => Nrf24.sleep dev
  | .wakeup => Nrf24.wakeup dev

def session (readCnt : UInt32) (dev : Conf) : List Request → Io Conf
  | [] => pure dev
  | request :: requests => do
    let dev ← request.call readCnt dev
    session readCnt dev requests

end MyLibraries.Nrf24
