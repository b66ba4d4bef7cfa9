import MyLibraries.Core.Device

/-!
# The driver of the `MFRC522` card reader

The driver as programs over the registers of the chip: every command to the card goes
through `toCard`, which fills the FIFO, starts the command and polls for the end, with a
bound on the number of polls. The chip may answer every read with any value. A reply that
does not fit the buffer of its caller is a fault; what the C stack holds in an array that
was not written is a parameter where the code passes it on.
-/

namespace MyLibraries.Mfrc522

open Device

/-- Programs over the registers, by the address and the byte of `io.wr` and `io.rd`. -/
abbrev Io := Dev UInt8 UInt8

/-- `enum mfrc_status`. -/
inductive Status
  | ok
  | noTagErr
  | err
  | noCard
  | collision
  | wrongCard
  | authError
  | readError
  | writeError
  | wrongData
  | wrongParam
  | interfaceError
  deriving DecidableEq, Repr

/-- `enum mfrc_op`. -/
inductive Op
  | cardRead
  | cardWrite
  | cardRW
  | cardRWAnyway
  deriving DecidableEq, Repr

/-! ## Constants -/

def piccReqIdl : UInt8 := 0x26
def piccAnticoll : UInt8 := 0x93
def piccSelectTag : UInt8 := 0x93
def piccRead : UInt8 := 0x30
def piccWrite : UInt8 := 0xA0
def piccHalt : UInt8 := 0x50
def piccAuthent1A : UInt8 := 0x60

def pcdIdle : UInt8 := 0x00
def pcdAuthent : UInt8 := 0x0E
def pcdTransceive : UInt8 := 0x0C
def pcdResetPhase : UInt8 := 0x0F
def pcdCalcCrc : UInt8 := 0x03

def mifareErr : UInt8 := 0x00
def mifare1k : UInt8 := 0x08

def regCommand : UInt8 := 0x01
def regCommIEn : UInt8 := 0x02
def regCommIrq : UInt8 := 0x04
def regDivIrq : UInt8 := 0x05
def regError : UInt8 := 0x06
def regStatus2 : UInt8 := 0x08
def regFifoData : UInt8 := 0x09
def regFifoLevel : UInt8 := 0x0A
def regControl : UInt8 := 0x0C
def regBitFraming : UInt8 := 0x0D
def regMode : UInt8 := 0x11
def regTxControl : UInt8 := 0x14
def regTxAuto : UInt8 := 0x15
def regCrcResultM : UInt8 := 0x21
def regCrcResultL : UInt8 := 0x22
def regRfCfg : UInt8 := 0x26
def regTMode : UInt8 := 0x2A
def regTPrescaler : UInt8 := 0x2B
def regTReloadH : UInt8 := 0x2C
def regTReloadL : UInt8 := 0x2D

/-- `MFRC522_MAX_SECTORS`. -/
def maxSectors : UInt8 := 40

/-! ## Registers -/

/-- The address under which `write_reg` writes a register. -/
def writeAddr (reg : UInt8) : UInt8 := (reg <<< 1) &&& 0x7E

/-- `write_reg`. -/
def writeReg (reg val : UInt8) : Io Unit := .write (writeAddr reg) val (.done ())

/-- `read_reg`. -/
def readReg (reg : UInt8) : Io UInt8 := .read (writeAddr reg ||| 0x80) .done

/-- `mfrc_set_bit_mask`. -/
def setBitMask (reg mask : UInt8) : Io Unit := do
  let val ← readReg reg
  writeReg reg (val ||| mask)

/-- `mfrc_clear_bit_mask`. -/
def clearBitMask (reg mask : UInt8) : Io Unit := do
  let val ← readReg reg
  writeReg reg (val &&& ~~~mask)

/-- `mfrc_tx_enable`. -/
def txEnable : Io Unit := do
  let val ← readReg regTxControl
  if val &&& 0x03 = 0 then setBitMask regTxControl 0x03 else pure ()

/-- `mfrc_tx_disable`. -/
def txDisable : Io Unit := clearBitMask regTxControl 0x03

/-- `mfrc_reset`. -/
def reset : Io Unit := writeReg regCommand pcdResetPhase

/-! ## Commands to the card -/

/-- The loop that fills the FIFO. -/
def sendFifo : List UInt8 → Io Unit
  | [] => pure ()
  | byte :: bytes => do
    writeReg regFifoData byte
    sendFifo bytes

/-- A polling loop: until the register has one of the bits, or the count is at zero. The
count is the one after the decrement; the last value read is returned with it. -/
def waitBits (reg bits : UInt8) : Nat → Io (UInt8 × Nat)
  | 0 => do
    let n ← readReg reg
    pure (n, 0)
  | i + 1 => do
    let n ← readReg reg
    if n &&& bits = 0 then waitBits reg bits i else pure (n, i + 1)

/-- The loop that takes `left` bytes from the FIFO, the next one to index `i`. -/
def readFifo {k : Nat} : Nat → Nat → Vector UInt8 k → Io (Vector UInt8 k)
  | 0, _, backData => pure backData
  | left + 1, i, backData => do
    let val ← readReg regFifoData
    if h : i < k then readFifo left (i + 1) (backData.set i val h) else .fault

/-- The start of a transmission. -/
def startSend (command : UInt8) : Io Unit :=
  if command = pcdTransceive then setBitMask regBitFraming 0x80 else pure ()

/-- The part of `mfrc_to_card` up to the write of the command. -/
def fillFifo (irqEn : UInt8) (sendData : List UInt8) : Io Unit := do
  writeReg regCommIEn (irqEn ||| 0x80)
  clearBitMask regCommIrq 0x80
  setBitMask regFifoLevel 0x80
  writeReg regCommand pcdIdle
  sendFifo sendData

/-- The reply of a transmission: its bits, and its bytes in the buffer. -/
def takeReply {k : Nat} (status : Status) (backData : Vector UInt8 k) :
    Io (Status × Option UInt16 × Vector UInt8 k) := do
  let n ← readReg regFifoLevel
  let control ← readReg regControl
  let lastBits := control &&& 0x07
  let backLen :=
    if lastBits ≠ 0 then (n.toUInt16 - 1) * 8 + lastBits.toUInt16 else n.toUInt16 * 8
  let n := if n = 0 then 1 else n
  let n := if n > 16 then 16 else n
  let backData ← readFifo n.toNat 0 backData
  pure (status, some backLen, backData)

/-- The part of `mfrc_to_card` behind the write of the command; `*backLen` is written only
where a reply is taken. -/
def finish {k : Nat} (command irqEn waitIrq : UInt8) (backData : Vector UInt8 k) :
    Io (Status × Option UInt16 × Vector UInt8 k) := do
  startSend command
  let (n, i) ← waitBits regCommIrq (0x01 ||| waitIrq) 1999
  clearBitMask regBitFraming 0x80
  if i = 0 then pure (.err, none, backData)
  else do
    let error ← readReg regError
    if error &&& 0x1B ≠ 0 then pure (.err, none, backData)
    else
      let status := if n &&& irqEn &&& 0x01 ≠ 0 then .noTagErr else .ok
      if command = pcdTransceive then takeReply status backData
      else pure (status, none, backData)

/-- `mfrc_to_card`, behind its switch. -/
def exchange {k : Nat} (command irqEn waitIrq : UInt8) (sendData : List UInt8)
    (backData : Vector UInt8 k) : Io (Status × Option UInt16 × Vector UInt8 k) := do
  fillFifo irqEn sendData
  writeReg regCommand command
  finish command irqEn waitIrq backData

/-- `mfrc_to_card`. -/
def toCard {k : Nat} (command : UInt8) (sendData : List UInt8) (backData : Vector UInt8 k) :
    Io (Status × Option UInt16 × Vector UInt8 k) :=
  if command = pcdAuthent then exchange command 0x12 0x10 sendData backData
  else if command = pcdTransceive then exchange command 0x77 0x30 sendData backData
  else pure (.wrongParam, none, backData)

/-- `mfrc_request`. -/
def request (reqMode : UInt8) (tag : Vector UInt8 16) : Io (Status × Vector UInt8 16) := do
  writeReg regBitFraming 0x07
  let (status, backbits, tag) ← toCard pcdTransceive [reqMode] (tag.set 0 reqMode)
  pure (if status ≠ .ok ∨ backbits ≠ some 0x10 then .err else status, tag)

/-- `mfrc_anti_collision`. -/
def antiCollision (sn : Vector UInt8 16) : Io (Status × Vector UInt8 16) := do
  writeReg regBitFraming 0x00
  let (status, _, sn) ← toCard pcdTransceive [piccAnticoll, 0x20]
    ((sn.set 0 piccAnticoll).set 1 0x20)
  let snCheck := sn[0] ^^^ sn[1] ^^^ sn[2] ^^^ sn[3]
  pure (if status = .ok ∧ snCheck ≠ sn[4] then .err else status, sn)

/-- `mfrc_calc_crc`. -/
def calcCrc (inData : List UInt8) : Io (UInt8 × UInt8) := do
  clearBitMask regDivIrq 0x04
  setBitMask regFifoLevel 0x80
  sendFifo inData
  writeReg regCommand pcdCalcCrc
  let _ ← waitBits regDivIrq 0x04 254
  let low ← readReg regCrcResultL
  let high ← readReg regCrcResultM
  pure (low, high)

/-- `mfrc_select_tag`: the type of the card. -/
def selectTag (sn : Vector UInt8 16) : Io UInt8 := do
  let buf := [piccSelectTag, 0x70, sn[0], sn[1], sn[2], sn[3], sn[4]]
  let (low, high) ← calcCrc buf
  let (status, recvBits, buf) ← toCard pcdTransceive (buf ++ [low, high])
    #v[piccSelectTag, 0x70, sn[0], sn[1], sn[2], sn[3], sn[4], low, high]
  pure (if status = .ok ∧ recvBits = some 0x18 then buf[0] else mifareErr)

/-- `mfrc_auth`. -/
def auth (authMode block : UInt8) (sector : Vector UInt8 6) (sn : Vector UInt8 16) :
    Io Status := do
  let buf := #v[authMode, block, sector[0], sector[1], sector[2], sector[3], sector[4],
    sector[5], sn[0], sn[1], sn[2], sn[3]]
  let (status, _, _) ← toCard pcdAuthent buf.toList buf
  if status ≠ .ok then pure .err
  else do
    let status2 ← readReg regStatus2
    pure (if status2 &&& 0x08 = 0 then .err else status)

/-- `mfrc_read`. -/
def read (block : UInt8) (data : Vector UInt8 16) : Io (Status × Vector UInt8 16) := do
  let data := (data.set 0 piccRead).set 1 block
  let (low, high) ← calcCrc [piccRead, block]
  let (status, unLen, data) ← toCard pcdTransceive [piccRead, block, low, high]
    ((data.set 2 low).set 3 high)
  pure (if status ≠ .ok ∨ unLen ≠ some 0x90 then .err else status, data)

/-- The test of `mfrc_write` for an acknowledgement. -/
def acknowledged (status : Status) (recvBits : Option UInt16) (first : UInt8) : Prop :=
  status = .ok ∧ recvBits = some 4 ∧ first &&& 0x0F = 0x0A

instance (status : Status) (recvBits : Option UInt16) (first : UInt8) :
    Decidable (acknowledged status recvBits first) :=
  inferInstanceAs (Decidable (_ ∧ _ ∧ _))

/-- `mfrc_write`. -/
def write (block : UInt8) (data : Vector UInt8 16) : Io Status := do
  let (low, high) ← calcCrc [piccWrite, block]
  let (status, recvBits, buf) ← toCard pcdTransceive [piccWrite, block, low, high]
    (#v[piccWrite, block, low, high] ++ Vector.replicate 14 (0 : UInt8))
  if ¬acknowledged status recvBits buf[0] then pure .err
  else do
    let (low, high) ← calcCrc data.toList
    let (status, recvBits, buf) ← toCard pcdTransceive (data.toList ++ [low, high])
      (data ++ #v[low, high])
    pure (if ¬acknowledged status recvBits buf[0] then .err else status)

/-- `mfrc_restart`; `rxGain` is that of the driver. -/
def restart (rxGain : UInt8) : Io Unit := do
  reset
  writeReg regTMode 0x8D
  writeReg regTPrescaler 0x3E
  writeReg regTReloadL 30
  writeReg regTReloadH 0
  writeReg regRfCfg rxGain
  writeReg regTxAuto 0x40
  writeReg regMode 0x3D
  txDisable

/-- What the caller of `mfrc_operate` and its stack supply: the sector, the task, the key
generator and the handler, both of which may write to both their arrays, and the arrays
`pass` and `data` before they are written. -/
structure Call where
  sector : UInt8
  task : Op
  keygen : Vector UInt8 16 → Vector UInt8 6 → Vector UInt8 16 × Vector UInt8 6
  handler : Vector UInt8 16 → Vector UInt8 16 → Vector UInt8 16 × Vector UInt8 16
  pass : Vector UInt8 6
  data : Vector UInt8 16

/-- The end of the transaction: the handler and the write. -/
def handle (c : Call) (serial data : Vector UInt8 16) : Io Status := do
  let (_, data) := c.handler serial data
  if c.task = .cardRead then pure .ok
  else do
    let status ← write c.sector data
    pure (if status ≠ .ok then .writeError else .ok)

/-- The body of `mfrc_operate` up to its label. -/
def transaction (c : Call) : Io Status := do
  let (status, serial) ← request piccReqIdl (Vector.replicate 16 0)
  if status ≠ .ok then pure .noCard
  else do
    let (status, serial) ← antiCollision serial
    if status ≠ .ok then pure .collision
    else do
      let card ← selectTag serial
      if card ≠ mifare1k then pure .wrongCard
      else do
        let (serial, pass) := c.keygen serial c.pass
        let status ← auth piccAuthent1A c.sector pass serial
        if status ≠ .ok then pure .authError
        else if c.task ≠ .cardWrite then do
          let (status, data) ← read c.sector c.data
          if status ≠ .ok then pure .readError else handle c serial data
        else handle c serial c.data

/-- `mfrc_operate`. -/
def operate (rxGain : UInt8) (c : Call) : Io Status :=
  if c.sector ≥ maxSectors then pure .wrongParam
  else do
    txEnable
    let res ← transaction c
    restart rxGain
    pure res

/-- `mfrc_sleep`. -/
def sleep : Io Unit := do
  let (low, high) ← calcCrc [piccHalt, 0]
  let _ ← toCard pcdTransceive [piccHalt, 0, low, high] #v[piccHalt, 0, low, high]
  pure ()

end MyLibraries.Mfrc522
