import MyLibraries.Core.Memory
import MyLibraries.Plbus.Crc

/-!
# The serial bus `plbus`

A bus is a receive buffer, in which frames are also built for sending, and the state of
the receiver. A frame is a header of 8 bytes and its payload: the token, the address of
the destination, the checksum, the payload size and the error reply; `none` is an access
outside of the buffer. Words are little endian.
-/

namespace MyLibraries.Plbus

open Memory

/-- `PLBUS_TOKEN`. -/
def token : UInt8 := 0xA5

/-- `PLBUS_BROADCAST`. -/
def broadcast : UInt8 := 0x00

/-- `PLBUS_CRC_ERROR`. -/
def crcError : UInt16 := 2

/-- `plbus_t`; `rx_buffer_size` is the length of the buffer. -/
structure Bus where
  ownAddress : UInt16
  rxBuffer : Mem
  rxCnt : UInt16
  inSync : Bool
  crcErr : UInt16
  size_lt : rxBuffer.length < 2 ^ 16

/-- `plbus_cb_t`: it gets the bytes, may change them in place, and returns a word. -/
abbrev Callback :=
  (data : List UInt8) → UInt16 × { data' : List UInt8 // data'.length = data.length }

/-- What a call returns, and the data and sizes it called its callback with. -/
structure Reply where
  ret : UInt16
  calls : List (List UInt8 × Nat)
  deriving DecidableEq, Repr

/-- Write into `rx_buffer`. -/
def Bus.write (bus : Bus) (p : Nat) (bs : List UInt8) : Option Bus :=
  match h : store bus.rxBuffer p bs with
  | none => none
  | some m => some { bus with rxBuffer := m, size_lt := (store_length h).symm ▸ bus.size_lt }

/-- `PLBUS_INIT`. -/
def plbusInit (address : UInt16) (rxDst : Mem) (h : rxDst.length < 2 ^ 16) : Bus :=
  { ownAddress := address, rxBuffer := rxDst, rxCnt := 0, inSync := false, crcErr := 0,
    size_lt := h }

/-- `plbus_init`. -/
def init (bus : Bus) : Bus :=
  { bus with rxCnt := 0, inSync := false, crcErr := 0 }

/-- `plbus_put`. -/
def put (bus : Bus) (byte : UInt8) : Bus :=
  if !bus.inSync then
    if byte = token then { bus with inSync := true, rxCnt := 1 } else bus
  else if bus.rxCnt.toNat < bus.rxBuffer.length then
    { bus with
      rxBuffer := bus.rxBuffer.set bus.rxCnt.toNat byte
      rxCnt := bus.rxCnt + 1
      size_lt := (List.length_set).symm ▸ bus.size_lt }
  else { bus with rxCnt := bus.rxCnt + 1 }

/-- `plbus_poll`. The checksum is taken from the payload on, over its size and the sizes
of the token, the address and the checksum. -/
def poll (bus : Bus) (onReceive : Option Callback) : Option (Reply × Bus) :=
  if !bus.inSync then some (⟨0, []⟩, bus)
  else do
    let size ← loadWord bus.rxBuffer 4 2
    if size + 8 ≠ bus.rxCnt.toNat then some (⟨0, []⟩, bus)
    else
      let address ← loadWord bus.rxBuffer 1 1
      if address ≠ broadcast.toNat ∧ address ≠ bus.ownAddress.toNat then some (⟨0, []⟩, bus)
      else
        let covered ← load bus.rxBuffer 8 (wrap 16 (size + 1 + 1 + 2))
        let crc ← loadWord bus.rxBuffer 2 2
        if (crc16 covered).toNat ≠ crc then
          some (⟨crcError, []⟩, { bus with crcErr := bus.crcErr + 1 })
        else
          let bus := { bus with inSync := false }
          match onReceive with
          | none => some (⟨0, []⟩, bus)
          | some onReceive =>
            let payload ← load bus.rxBuffer 8 size
            let (error, payload') := onReceive payload
            let bus ← bus.write 8 payload'.val
            let bus ← bus.write 6 (leBytes 2 error.toNat)
            some (⟨0, [(payload, size)]⟩, bus)

/-- `plbus_send`, of the bytes `data`. -/
def send (bus : Bus) (dst : UInt16) (data : List UInt8) (onTransmit : Callback) :
    Option (Reply × Bus) := do
  let bus ← bus.write 0 [token]
  let bus ← bus.write 1 [dst.toUInt8]
  let bus ← bus.write 4 (leBytes 2 data.length)
  let bus ← bus.write 8 data
  let size ← loadWord bus.rxBuffer 4 2
  let covered ← load bus.rxBuffer 8 (wrap 16 (size + 2 + 2))
  let bus ← bus.write 2 (leBytes 2 (crc16 covered).toNat)
  let frame ← load bus.rxBuffer 0 (wrap 16 (8 + data.length))
  let (ret, frame') := onTransmit frame
  let bus ← bus.write 0 frame'.val
  some (⟨ret, [(frame, wrap 16 (8 + data.length))]⟩, bus)

end MyLibraries.Plbus
