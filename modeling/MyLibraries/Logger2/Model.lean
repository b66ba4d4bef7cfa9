import Mathlib.Data.BitVec
import MyLibraries.FileOps.Stream

/-!
# The log server

`LoggerServer` writes the messages of its clients into a file. All messages of a connection
arrive in one buffer, of which `OnReceive` reads the magic number before it asks for the size
of the message, and prints the data as a string. `none` is undefined behaviour: a string in
the buffer that does not end in it. The time, which goes in front of a record, is what
`get_time` answers for the message; the machine is little endian.
-/

namespace MyLibraries.Logger2

open FileOps

/-- `MAX_MESSAGE_SIZE`. -/
def maxMessageSize : Nat := 1500

/-- The receive buffer, of `MAX_MESSAGE_SIZE` bytes. -/
abbrev Buffer := Nat → UInt8

/-- `Network::ServerBase::Protocol`. -/
inductive Protocol
  | udp
  | tcp
  deriving DecidableEq, Repr

/-- A message, with the time of its arrival. -/
structure Message where
  payload : List UInt8
  timestamp : List UInt8
  payload_le : payload.length ≤ maxMessageSize

/-- The server, with the log file that it has opened and the buffer of the connection. -/
structure LoggerServer where
  protocol : Protocol
  magicNumber : BitVec 32
  replyMessage : Option (List UInt8)
  log : Descriptor
  buffer : Buffer

/-- `log_file`, which is open for writing only. -/
def LoggerServer.logFile (s : LoggerServer) : File := ⟨.writeOnly, s.log⟩

/-- `LoggerServer`, for a file with the bytes `content`, and a buffer that is not set. -/
def construct (protocol : Protocol) (magicNumber : BitVec 32) (replyMessage : Option (List UInt8))
    (content : List UInt8) (buffer : Buffer) : LoggerServer :=
  { protocol, magicNumber, replyMessage, log := ⟨content, 0⟩, buffer }

/-- `read` or `recvfrom` into the buffer. -/
def receive (buffer : Buffer) (payload : List UInt8) : Buffer :=
  fun i => payload.getD i (buffer i)

/-- `received_msg->magic`. -/
def magicOf (buffer : Buffer) : BitVec 32 :=
  (buffer 3).toBitVec ++ (buffer 2).toBitVec ++ (buffer 1).toBitVec ++ (buffer 0).toBitVec

/-- No byte of `received_msg->data` ends a string. -/
def Endless (buffer : Buffer) : Prop :=
  ∀ i ∈ List.range (maxMessageSize - 4), buffer (4 + i) ≠ 0
  deriving Decidable

/-- Calls of `File::Write` one after the other, until one of them throws. -/
def writes (f : File) : List (List UInt8) → Except Error Unit × File
  | [] => (.ok (), f)
  | data :: parts =>
    match f.write data with
    | (.error e, f) => (.error e, f)
    | (.ok (), f) => writes f parts

/-- `": "`. -/
def separator : List UInt8 := [58, 32]

/-- `"\r\n"`. -/
def lineBreak : List UInt8 := [cr, lf]

/-- `LoggerServer::OnReceive` for a message of `size` bytes: the reply, and the server. -/
def onReceive (s : LoggerServer) (size : Nat) (timestamp : List UInt8) :
    Option (Except Error (Option (List UInt8)) × LoggerServer) :=
  if magicOf s.buffer ≠ s.magicNumber then some (.ok none, s)
  else if Endless s.buffer then none
  else if size < 4 + 1 then some (.ok none, s)
  else
    let data := (List.range (size - 4)).map fun i => s.buffer (4 + i)
    match writes s.logFile [timestamp, separator, data] with
    | (.error e, f) => some (.error e, { s with log := f.fd })
    | (.ok (), f) =>
      match (if s.buffer (4 + (size - 4 - 1)) = lf then f.write lineBreak else (.ok (), f)) with
      | (.error e, f) => some (.error e, { s with log := f.fd })
      | (.ok (), f) =>
        some (.ok (if s.protocol = .tcp then s.replyMessage else none), { s with log := f.fd })

/-- A message arrives in the buffer and is handed over. -/
def step (s : LoggerServer) (m : Message) :
    Option (Except Error (Option (List UInt8)) × LoggerServer) :=
  onReceive { s with buffer := receive s.buffer m.payload } m.payload.length m.timestamp

end MyLibraries.Logger2
