import MyLibraries.Core.Memory
import MyLibraries.Mfrc522.Model

/-!
# Stored values: `MFRC522_Operate32`

The older driver, `MFRC522.c`, talks to the chip as the other one does, so the programs of
that are used here where the code is the same. `MFRC522_Operate32` reads a block, decodes
the value in it, lets a handler change that and writes it back. What it keeps from call to
call is in static variables: the buffer of the block, the value, two bytes of the answer to
a request, and the status of `MFRC522_DecodeData`, which nothing sets back. The array for
the serial number has room for any reply.
-/

namespace MyLibraries.Mfrc522

open Device Memory

/-! ## The format of a value -/

/-- The bytes of the `union` with a word in it. -/
def v8 (v32 : UInt32) : Vector UInt8 4 :=
  #v[v32.toUInt8, (v32 >>> 8).toUInt8, (v32 >>> 16).toUInt8, (v32 >>> 24).toUInt8]

/-- The word of the `union` with these bytes in it. -/
def v32 (v8 : Vector UInt8 4) : UInt32 := UInt32.ofNat (ofLe v8.toList)

/-- `MFRC522_EncodeData`. -/
def encodeData {m : Nat} (value : UInt32) (data : Vector UInt8 (12 + m)) :
    Vector UInt8 (12 + m) :=
  let b0 := value.toUInt8
  let b1 := (value >>> 8).toUInt8
  let b2 := (value >>> 16).toUInt8
  let b3 := (value >>> 24).toUInt8
  let data := (((data.set 0 b0).set 1 b1).set 2 b2).set 3 b3
  let data := (((data.set 4 (~~~b0)).set 5 (~~~b1)).set 6 (~~~b2)).set 7 (~~~b3)
  (((data.set 8 b0).set 9 b1).set 10 b2).set 11 b3

/-- `MFRC522_DecodeData`; `res` is its static variable, which is also what it returns. -/
def decodeData {m : Nat} (res : Status) (data : Vector UInt8 (12 + m)) : Status × UInt32 :=
  let res :=
    if (List.finRange 4).any fun cnt => data[cnt.val] != data[cnt.val + 8] then .wrongData
    else res
  (res, v32 #v[data[0], data[1], data[2], data[3]])

/-! ## The call -/

/-- The static variables: that of `MFRC522_DecodeData`, and those of `MFRC522_Operate32`. -/
structure Statics where
  decoded : Status
  data : Vector UInt8 16
  value : UInt32
  uid : Vector UInt8 2
  deriving DecidableEq, Repr

/-- The static variables at the start of the program. -/
def Statics.start : Statics := ⟨.ok, Vector.replicate 16 0, 0, Vector.replicate 2 0⟩

/-- What the caller of `MFRC522_Operate32` supplies; both functions may write to both their
arguments. -/
structure Call32 where
  sn : Vector UInt8 16
  sector : UInt8
  key : Vector UInt8 6
  keyGenFunc : Vector UInt8 16 → Vector UInt8 6 → Vector UInt8 16 × Vector UInt8 6
  evenHandler : Vector UInt8 16 → UInt32 → Vector UInt8 16 × UInt32
  task : Op

/-- `MFRC522_Init`. -/
def init (rxGain : UInt8) : Io Unit := restart rxGain

/-- `MFRC522_Request`, into an array of at least one byte. -/
def requestUid {k : Nat} (reqMode : UInt8) (tagType : Vector UInt8 (k + 1)) :
    Io (Status × Vector UInt8 (k + 1)) := do
  writeReg regBitFraming 0x07
  let (status, backBits, tagType) ← toCard pcdTransceive [reqMode] (tagType.set 0 reqMode)
  pure (if status ≠ .ok ∨ backBits ≠ some 0x10 then .err else status, tagType)

/-- How far a call gets before the handler: it returns, or it has the serial number and, but
for `CARD_WRITE`, the block. -/
inductive Acquired
  | stopped (res : Status)
  | ready (sn : Vector UInt8 16) (data : Option (Vector UInt8 16))

/-- `MFRC522_Init` and a return. -/
def leave {α : Type} (rxGain : UInt8) (res : α) (s : Statics) : Io (α × Statics) := do
  init rxGain
  pure (res, s)

/-- `MFRC522_Operate32` up to the check of the data. -/
def acquire (rxGain : UInt8) (c : Call32) (s : Statics) : Io (Acquired × Statics) :=
  if c.sector > 39 then pure (.stopped .wrongParam, s)
  else do
    let (status, uid) ← requestUid (k := 1) piccReqIdl s.uid
    let s := { s with uid := uid }
    if status ≠ .ok then pure (.stopped .noCard, s)
    else do
      let (status, sn) ← antiCollision c.sn
      if status ≠ .ok then pure (.stopped .collision, s)
      else do
        let card ← selectTag sn
        if card ≠ mifare1k then leave rxGain (.stopped .wrongCard) s
        else do
          let (sn, key) := c.keyGenFunc sn c.key
          let status ← auth piccAuthent1A c.sector key sn
          if status ≠ .ok then leave rxGain (.stopped .authError) s
          else if c.task ≠ .cardWrite then do
            let (status, data) ← read c.sector s.data
            let s := { s with data := data }
            if status ≠ .ok then leave rxGain (.stopped .readError) s
            else pure (.ready sn (some data), s)
          else pure (.ready sn none, s)

/-- `MFRC522_Operate32` from the handler on. -/
def conclude (rxGain : UInt8) (c : Call32) (sn : Vector UInt8 16) (res : Status) (s : Statics) :
    Io (Status × Statics) :=
  let (_, value) := c.evenHandler sn s.value
  let s := { s with value := value }
  if c.task = .cardRead then leave rxGain res s
  else if res ≠ .ok ∧ c.task ≠ .cardRWAnyway then leave rxGain .wrongData s
  else do
    let s := { s with data := encodeData (m := 4) s.value s.data }
    let status ← write c.sector s.data
    leave rxGain (if status ≠ .ok then .writeError else res) s

/-- `MFRC522_Operate32`. -/
def operate32 (rxGain : UInt8) (c : Call32) (s : Statics) : Io (Status × Statics) := do
  let (acquired, s) ← acquire rxGain c s
  match acquired with
  | .stopped res => pure (res, s)
  | .ready sn none => conclude rxGain c sn .ok s
  | .ready sn (some data) =>
    let (res, value) := decodeData (m := 4) s.decoded data
    conclude rxGain c sn res { s with decoded := res, value := value }

end MyLibraries.Mfrc522
