import Mathlib.Data.List.Basic

/-!
# The 1-Wire ROM search

`DS18B20_Multi::SearchSensors` over an arbitrary implementation of the interface
`OneWire_InterfaceBase`, whose state has type `β`. `unsigned long` has `w` bits, and the
rows of `serial_number_` are a vector, so a row outside of it is `none`; so is a search
that takes more passes than its fuel, and the dereference of a null `devices_found`.
-/

namespace MyLibraries.OneWire

/-- `OneWire_InterfaceBase::Result`. -/
inductive Result
  | success
  | noDevice
  | crcMissmatch
  | notReady
  | notAllDevicesFound
  deriving DecidableEq, Repr

/-- `OneWire_InterfaceBase`. -/
structure Interface (β : Type) where
  reset : β → Result × β
  write : UInt8 → β → β
  writeBit : UInt8 → β → β
  readBit : β → UInt8 × β

/-- A row of `serial_number_`: the 64 bits of a ROM code. -/
abbrev Rom := Vector UInt8 8

/-- `SEARCH_ROM`. -/
def searchRom : UInt8 := 0xF0

variable {β : Type} {w : Nat}

/-- The variables of a pass, and the row it fills. -/
structure Pass (β : Type) (w : Nat) where
  bus : β
  next : BitVec w
  pos : BitVec w
  row : Rom

/-- The bit to go on with after a pair of reads, and `next` and `pos`. -/
def decideBit (path next pos : BitVec w) (bit chk : UInt8) : UInt8 × BitVec w × BitVec w :=
  if bit = 0 ∧ chk = 0 then
    -- collision, both are zero: the path decides if it has been here before
    if pos &&& path ≠ 0 then (1, next, pos <<< 1)
    else (bit, (path &&& (pos - 1)) ||| pos, pos <<< 1)
  else (bit, next, pos)

/-- The inner loop body: one bit of the ROM value. -/
def bitStep (interface : Interface β) (path : BitVec w) (cntByte : Fin 8) (p : Pass β w)
    (cntBit : Fin 8) : Pass β w :=
  let (bit, bus) := interface.readBit p.bus
  let (chk, bus) := interface.readBit bus
  let (bit, next, pos) := decideBit path p.next p.pos bit chk
  let bus := interface.writeBit bit bus
  let row :=
    if bit ≠ 0 then p.row.set cntByte (p.row[cntByte] ||| (1 <<< UInt8.ofNat cntBit)) else p.row
  { bus, next, pos, row }

/-- The outer loop body: one byte of the ROM value. -/
def byteStep (interface : Interface β) (path : BitVec w) (p : Pass β w) (cntByte : Fin 8) :
    Pass β w :=
  Fin.foldl 8 (bitStep interface path cntByte) { p with row := p.row.set cntByte 0 }

/-- One ROM search pass after the reset. -/
def pass (interface : Interface β) (path : BitVec w) (row : Rom) (bus : β) : Pass β w :=
  Fin.foldl 8 (byteStep interface path)
    { bus := interface.write searchRom bus, next := 0, pos := 1, row }

/-- What a search leaves behind: the early result of a failed reset, the rows, their
number and the bus. -/
structure Found (β : Type) (maxDevices : Nat) where
  early : Option Result
  serialNumber : Vector Rom maxDevices
  cntNum : UInt8
  bus : β

/-- The loop over the passes. -/
def searchLoop (interface : Interface β) (maxDevices : Nat) :
    Nat → BitVec w → Vector Rom maxDevices → UInt8 → β → Option (Found β maxDevices)
  | 0, _, _, _, _ => none
  | fuel + 1, path, serialNumber, cntNum, bus =>
    let (res, bus) := interface.reset bus
    if res ≠ .success then some { early := some res, serialNumber, cntNum, bus }
    else if h : cntNum.toNat < maxDevices then
      let p := pass interface path serialNumber[cntNum.toNat] bus
      let serialNumber := serialNumber.set cntNum.toNat p.row
      let path := p.next
      let cntNum := cntNum + 1
      if cntNum.toNat = maxDevices then some { early := none, serialNumber, cntNum, bus := p.bus }
      else if path ≠ 0 then searchLoop interface maxDevices fuel path serialNumber cntNum p.bus
      else some { early := none, serialNumber, cntNum, bus := p.bus }
    else none

/-- `DS18B20_Multi::SearchSensors`: the result, what `devices_found` points to, the rows
and the bus. -/
def searchSensors (interface : Interface β) (w fuel maxDevices : Nat)
    (serialNumber : Vector Rom maxDevices) (devicesFound : Option UInt8) (bus : β) :
    Option (Result × Option UInt8 × Vector Rom maxDevices × β) := do
  let found ← searchLoop interface maxDevices fuel (0 : BitVec w) serialNumber 0 bus
  match found.early with
  | some res => some (res, devicesFound, found.serialNumber, found.bus)
  | none =>
    let devicesFound := devicesFound.map fun _ => found.cntNum
    let devices ← devicesFound
    some (if devices.toNat = maxDevices then .success else .notAllDevicesFound,
      devicesFound, found.serialNumber, found.bus)

end MyLibraries.OneWire
