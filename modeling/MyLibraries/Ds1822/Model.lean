import Mathlib.Logic.Function.Basic
import MyLibraries.OneWire.Model

/-!
# The ROM search of `DS1822`

`DS1822_Search_Rom` over the functions of `1-Wire.c`, which take the bus as an argument; all
buses together are a state of type `β`. The two inner loops are those of `SearchSensors`.
`cnt_num` is static: it is 0 when the program starts, and a call leaves it to the next one.
A search that takes more passes than its fuel is `none`.
-/

namespace MyLibraries.Ds1822

open OneWire

/-- `One_Wire_ErrorTypeDef`. -/
inductive Error
  | success
  | errorNoEcho
  | busLowError
  | deviceBusy
  | crcError
  deriving DecidableEq, Repr

/-- `DS1822_ResolutionTypeDef`. -/
inductive Resolution
  | res9bit
  | res10bit
  | res11bit
  | res12bit
  deriving DecidableEq, Repr

/-- `DefaultResolution`. -/
def defaultResolution : Resolution := .res12bit

/-- The functions of `1-Wire.c`; a bus has the type `ι`. -/
structure Wires (ι β : Type) where
  reset : ι → β → Error × β
  writeByte : ι → UInt8 → β → β
  writeBit : ι → UInt8 → β → β
  readBit : ι → β → UInt8 × β

/-- An element of the array of sensors. -/
structure Sensor (ι : Type) where
  oneWireBus : ι
  sn : Rom
  resolution : Resolution

variable {ι β : Type} {w : Nat}

/-- One bus, as the search sees it between two resets. -/
def Wires.line (wires : Wires ι β) (bus : ι) : Interface β where
  reset s := (if (wires.reset bus s).1 = .success then .success else .noDevice,
    (wires.reset bus s).2)
  write := wires.writeByte bus
  writeBit := wires.writeBit bus
  readBit := wires.readBit bus

/-- What a call leaves behind. -/
structure Outcome (ι β : Type) where
  error : Error
  sensors : Nat → Sensor ι
  devicesFound : UInt8
  cntNum : UInt8
  state : β

/-- The loop over the passes. -/
def searchLoop (wires : Wires ι β) (bus : ι) :
    Nat → BitVec w → (Nat → Sensor ι) → UInt8 → β →
      Option (Error × (Nat → Sensor ι) × UInt8 × β)
  | 0, _, _, _, _ => none
  | fuel + 1, path, sensors, cntNum, s =>
    let sensor :=
      { sensors cntNum.toNat with oneWireBus := bus, resolution := defaultResolution }
    let (error, s) := wires.reset bus s
    if error ≠ .success then
      some (error, Function.update sensors cntNum.toNat sensor, cntNum, s)
    else
      let p := pass (wires.line bus) path sensor.sn s
      let sensors := Function.update sensors cntNum.toNat { sensor with sn := p.row }
      let path := p.next
      let cntNum := cntNum + 1
      if path ≠ 0 then searchLoop wires bus fuel path sensors cntNum p.bus
      else some (.success, sensors, cntNum, p.bus)

/-- `DS1822_Search_Rom`, with the static `cnt_num` as an argument. -/
def searchRom (wires : Wires ι β) (w fuel : Nat) (sensors : Nat → Sensor ι) (bus : ι)
    (devicesFound cntNum : UInt8) (s : β) : Option (Outcome ι β) := do
  let (error, sensors, cntNum, s) ←
    searchLoop wires bus fuel (0 : BitVec w) sensors cntNum s
  let devicesFound := if error = .success then cntNum else devicesFound
  some { error, sensors, devicesFound, cntNum, state := s }

/-- `cnt_num` and the buses after any earlier calls, on any buses, that have returned. What
else happens on the buses does not touch `cnt_num`. -/
inductive Earlier (wires : Wires ι β) (w : Nat) : UInt8 → β → Prop
  | start (s : β) : Earlier wires w 0 s
  | call {cntNum devicesFound : UInt8} {s : β} {fuel : Nat} {sensors : Nat → Sensor ι} {bus : ι}
      {out : Outcome ι β} : Earlier wires w cntNum s →
      searchRom wires w fuel sensors bus devicesFound cntNum s = some out →
      Earlier wires w out.cntNum out.state
  | other {cntNum : UInt8} {s : β} (s' : β) : Earlier wires w cntNum s → Earlier wires w cntNum s'

end MyLibraries.Ds1822
