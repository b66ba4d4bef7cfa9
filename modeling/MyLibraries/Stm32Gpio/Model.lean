import Mathlib.Data.BitVec
import Mathlib.Logic.Function.Basic

/-!
# The pins of an STM32F10x

The class `GPIO_Device` computes at its construction what `Init` is to clear and to set in
the two configuration registers of its port; `Set` and `Get` go by the registers `BSRR`,
`BRR` and `IDR`. `GPIO_Port` takes a port as a whole. The ports are those of the medium
density line. A port whose clock is off takes no writes and reads as zero, and only `Init`
turns a clock on; a port that the chip does not have is a null pointer, and a pin above 15
a shift by more than a word.
-/

namespace MyLibraries.Stm32Gpio

/-! ## The chip -/

/-- The registers of a port that the classes use. -/
structure Port where
  crl : BitVec 32
  crh : BitVec 32
  odr : BitVec 32
  deriving DecidableEq, Repr

/-- `RCC->APB2ENR` and the ports. -/
structure Chip where
  apb2enr : BitVec 32
  port : Fin 5 → Port

/-- What is connected to the pins: what drives them, and what they show when nothing does. -/
structure World where
  drives : Fin 5 → Fin 16 → Option Bool
  floats : Fin 5 → Fin 16 → Bool

/-- What a pin does. -/
inductive Drive
  | pushPull (high : Bool)
  | openDrain (high : Bool)
  | pulled (high : Bool)
  | floating
  /-- Analog inputs and alternate functions, which the classes do not use. -/
  | other
  deriving DecidableEq, Repr

/-- After a reset. -/
def Chip.reset : Chip := ⟨0#32, fun _ => ⟨0x44444444#32, 0x44444444#32, 0#32⟩⟩

/-- The bits `CNF` and `MODE` of a pin. -/
def Port.field (p : Port) (i : Fin 16) : BitVec 4 :=
  if i.val < 8 then p.crl.extractLsb' (4 * i) 4 else p.crh.extractLsb' (4 * (i - 8)) 4

def Port.drive (p : Port) (i : Fin 16) : Drive :=
  let mode := (p.field i).extractLsb' 0 2
  let cnf := (p.field i).extractLsb' 2 2
  let high := p.odr.getLsbD i
  if mode = 0 then if cnf = 1 then .floating else if cnf = 2 then .pulled high else .other
  else if cnf = 0 then .pushPull high else if cnf = 1 then .openDrain high else .other

/-- The level of a pin. -/
def Drive.level (outside : Option Bool) (floats : Bool) : Drive → Bool
  | .pushPull high => high
  | .openDrain high => high && outside.getD floats
  | .pulled high => outside.getD high
  | .floating => outside.getD floats
  | .other => outside.getD floats

def Chip.clocked (c : Chip) (n : Fin 5) : Bool := c.apb2enr.getLsbD (n + 2)

def Chip.drive (c : Chip) (n : Fin 5) (i : Fin 16) : Drive := (c.port n).drive i

/-- A write to a register of a port. -/
def Chip.write (c : Chip) (n : Fin 5) (f : Port → Port) : Chip :=
  if c.clocked n then { c with port := Function.update c.port n (f (c.port n)) } else c

/-- A write to `BSRR`: the lower half sets, the upper one clears. -/
def Port.bsrr (v : BitVec 32) (p : Port) : Port :=
  { p with odr := p.odr &&& ~~~(v >>> 16) ||| v &&& 0xFFFF#32 }

/-- A write to `BRR`. -/
def Port.brr (v : BitVec 32) (p : Port) : Port := { p with odr := p.odr &&& ~~~(v &&& 0xFFFF#32) }

/-- The word of these levels. -/
def wordOf (levels : Fin 16 → Bool) : BitVec 32 :=
  (BitVec.ofBoolListLE (List.ofFn levels)).setWidth 32

/-- A read of `IDR`. -/
def Chip.idr (c : Chip) (world : World) (n : Fin 5) : BitVec 32 :=
  if c.clocked n then
    wordOf fun i => (c.drive n i).level (world.drives n i) (world.floats n i)
  else 0

/-! ## The classes -/

/-- `GPIO_PinBase::Direction`. -/
inductive Direction
  | input
  | output
  | openDrain
  | pullUp
  | pullDown
  deriving DecidableEq, Repr

/-- `getGPIOPort`. -/
def getGPIOPort (port : UInt16) : Option (Fin 5) :=
  let gpios : List (Fin 5) := [0, 1, 2, 3, 4]
  gpios[port.toNat]?

/-- `rcc_enable`. -/
def rccEnable (port : UInt16) : BitVec 32 :=
  let rccMasks : List (BitVec 32) := [0x04#32, 0x08#32, 0x10#32, 0x20#32, 0x40#32]
  if port.toNat ≥ rccMasks.length then 0 else rccMasks.getD port.toNat 0

/-- `GPIO_Config`. -/
structure GpioConfig where
  gpio : Option (Fin 5)
  direction : Direction
  rccMask : BitVec 32
  crlSet : BitVec 32
  crlClear : BitVec 32
  crhSet : BitVec 32
  crhClear : BitVec 32

/-- `GPIO_Device`. -/
structure GpioDevice where
  port : UInt16
  pin : UInt16
  config : GpioConfig

/-- `mode` and `cnf` of the constructor. -/
def Direction.modeCnf : Direction → BitVec 32 × BitVec 32
  | .input => (0, 2)
  | .output => (3, 0)
  | .openDrain => (3, 1)
  | .pullUp => (0, 2)
  | .pullDown => (0, 2)

def Direction.cr (dir : Direction) : BitVec 32 := dir.modeCnf.2 <<< 2 ||| dir.modeCnf.1

/-- The constructor of `GPIO_Config`. -/
def GpioConfig.new (port pin : UInt16) (dir : Direction) : Option GpioConfig :=
  let cr := dir.cr
  let pinShift := pin.toNat * 4
  if pinShift < 32 then
    some ⟨getGPIOPort port, dir, rccEnable port, cr <<< pinShift, 0xF#32 <<< pinShift, 0, 0⟩
  else
    let pinShift := pinShift - 32
    if pinShift < 32 then
      some ⟨getGPIOPort port, dir, rccEnable port, 0, 0, cr <<< pinShift, 0xF#32 <<< pinShift⟩
    else none

/-- The constructor of `GPIO_Device`. -/
def GpioDevice.new (port pin : UInt16) (dir : Direction) : Option GpioDevice := do
  some ⟨port, pin, ← GpioConfig.new port pin dir⟩

/-- `BIT`. -/
def bit (x : UInt16) : BitVec 32 := 1#32 <<< x.toNat

/-- `GPIO_Device::Set`. -/
def GpioDevice.set (d : GpioDevice) (state : Bool) (c : Chip) : Option Chip := do
  let gpio ← getGPIOPort d.port
  if state then some (c.write gpio (.bsrr (bit d.pin)))
  else some (c.write gpio (.brr (bit d.pin)))

/-- `GPIO_Device::Init`. -/
def GpioDevice.init (d : GpioDevice) (c : Chip) : Option Chip := do
  let c := { c with apb2enr := c.apb2enr ||| d.config.rccMask }
  let gpio ← d.config.gpio
  let c := c.write gpio fun p => { p with crl := p.crl &&& ~~~d.config.crlClear }
  let c := c.write gpio fun p => { p with crl := p.crl ||| d.config.crlSet }
  let c := c.write gpio fun p => { p with crh := p.crh &&& ~~~d.config.crhClear }
  let c := c.write gpio fun p => { p with crh := p.crh ||| d.config.crhSet }
  match d.config.direction with
  | .pullUp => d.set true c
  | .pullDown => d.set false c
  | _ => some c

/-- `GPIO_Device::Get`. -/
def GpioDevice.get (d : GpioDevice) (world : World) (c : Chip) : Option Bool := do
  let gpio ← getGPIOPort d.port
  some (c.idr world gpio &&& bit d.pin != 0)

/-- `GPIO_Port::Read`. -/
def portRead (port : UInt16) (world : World) (c : Chip) : Option UInt16 := do
  let gpio ← getGPIOPort port
  some (.ofBitVec ((c.idr world gpio).setWidth 16))

/-- `GPIO_Port::Write`. -/
def portWrite (port bitmask : UInt16) (c : Chip) : Option Chip := do
  let gpio ← getGPIOPort port
  some (c.write gpio fun p => { p with odr := bitmask.toBitVec.setWidth 32 })

/-! ## Sessions -/

/-- A call of a method, of an object that is constructed for it. -/
inductive Call
  | init (port pin : UInt16) (dir : Direction)
  | set (port pin : UInt16) (dir : Direction) (state : Bool)
  | get (port pin : UInt16) (dir : Direction) (world : World)
  | read (port : UInt16) (world : World)
  | write (port bitmask : UInt16)

inductive Reply
  | done
  | state (high : Bool)
  | pins (mask : UInt16)
  deriving DecidableEq, Repr

def step (c : Chip) : Call → Option (Reply × Chip)
  | .init port pin dir => do
    let d ← GpioDevice.new port pin dir
    some (.done, ← d.init c)
  | .set port pin dir state => do
    let d ← GpioDevice.new port pin dir
    some (.done, ← d.set state c)
  | .get port pin dir world => do
    let d ← GpioDevice.new port pin dir
    some (.state (← d.get world c), c)
  | .read port world => do some (.pins (← portRead port world c), c)
  | .write port bitmask => do some (.done, ← portWrite port bitmask c)

end MyLibraries.Stm32Gpio
