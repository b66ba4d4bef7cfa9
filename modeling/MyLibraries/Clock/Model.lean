import Mathlib.Algebra.Group.Nat.Defs
import MyLibraries.Core.BitField

/-!
# The clock configuration of the `STM32F10x`

`Clocks` switches the system clock through the two registers `CR` and `CFGR` of the reset
and clock control, and keeps the frequencies that result in static variables;
`Clocks::Update` reads them back from the registers. The hardware is the ideal one: an
oscillator is ready as soon as it is on, and the clock in use is the one asked for. `none`
is a wait for the hardware that does not end.
-/

namespace MyLibraries.Clock

open BitField

/-- `Clocks::ClockSource`. -/
inductive ClockSource
  | noClock
  | hsiClock
  | hseClock
  | hseClockDiv2
  | hseClockDiv128
  | lsiClock
  | lseClock
  | pllClock
  | invClock
  deriving DecidableEq, Repr

/-! ## The registers -/

def crHsion : BitVec 32 := 0x00000001
def crHsirdy : BitVec 32 := 0x00000002
def crHseon : BitVec 32 := 0x00010000
def crHserdy : BitVec 32 := 0x00020000
def crCsson : BitVec 32 := 0x00080000
def crPllon : BitVec 32 := 0x01000000
def crPllrdy : BitVec 32 := 0x02000000

def cfgrSw : BitVec 32 := 0x00000003
def cfgrSwHsi : BitVec 32 := 0x00000000
def cfgrSwHse : BitVec 32 := 0x00000001
def cfgrSwPll : BitVec 32 := 0x00000002
def cfgrSws : BitVec 32 := 0x0000000C
def cfgrSwsHsi : BitVec 32 := 0x00000000
def cfgrSwsHse : BitVec 32 := 0x00000004
def cfgrSwsPll : BitVec 32 := 0x00000008
def cfgrHpre : BitVec 32 := 0x000000F0
def cfgrPpre1 : BitVec 32 := 0x00000700
def cfgrPpre2 : BitVec 32 := 0x00003800
def cfgrPllsrc : BitVec 32 := 0x00010000
def cfgrPllxtpre : BitVec 32 := 0x00020000
def cfgrPllmull : BitVec 32 := 0x003C0000

/-- `HSI_CLOCK_FREQ`. -/
def hsiClockFreq : UInt32 := 8000000

/-- `HSE_DEFAULT_CLOCK_FREQ`. -/
def hseDefaultClockFreq : UInt32 := 8000000

/-- `RCC`. -/
structure Rcc where
  cr : BitVec 32
  cfgr : BitVec 32
  deriving DecidableEq, Repr

/-- A write of `CR`: what is on is ready. -/
def Rcc.writeCr (rcc : Rcc) (v : BitVec 32) : Rcc :=
  { rcc with
    cr := mirror (crHsion ||| crHseon ||| crPllon) (crHsirdy ||| crHserdy ||| crPllrdy) 1 v }

/-- A write of `CFGR`: the clock in use is the one that is selected. -/
def Rcc.writeCfgr (rcc : Rcc) (v : BitVec 32) : Rcc :=
  { rcc with cfgr := mirror cfgrSw cfgrSws 2 v }

/-- The four frequencies, of an object and of the static variables. -/
structure Freqs where
  cpuFreqHz : UInt32
  ahbFreqHz : UInt32
  apb1FreqHz : UInt32
  apb2FreqHz : UInt32
  deriving DecidableEq, Repr

/-- The registers and the static variables. -/
structure State where
  rcc : Rcc
  hseFreq : UInt32
  freqs : Freqs
  currentSource : ClockSource
  deriving DecidableEq, Repr

/-- The static variables before the first call. -/
def start (rcc : Rcc) : State :=
  { rcc
    hseFreq := hseDefaultClockFreq
    freqs := ⟨hsiClockFreq, hsiClockFreq, hsiClockFreq, hsiClockFreq⟩
    currentSource := .hsiClock }

/-! ## Reading the configuration -/

/-- A field of `CFGR`. -/
def Rcc.field (rcc : Rcc) (mask : BitVec 32) (shift : Nat) : Nat :=
  ((rcc.cfgr &&& mask) >>> shift).toNat

/-- `get_ahb_mult`. -/
def getAhbMult (rcc : Rcc) : UInt32 :=
  let mult := rcc.field cfgrHpre 4
  if mult < 8 then 1 else 1 <<< UInt32.ofNat (mult - 7)

/-- `get_apb1_mult`. -/
def getApb1Mult (rcc : Rcc) : UInt32 :=
  let mult := rcc.field cfgrPpre1 8
  if mult < 4 then 1 else 1 <<< UInt32.ofNat (mult - 3)

/-- `get_apb2_mult`. -/
def getApb2Mult (rcc : Rcc) : UInt32 :=
  let mult := rcc.field cfgrPpre2 11
  if mult < 4 then 1 else 1 <<< UInt32.ofNat (mult - 3)

/-- `get_pll_source`. -/
def getPllSource (rcc : Rcc) : ClockSource :=
  if rcc.cfgr &&& cfgrPllsrc ≠ 0 then .hseClock else .hsiClock

/-- `get_pll_mult`. -/
def getPllMult (rcc : Rcc) : UInt8 :=
  let mult := rcc.field cfgrPllmull 18
  if mult ≥ 2 then UInt8.ofNat (mult + 2) else 1

/-- `Clocks::GetClockSource`. -/
def getClockSource (rcc : Rcc) : ClockSource :=
  if rcc.cfgr &&& cfgrSws = cfgrSwsHsi then .hsiClock
  else if rcc.cfgr &&& cfgrSws = cfgrSwsHse then .hseClock
  else if rcc.cfgr &&& cfgrSws = cfgrSwsPll then .pllClock
  else .invClock

/-- The frequencies of the buses, for one of the CPU. -/
def divide (rcc : Rcc) (cpuFreqHz : UInt32) : Freqs :=
  let ahbFreqHz := cpuFreqHz / getAhbMult rcc
  { cpuFreqHz, ahbFreqHz, apb1FreqHz := ahbFreqHz / getApb1Mult rcc,
    apb2FreqHz := ahbFreqHz / getApb2Mult rcc }

/-- `Clocks::Update`: the frequencies of the object. -/
def update (s : State) : Freqs :=
  divide s.rcc <|
    match getClockSource s.rcc with
    | .hsiClock => hsiClockFreq
    | .hseClock => s.hseFreq
    | .pllClock =>
      if getPllSource s.rcc = .hsiClock then hsiClockFreq / 2 * (getPllMult s.rcc).toUInt32
      else s.hseFreq * (getPllMult s.rcc).toUInt32
    | _ => 0

/-! ## Switching -/

/-- `while (!(RCC->CR & ready)) {}`. -/
def waitReady (s : State) (ready : BitVec 32) : Option State :=
  if s.rcc.cr &&& ready ≠ 0 then some s else none

/-- The switch of the system clock, with the wait for it. -/
def switchTo (s : State) (sw sws : BitVec 32) (source : ClockSource) : Option State :=
  let rcc := s.rcc.writeCfgr (s.rcc.cfgr &&& ~~~cfgrSw)
  let rcc := rcc.writeCfgr (rcc.cfgr ||| sw)
  if rcc.cfgr &&& cfgrSws = sws then some { s with rcc, currentSource := source } else none

/-- `Clocks::RunFromHSI`. -/
def runFromHsi (s : State) : Option State := do
  let s ← waitReady { s with rcc := s.rcc.writeCr (s.rcc.cr ||| crHsion) } crHsirdy
  switchTo s cfgrSwHsi cfgrSwsHsi .hsiClock

/-- `Clocks::RunFromHSE`. -/
def runFromHse (s : State) (crystalFreqHz : UInt32) : Option State := do
  let s := { s with hseFreq := crystalFreqHz }
  let s ← waitReady { s with rcc := s.rcc.writeCr (s.rcc.cr ||| (crCsson ||| crHseon)) } crHserdy
  switchTo s cfgrSwHse cfgrSwsHse .hseClock

/-- The input of the PLL; `~RCC_CFGR_PLLXTPRE | RCC_CFGR_PLLSRC` has the bit `PLLSRC`, so
this bit is not cleared. `none` is the return for other sources. -/
def selectInput (rcc : Rcc) : ClockSource → Option Rcc
  | .hseClock =>
    let rcc := rcc.writeCfgr (rcc.cfgr &&& (~~~cfgrPllxtpre ||| cfgrPllsrc))
    some (rcc.writeCfgr (rcc.cfgr ||| cfgrPllsrc))
  | .hseClockDiv2 => some (rcc.writeCfgr (rcc.cfgr ||| (cfgrPllxtpre ||| cfgrPllsrc)))
  | .hsiClock => some (rcc.writeCfgr (rcc.cfgr &&& (~~~cfgrPllxtpre ||| cfgrPllsrc)))
  | _ => none

/-- `Clocks::EnablePLL`. -/
def enablePll (s : State) (mult : UInt8) : Option State :=
  if mult < 2 ∨ mult > 16 then some s
  else
    match selectInput s.rcc s.currentSource with
    | none => some s
    | some rcc => do
      let rcc := rcc.writeCfgr (rcc.cfgr &&& ~~~cfgrPllmull)
      let rcc := rcc.writeCfgr (rcc.cfgr ||| BitVec.ofNat 32 (mult.toNat - 2) <<< 18)
      let rcc := rcc.writeCr (rcc.cr ||| (crCsson ||| crPllon))
      let s ← waitReady { s with rcc } crPllrdy
      let s ← switchTo s cfgrSwPll cfgrSwsPll .pllClock
      some { s with freqs := divide s.rcc (s.hseFreq * mult.toUInt32) }

/-- What changes the configuration. -/
inductive Op
  | runFromHsi
  | runFromHse (crystalFreqHz : UInt32)
  | enablePll (mult : UInt8)
  | setPrescalers (hpre : BitVec 4) (ppre1 ppre2 : BitVec 3)

/-- The prescalers, written to `CFGR` by the caller. -/
def setPrescalers (s : State) (hpre : BitVec 4) (ppre1 ppre2 : BitVec 3) : State :=
  { s with
    rcc := s.rcc.writeCfgr ((s.rcc.cfgr &&& ~~~(cfgrHpre ||| cfgrPpre1 ||| cfgrPpre2)) |||
      (hpre.setWidth 32 <<< 4 ||| ppre1.setWidth 32 <<< 8 ||| ppre2.setWidth 32 <<< 11)) }

def step (s : State) : Op → Option (Unit × State)
  | .runFromHsi => (runFromHsi s).map (Prod.mk ())
  | .runFromHse crystalFreqHz => (runFromHse s crystalFreqHz).map (Prod.mk ())
  | .enablePll mult => (enablePll s mult).map (Prod.mk ())
  | .setPrescalers hpre ppre1 ppre2 => some ((), setPrescalers s hpre ppre1 ppre2)

end MyLibraries.Clock
