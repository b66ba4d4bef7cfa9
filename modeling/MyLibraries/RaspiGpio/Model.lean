import Mathlib.Data.BitVec

/-!
# The pins of a Raspberry Pi

`gpio_init` puts a function into the field of a pin in one of the six registers `GPFSEL`,
`gpio_func` reads it back. Both map the registers on first use; what `open` and `mmap` come
to is a parameter, as the value that `init` has for it. A shift by a negative count is a
fault.
-/

namespace MyLibraries.RaspiGpio

/-- `enum gpio_func`. -/
inductive Func
  | input
  | output
  | alt5
  | alt4
  | alt0
  | alt1
  | alt2
  | alt3
  | error
  deriving DecidableEq, Repr

/-- `(uint32_t)func`. -/
def Func.toBits : Func → BitVec 32
  | .input => 0
  | .output => 1
  | .alt5 => 2
  | .alt4 => 3
  | .alt0 => 4
  | .alt1 => 5
  | .alt2 => 6
  | .alt3 => 7
  | .error => 8

/-- `(enum gpio_func)bits`, of the values that three bits have. -/
def Func.ofBits (bits : BitVec 32) : Func :=
  if bits = 0 then .input
  else if bits = 1 then .output
  else if bits = 2 then .alt5
  else if bits = 3 then .alt4
  else if bits = 4 then .alt0
  else if bits = 5 then .alt1
  else if bits = 6 then .alt2
  else .alt3

/-- The registers, and whether `gpio` points to them. -/
structure Gpio where
  mapped : Bool
  gpfsel : Vector (BitVec 32) 6
  deriving DecidableEq, Repr

/-- `EINVAL`. -/
def einval : Int := 22

/-- `init`. -/
def init (attempt : Int) (s : Gpio) : Int × Gpio :=
  if s.mapped then (0, s) else (attempt, { s with mapped := attempt = 0 })

/-- `get_gpfsel_reg`. -/
def getGpfselReg (gpioNum : Int) : Option (Fin 6) :=
  if gpioNum ≤ 9 then some 0
  else if gpioNum ≤ 19 then some 1
  else if gpioNum ≤ 29 then some 2
  else if gpioNum ≤ 39 then some 3
  else if gpioNum ≤ 49 then some 4
  else if gpioNum ≤ 53 then some 5
  else none

/-- The place of a pin in its register; `none` where it would be negative. -/
def place (gpioNum : Int) : Option Nat :=
  let gpioNum := gpioNum.tmod 10
  let gpioNum := gpioNum * 3
  if gpioNum < 0 then none else some gpioNum.toNat

/-- `gpio_init`. -/
def gpioInit (attempt gpioNum : Int) (func : Func) (s : Gpio) : Option (Int × Gpio) :=
  let (res, s) := init attempt s
  if res ≠ 0 then some (res, s)
  else match getGpfselReg gpioNum with
    | none => some (einval, s)
    | some reg => do
      let n ← place gpioNum
      let v := s.gpfsel[reg] &&& 7#32 <<< n
      let v := v ||| func.toBits <<< n
      some (0, { s with gpfsel := s.gpfsel.set reg v })

/-- `gpio_func`. -/
def gpioFunc (attempt gpioNum : Int) (s : Gpio) : Option (Func × Gpio) :=
  let (res, s) := init attempt s
  if res ≠ 0 then some (.error, s)
  else match getGpfselReg gpioNum with
    | none => some (.error, s)
    | some reg => do
      let n ← place gpioNum
      some (.ofBits (s.gpfsel[reg] >>> n &&& 7), s)

end MyLibraries.RaspiGpio
