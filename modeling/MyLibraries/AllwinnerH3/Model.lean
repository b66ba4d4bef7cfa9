import Mathlib.Data.BitVec

/-!
# The pins of an Allwinner H3

`GPIO_Init` walks over the pins of a port and puts a function into the configuration
registers for each pin of the set it is given.
-/

namespace MyLibraries.AllwinnerH3

/-- `GPIO_FuncTypeDef`. -/
inductive Func
  | input
  | output
  | fucn1
  | func2
  | res1
  | res2
  | int
  | disabled
  deriving DecidableEq, Repr

/-- The value of the enumerator. -/
def Func.toBits : Func → BitVec 32
  | .input => 0
  | .output => 1
  | .fucn1 => 2
  | .func2 => 3
  | .res1 => 4
  | .res2 => 5
  | .int => 6
  | .disabled => 7

/-- `GPIO_TypeDef`. -/
structure Gpio where
  cfg0 : BitVec 32
  cfg1 : BitVec 32
  cfg2 : BitVec 32
  cfg3 : BitVec 32
  dat : BitVec 32
  drv0 : BitVec 32
  drv1 : BitVec 32
  pul0 : BitVec 32
  pul1 : BitVec 32
  deriving DecidableEq, Repr

/-- `GPIO_PIN_MAX`. -/
def gpioPinMax : Nat := 23

/-- The body of the loop of `GPIO_Init`. -/
def initPin (pin : BitVec 32) (func : Func) (s : Gpio) (i : Nat) : Gpio :=
  if pin &&& 1#32 <<< i ≠ 0#32 then
    if i ≤ 7 then
      let s := { s with cfg0 := s.cfg0 &&& ~~~(7#32 <<< i) }
      { s with cfg0 := s.cfg0 ||| func.toBits <<< i }
    else if i ≤ 15 then
      let s := { s with cfg1 := s.cfg1 &&& ~~~(7#32 <<< (i - 8)) }
      { s with cfg1 := s.cfg1 ||| func.toBits <<< (i - 8) }
    else
      let s := { s with cfg2 := s.cfg2 &&& ~~~(7#32 <<< (i - 16)) }
      { s with cfg2 := s.cfg2 ||| func.toBits <<< (i - 16) }
  else s

/-- `GPIO_Init`. -/
def gpioInit (s : Gpio) (pin : BitVec 32) (func : Func) : Gpio :=
  (List.range gpioPinMax).foldl (initPin pin func) s

end MyLibraries.AllwinnerH3
