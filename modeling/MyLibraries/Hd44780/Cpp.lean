import MyLibraries.Hd44780.Model

/-!
# The C++ driver of the `HD44780` display

`HD44780_Base` keeps the pins as numbers. `intfs_write` shifts a one to the pins of the
register select and the backlight, but `latch_write` puts the number of the enable pin itself
into the word; and the 4-bit connection cuts the word down to its nibbles, which takes the
register select and the backlight out of it. So no line above the four data lines is ever
high in a 4-bit write, and there is no strobe.
-/

namespace MyLibraries.Hd44780.Cpp

open Strobe

/-! ## The code -/

/-- `HD44780_Base`. -/
structure Base where
  busWidth : BusWidth
  enPin : BitVec 16
  rsPin : BitVec 16
  blPin : BitVec 16
  isBacklightEnabled : Bool
  deriving DecidableEq, Repr

/-- What the driver calls of `HD44780_InterfaceBase`. -/
inductive Call
  | write (data : BitVec 16)
  | delayUs (us : Nat)
  deriving DecidableEq, Repr

/-- `LCD_DELAY_LOW_US`. -/
def lcdDelayLowUs : Nat := 50

/-- `NOP_DATA`. -/
def nopData : BitVec 16 := 0xFF#16

def latchWrite (lcd : Base) (data : BitVec 16) : List Call :=
  let high := [.write (data ||| lcd.enPin), .delayUs lcdDelayLowUs]
  high ++ [.write data, .delayUs lcdDelayLowUs]

def intfsWrite (lcd : Base) (data : BitVec 16) (isCmd : Bool) : List Call :=
  let data := if lcd.isBacklightEnabled then data ||| 1#16 <<< lcd.blPin.toNat else data
  let data := if !isCmd then data ||| 1#16 <<< lcd.rsPin.toNat else data
  if data = nopData then [.write data]
  else
    match lcd.busWidth with
    | .bus4B => latchWrite lcd ((data &&& 0xF0#16) >>> 4) ++ latchWrite lcd (data &&& 0x0F#16)
    | .bus8B => latchWrite lcd data

/-- The values of the port. -/
def writes (calls : List Call) : List (BitVec 16) :=
  calls.filterMap fun
    | .write data => some data
    | _ => none

/-! ## What the display sees -/

/-- A pin of the port that is no data line. -/
def ControlPin (pin : BitVec 16) : Prop := 4 ≤ pin.toNat ∧ pin.toNat < 16

instance (pin : BitVec 16) : Decidable (ControlPin pin) := inferInstanceAs (Decidable (_ ∧ _))

/-- The line of a pin in a value of the port. -/
def line (pin v : BitVec 16) : Bool := v.getLsbD pin.toNat

/-- Two samples at the falling edges of the enable line, which hold the byte. -/
def Decodes (lcd : Base) (before : BitVec 16) (data : BitVec 8) (isCmd : Bool) : Prop :=
  ∃ high low : BitVec 16,
    fallingEdges (1#16 <<< lcd.enPin.toNat)
      (before :: writes (intfsWrite lcd (data.setWidth 16) isCmd)) = [high, low] ∧
    high.extractLsb' 0 4 = data.extractLsb' 4 4 ∧ low.extractLsb' 0 4 = data.extractLsb' 0 4 ∧
    line lcd.rsPin high = !isCmd ∧ line lcd.rsPin low = !isCmd ∧
    line lcd.blPin high = lcd.isBacklightEnabled ∧ line lcd.blPin low = lcd.isBacklightEnabled

variable {lcd : Base} {v : BitVec 16} {n : Nat}

/-- A nibble leaves the lines above the data lines low. -/
theorem apart_of_lt (hv : v.toNat < 16) (hn : 4 ≤ n) : Apart v (1#16 <<< n) := by
  apply BitVec.eq_of_getLsbD_eq
  intro i _
  rw [BitVec.getLsbD_and, BitVec.getLsbD_zero, BitVec.getLsbD_shiftLeft]
  by_cases hi : i < n
  · simp [hi]
  · have hbit : v.getLsbD i = false :=
      Nat.testBit_lt_two_pow (Nat.lt_of_lt_of_le hv (Nat.pow_le_pow_right Nat.two_pos
        (show 4 ≤ i by omega)))
    rw [hbit, Bool.false_and]

theorem nibble_lt (v : BitVec 16) : ((v &&& 0xF0#16) >>> 4).toNat < 16 ∧
    (v &&& 0x0F#16).toNat < 16 := by
  constructor
  · rw [BitVec.toNat_ushiftRight, Nat.shiftRight_eq_div_pow, BitVec.toNat_and]
    have hle : v.toNat &&& 240 ≤ 240 := Nat.and_le_right
    show (v.toNat &&& 240) / 16 < 16
    omega
  · rw [BitVec.toNat_and]
    have hle : v.toNat &&& 15 ≤ 15 := Nat.and_le_right
    show v.toNat &&& 15 < 16
    omega

/-- Both values of a strobe of a nibble leave those lines low. -/
theorem latchWrite_apart (hen : lcd.enPin.toNat < 16) (hv : v.toNat < 16) (hn : 4 ≤ n) :
    ∀ u ∈ writes (latchWrite lcd v), Apart u (1#16 <<< n) := by
  have hor : (v ||| lcd.enPin).toNat < 16 := by
    rw [BitVec.toNat_or]
    exact Nat.or_lt_two_pow (n := 4) hv hen
  intro u hu
  simp only [writes, latchWrite, List.cons_append, List.nil_append, List.filterMap_cons,
    List.filterMap_nil, List.mem_cons, List.not_mem_nil, or_false] at hu
  rcases hu with rfl | rfl
  · exact apart_of_lt hor hn
  · exact apart_of_lt hv hn

/-- **The enable line falls at most once** in a 4-bit write, from the level it had before. -/
theorem length_samples_le (hbus : lcd.busWidth = .bus4B) (hen : ControlPin lcd.enPin)
    (before data : BitVec 16) (isCmd : Bool) :
    (fallingEdges (1#16 <<< lcd.enPin.toNat)
      (before :: writes (intfsWrite lcd data isCmd))).length ≤ 1 := by
  unfold intfsWrite
  dsimp only
  generalize hword : (if (!isCmd) = true then _ else _ : BitVec 16) = word
  by_cases hnop : word = nopData
  · rw [if_pos hnop]
    show (fallingEdges _ [before, word]).length ≤ 1
    rw [fallingEdges]
    split <;> simp [fallingEdges]
  · rw [if_neg hnop, hbus]
    obtain ⟨hhigh, hlow⟩ := nibble_lt word
    apply length_fallingEdges_le
    intro u hu
    rw [writes, List.filterMap_append, List.mem_append] at hu
    rcases hu with hu | hu
    · exact latchWrite_apart hen.2 hhigh hen.1 u hu
    · exact latchWrite_apart hen.2 hlow hen.1 u hu

/-- **No 4-bit write is decoded**, for any byte, flags and pins when the enable line is no data
line. -/
theorem not_decodes (lcd : Base) (hbus : lcd.busWidth = .bus4B) (hen : ControlPin lcd.enPin)
    (before : BitVec 16) (data : BitVec 8) (isCmd : Bool) :
    ¬ Decodes lcd before data isCmd := by
  rintro ⟨high, low, hsamples, -⟩
  have hlen := length_samples_le hbus hen before (data.setWidth 16) isCmd
  rw [hsamples] at hlen
  exact absurd hlen (show ¬ 2 ≤ 1 by decide)

/-- The register select at bit 4, the enable line at bit 6, the backlight at bit 7. -/
def board : Base :=
  { busWidth := .bus4B, enPin := 6, rsPin := 4, blPin := 7, isBacklightEnabled := true }

theorem not_decodes_board : ¬ Decodes board 0 0x41 false :=
  not_decodes board rfl (by decide) 0 0x41 false

/-- The letter `A`, with the two flags in its high nibble: no line above the data lines is ever
high, and nothing is sampled. -/
theorem board_samples :
    writes (intfsWrite board ((0x41 : BitVec 8).setWidth 16) false) = [0xF, 0xD, 0x7, 0x1] ∧
      ¬ Decodes board 0 0x41 false := by
  refine ⟨by decide, ?_⟩
  rintro ⟨high, low, hsamples, -⟩
  have hnone : fallingEdges (1#16 <<< board.enPin.toNat)
      ((0 : BitVec 16) :: writes (intfsWrite board ((0x41 : BitVec 8).setWidth 16) false)) =
    [] := by
    decide
  rw [hnone] at hsamples
  cases hsamples

end MyLibraries.Hd44780.Cpp
