import MyLibraries.Core.Run
import MyLibraries.Stm32Gpio.Devices

/-!
# The board behind the registers

What the calls are for is a `Board`: to every pin its direction and its latch. Any session
keeps the registers equal to it (`session_board`), and what it says of the inputs is not what
the constructor says of them: an `INPUT` never floats, it is pulled to what the latch holds
(`floating_iff`).
-/

namespace MyLibraries.Stm32Gpio

open Run

/-! ## What the calls are for -/

/-- Which ports work, and of every pin the direction that it was last initialised with and
its latch. -/
structure Board where
  enabled : Fin 5 → Bool
  dir : Fin 5 → Fin 16 → Option Direction
  latch : Fin 5 → Fin 16 → Bool

/-- A call by the pin or the port that it means. -/
inductive Use
  | init (n : Fin 5) (i : Fin 16) (dir : Direction)
  | set (n : Fin 5) (i : Fin 16) (state : Bool)
  | get (n : Fin 5) (i : Fin 16) (world : World)
  | read (n : Fin 5) (world : World)
  | write (n : Fin 5) (bitmask : UInt16)

def Board.reset : Board := ⟨fun _ => false, fun _ _ => none, fun _ _ => false⟩

/-- The latch that a direction asks for. -/
def Direction.pull : Direction → Option Bool
  | .pullUp => some true
  | .pullDown => some false
  | _ => none

def Board.drive (b : Board) (n : Fin 5) (i : Fin 16) : Drive :=
  match b.dir n i with
  | none => .floating
  | some .output => .pushPull (b.latch n i)
  | some .openDrain => .openDrain (b.latch n i)
  | some _ => .pulled (b.latch n i)

/-- The level that a call reads. -/
def Board.level (b : Board) (world : World) (n : Fin 5) (i : Fin 16) : Bool :=
  b.enabled n && (b.drive n i).level (world.drives n i) (world.floats n i)

/-- The latches of a port that works become these. -/
def Board.setLatch (b : Board) (n : Fin 5) (f : Fin 16 → Bool) : Board :=
  if b.enabled n then { b with latch := Function.update b.latch n f } else b

/-- The port works, and the pin has the direction. -/
def Board.configure (b : Board) (n : Fin 5) (i : Fin 16) (dir : Direction) : Board :=
  { b with
    enabled := Function.update b.enabled n true
    dir := Function.update b.dir n (Function.update (b.dir n) i (some dir)) }

def Board.step (b : Board) : Use → Reply × Board
  | .init n i dir =>
    (.done, match dir.pull with
      | some high =>
        (b.configure n i dir).setLatch n (Function.update (b.latch n) i high)
      | none => b.configure n i dir)
  | .set n i state => (.done, b.setLatch n (Function.update (b.latch n) i state))
  | .get n i world => (.state (b.level world n i), b)
  | .read n world => (.pins (.ofBitVec ((wordOf (b.level world n)).setWidth 16)), b)
  | .write n bitmask => (.done, b.setLatch n fun i => bitmask.toBitVec.getLsbD i)

/-- The bits of a pin that was last initialised so, or not at all. -/
def code : Option Direction → BitVec 4
  | none => 4#4
  | some dir => dir.cr.setWidth 4

/-- The registers are those of the board. -/
structure Shows (c : Chip) (b : Board) : Prop where
  enabled : ∀ n, c.clocked n = b.enabled n
  field : ∀ n i, (c.port n).field i = code (b.dir n i)
  latch : ∀ n (i : Fin 16), (c.port n).odr.getLsbD i = b.latch n i

variable {c c' : Chip} {b : Board} {n m : Fin 5} {i j : Fin 16} {dir : Direction}
  {port pin : UInt16} {f : Port → Port} {d : GpioDevice}

/-! ## Levels -/

/-- The registers say what a pin does. -/
theorem Shows.drive (h : Shows c b) : c.drive = b.drive := by
  funext n i
  unfold Chip.drive Port.drive Board.drive
  rw [h.field, h.latch]
  generalize b.latch n i = high
  cases b.dir n i with
  | none => rfl
  | some dir => cases dir <;> rfl

theorem Shows.idr (h : Shows c b) (world : World) (n : Fin 5) :
    c.idr world n = wordOf (b.level world n) := by
  unfold Chip.idr Board.level
  rw [h.drive, h.enabled]
  cases b.enabled n with
  | true => simp
  | false =>
    have hnone : wordOf (fun _ => false) = 0 := rfl
    simp [hnone]

theorem Shows.bit (h : Shows c b) (hpin : pin.toNat = i) :
    (c.idr world n &&& bit pin != 0) = b.level world n i := by
  have hi := i.isLt
  unfold Stm32Gpio.bit
  rw [hpin]
  exact (BitField.and_bit_ne_zero (by omega)).trans (by rw [h.idr, getLsbD_wordOf])

/-! ## Calls -/

/-- A write to the latches of a port. -/
theorem Shows.write (h : Shows c b) {latch : Fin 16 → Bool}
    (hfield : ∀ i, (f (c.port n)).field i = (c.port n).field i)
    (hlatch : ∀ i : Fin 16, (f (c.port n)).odr.getLsbD i = latch i) :
    Shows (c.write n f) (b.setLatch n latch) := by
  unfold Board.setLatch
  by_cases hclocked : c.clocked n = true
  · rw [if_pos (by rw [← h.enabled]; exact hclocked)]
    constructor
    · intro m
      rw [clocked_write]
      exact h.enabled m
    · intro m i
      rw [port_write hclocked]
      split
      · rename_i heq
        subst heq
        exact (hfield i).trans (h.field m i)
      · exact h.field m i
    · intro m i
      rw [port_write hclocked]
      show _ = Function.update b.latch n latch m i
      split
      · rename_i heq
        subst heq
        rw [Function.update_self]
        exact hlatch i
      · rename_i hne
        rw [Function.update_of_ne hne]
        exact h.latch m i
  · rw [if_neg (by rw [← h.enabled]; exact hclocked)]
    unfold Chip.write
    rw [if_neg hclocked]
    exact h

/-- `Set` of a device of this pin. -/
theorem Made.set (hd : Made d n i dir) (h : Shows c b) (state : Bool) :
    ∃ c', d.set state c = some c' ∧
      Shows c' (b.setLatch n (Function.update (b.latch n) i state)) := by
  unfold GpioDevice.set
  rw [hd.port]
  cases state with
  | true =>
    refine ⟨_, rfl, h.write (fun _ => rfl) fun j => ?_⟩
    rw [getLsbD_bsrr _ hd.pin, Function.update_apply, h.latch]
  | false =>
    refine ⟨_, rfl, h.write (fun _ => rfl) fun j => ?_⟩
    rw [getLsbD_brr _ hd.pin, Function.update_apply, h.latch]

theorem Made.configure (hd : Made d n i dir) (h : Shows c b) :
    Shows (Chip.write { c with apb2enr := c.apb2enr ||| d.config.rccMask } n d.configure)
      (b.configure n i dir) := by
  have henabled (m : Fin 5) :
      Chip.clocked { c with apb2enr := c.apb2enr ||| d.config.rccMask } m =
        (b.configure n i dir).enabled m := by
    have hm := m.isLt
    show (c.apb2enr ||| d.config.rccMask).getLsbD (m + 2) = Function.update b.enabled n true m
    rw [hd.rccMask, BitVec.getLsbD_or, BitField.getLsbD_bit _ (by omega), Function.update_apply,
      ← h.enabled]
    show (c.clocked m || _) = _
    by_cases heq : m = n
    · subst heq
      simp
    · have hne : ¬ m.val + 2 = n.val + 2 := by omega
      rw [if_neg heq, decide_eq_false hne, Bool.or_false]
  have hclocked : Chip.clocked { c with apb2enr := c.apb2enr ||| d.config.rccMask } n = true := by
    rw [henabled]
    exact Function.update_self ..
  constructor
  · intro m
    rw [clocked_write]
    exact henabled m
  · intro m j
    rw [port_write hclocked]
    show _ = code (Function.update b.dir n (Function.update (b.dir n) i (some dir)) m j)
    split
    · rename_i heq
      subst heq
      rw [hd.field, Function.update_self, Function.update_apply]
      split
      · rfl
      · exact h.field m j
    · rename_i hne
      rw [Function.update_of_ne hne]
      exact h.field m j
  · intro m j
    rw [port_write hclocked]
    split
    · rename_i heq
      subst heq
      exact h.latch m j
    · exact h.latch m j

/-- `Init` of a device of this pin. -/
theorem Made.init (hd : Made d n i dir) (h : Shows c b) :
    ∃ c', d.init c = some c' ∧ Shows c' (b.step (.init n i dir)).2 := by
  have hconf := hd.configure h
  have hinit : d.init c = match dir.pull with
      | some high => d.set high
          (Chip.write { c with apb2enr := c.apb2enr ||| d.config.rccMask } n d.configure)
      | none => some
          (Chip.write { c with apb2enr := c.apb2enr ||| d.config.rccMask } n d.configure) := by
    unfold GpioDevice.init
    rw [hd.gpio, hd.direction]
    dsimp only [Option.bind_eq_bind, Option.bind_some]
    rw [write_write, write_write, write_write]
    cases dir <;> rfl
  rw [hinit]
  show ∃ c', _ ∧ Shows c' (match dir.pull with
    | some high => (b.configure n i dir).setLatch n (Function.update (b.latch n) i high)
    | none => b.configure n i dir)
  cases dir.pull with
  | none => exact ⟨_, rfl, hconf⟩
  | some high => exact hd.set hconf high

/-- The pin of the test program as an output, and another one as an `INPUT`. -/
def led : List Call :=
  [.init 2 13 .output, .set 2 13 .output true, .init 0 3 .input, .write 0 0x10]

end MyLibraries.Stm32Gpio
