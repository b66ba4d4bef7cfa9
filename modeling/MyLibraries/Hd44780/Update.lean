import MyLibraries.Core.Run
import MyLibraries.Hd44780.Print

/-!
# `hd44780_update`

The function is to put the control pins on the port and leave the display alone. It passes
the code for that, `HD44780_NOP_DATA`, to `wr_cmd`, which hands it on as the data of a
command; `wr4b` looks for it in the other parameter. So the byte `0xFF` goes out as a
command, and the display takes it for an address.
-/

namespace MyLibraries.Hd44780

open Run Strobe

/-- `hd44780_update`. -/
def update (lcd : Lcd) : List Call := wrCmd lcd nopData

/-! ## The display -/

/-- The cursor address and the contents of the display. -/
structure Controller where
  address : BitVec 7
  ddram : BitVec 7 → BitVec 8

/-- What a display may do in its own way: how the address moves on behind a character, and
the instructions that do not set it. -/
structure Behaviour where
  next : BitVec 7 → BitVec 7
  other : BitVec 8 → Controller → Controller

/-- A byte with its register select: data is stored at the address, and an instruction with
its highest bit set is a new address. The result is what is stored where. -/
def Controller.take (b : Behaviour) (c : Controller) (x : Bool × BitVec 8) :
    List (BitVec 7 × BitVec 8) × Controller :=
  if x.1 then
    let ddram := fun a => if a = c.address then x.2 else c.ddram a
    ([(c.address, x.2)], { address := b.next c.address, ddram })
  else if x.2.getLsbD 7 then ([], { c with address := x.2.setWidth 7 })
  else ([], b.other x.2 c)

/-- The characters that the display stores, each with its position. -/
def stores (b : Behaviour) (c : Controller) (xs : List (Bool × BitVec 8)) :
    List (BitVec 7 × BitVec 8) :=
  (exec (Controller.take b) c xs).1.flatten

/-- What the display stores during the calls, from any port. -/
def storedBy (lcd : Lcd) (b : Behaviour) (c : Controller) (before : BitVec 8)
    (calls : List Call) : Option (List (BitVec 7 × BitVec 8)) :=
  (receive lcd.conn (fallingEdges lcd.conn.enPin (before :: writes calls))).map (stores b c)

/-- The calls write the control pins to the port and never raise the enable pin. -/
structure Quiet (lcd : Lcd) (calls : List Call) : Prop where
  written : writes calls ≠ []
  pins : ∀ v ∈ writes calls, v &&& extras lcd = extras lcd
  low : ∀ v ∈ writes calls, Apart v lcd.conn.enPin

/-- The next character is stored where it would be without the calls. -/
def Undisturbed (lcd : Lcd) (calls : List Call) : Prop :=
  ∀ b c before ch, storedBy lcd b c before (calls ++ putChar lcd ch) =
    storedBy lcd b c before (putChar lcd ch)

variable {lcd : Lcd}

/-! ## With an enable pin -/

theorem sends_update (hbus : lcd.conn.busType = .bus4B) :
    Sends lcd (update lcd) [(0xFF#8, 1#8)] :=
  sends_wrCmd hbus nopData

/-- The update raises the enable pin. -/
theorem update_raises (hbus : lcd.conn.busType = .bus4B) (hen : lcd.conn.enPin ≠ 0#8) :
    ∃ v ∈ writes (update lcd), ¬Apart v lcd.conn.enPin := by
  rw [sends_update hbus]
  refine ⟨_, List.mem_cons_self, fun h => hen ?_⟩
  rw [← or_and_self _ lcd.conn.enPin]
  exact h

/-! ## Without one -/

theorem fallingEdges_zero (vs : List (BitVec 8)) : fallingEdges 0#8 vs = [] :=
  fallingEdges_of_low fun _ _ => BitVec.and_zero

/-- A strobe of no line writes the value twice. -/
theorem eq_of_mem_strobes {dats : List (BitVec 8)} {v : BitVec 8}
    (h : v ∈ dats.flatMap (strobe 0#8)) : v ∈ dats := by
  obtain ⟨dat, hdat, hv⟩ := List.mem_flatMap.mp h
  have hsame : strobe 0#8 dat = [dat, dat] := by
    rw [strobe, BitVec.or_zero, BitVec.not_zero, BitVec.and_allOnes]
  rw [hsame, List.mem_cons, List.mem_singleton, or_self] at hv
  exact hv ▸ hdat

theorem update_quiet (hbus : lcd.conn.busType = .bus4B) (hen : lcd.conn.enPin = 0#8) :
    Quiet lcd (update lcd) := by
  have hpins (n : BitVec 8) : (latch lcd 1#8 ||| n) &&& extras lcd = extras lcd := by
    rw [latch_eq, if_neg (by decide), BitVec.zero_or, BitVec.or_comm, or_and_self]
  have hwrites := sends_update hbus
  rw [Sends, hen] at hwrites
  refine ⟨?_, fun v hv => ?_, fun v _ => ?_⟩
  · rw [hwrites]
    exact List.cons_ne_nil _ _
  · rw [hwrites] at hv
    have hvalue := eq_of_mem_strobes hv
    simp only [List.flatMap_cons, List.flatMap_nil, List.append_nil, values, List.mem_cons,
      List.not_mem_nil, or_false] at hvalue
    rcases hvalue with rfl | rfl
    · exact hpins _
    · exact hpins _
  · rw [hen]
    exact BitVec.and_zero

theorem update_undisturbed (hen : lcd.conn.enPin = 0#8) : Undisturbed lcd (update lcd) := by
  intro b c before ch
  unfold storedBy
  rw [hen, fallingEdges_zero, fallingEdges_zero]

/-! ## What the display makes of it -/

section Wired

variable (h : Wired lcd) (b : Behaviour) (c : Controller) (before : BitVec 8)
include h

/-- What the display stores is decided by the bytes that are sent. -/
theorem storedBy_of_sends {calls : List Call} {xs : List (BitVec 8 × BitVec 8)}
    (hsends : Sends lcd calls xs) : storedBy lcd b c before calls =
      some (stores b c (xs.map fun x => (decide (x.2 = 0#8), x.1))) := by
  unfold storedBy
  rw [(hsends.decodes h before).1]
  rfl

/-- A character is stored at the cursor address, a newline nowhere. -/
theorem storedBy_putChar (ch : BitVec 8) : storedBy lcd b c before (putChar lcd ch) =
    some (if ch = 0x0A#8 then [] else [(c.address, translate lcd ch)]) := by
  rw [storedBy_of_sends h b c before (sends_putChar h.bus ch)]
  unfold written
  split <;> rfl

/-- Behind an update it is stored at the last address. -/
theorem storedBy_update_putChar (ch : BitVec 8) :
    storedBy lcd b c before (update lcd ++ putChar lcd ch) =
      some (if ch = 0x0A#8 then [] else [(0x7F#7, translate lcd ch)]) := by
  rw [storedBy_of_sends h b c before ((sends_update h.bus).append (sends_putChar h.bus ch))]
  unfold written
  split <;> rfl

theorem update_keeps_position_iff (ch : BitVec 8) :
    storedBy lcd b c before (update lcd ++ putChar lcd ch) =
      storedBy lcd b c before (putChar lcd ch) ↔ ch = 0x0A#8 ∨ c.address = 0x7F#7 := by
  rw [storedBy_update_putChar h, storedBy_putChar h]
  by_cases hch : ch = 0x0A#8
  · rw [if_pos hch, if_pos hch]
    exact iff_of_true rfl (.inl hch)
  · rw [if_neg hch, if_neg hch, or_iff_right hch]
    constructor
    · intro heq
      exact (Prod.mk.inj (List.cons.inj (Option.some.inj heq)).1).1.symm
    · intro heq
      rw [heq]

end Wired

/-- **`hd44780_update`** in a 4-bit connection puts the control pins on the port and leaves
the display alone exactly when there is no enable pin. With one, in a connection without
overlaps, the next character stays where it would be exactly when it is a newline or the
cursor is at the last address. -/
theorem update_frame_iff (hbus : lcd.conn.busType = .bus4B) :
    (Quiet lcd (update lcd) ∧ Undisturbed lcd (update lcd) ↔ lcd.conn.enPin = 0#8) ∧
    (Wired lcd → ∀ b c before ch, storedBy lcd b c before (update lcd ++ putChar lcd ch) =
      storedBy lcd b c before (putChar lcd ch) ↔ ch = 0x0A#8 ∨ c.address = 0x7F#7) := by
  refine ⟨⟨?_, fun hen => ⟨update_quiet hbus hen, update_undisturbed hen⟩⟩,
    fun h b c before ch => update_keeps_position_iff h b c before ch⟩
  rintro ⟨hquiet, -⟩
  by_contra hen
  obtain ⟨v, hv, hhigh⟩ := update_raises hbus hen
  exact hhigh (hquiet.low v hv)

/-- A display that moves on by one address, and minds no other instruction. -/
def plain : Behaviour := { next := fun a => a + 1, other := fun _ c => c }

/-- An empty display with its cursor at the given address. -/
def emptyAt (address : BitVec 7) : Controller := { address, ddram := fun _ => 0x20 }

/-- The board with a `PCF8574`. -/
def pcf8574 : Lcd := ⟨1, .englishJapaneseFont, pcf8574Con, none⟩

/-- The same lines without the enable pin. -/
def unstrobed : Lcd := ⟨1, .englishJapaneseFont, ⟨.bus4B, 4, 1, 0, 8⟩, none⟩

/-- Without an enable pin, and with one and the cursor at the last address. -/
theorem update_frame_small :
    (Quiet unstrobed (update unstrobed) ∧ Undisturbed unstrobed (update unstrobed)) ∧
    storedBy pcf8574 plain (emptyAt 0x7F) 0 (update pcf8574 ++ putChar pcf8574 0x41) =
      storedBy pcf8574 plain (emptyAt 0x7F) 0 (putChar pcf8574 0x41) :=
  ⟨(update_frame_iff rfl).1.mpr rfl,
    ((update_frame_iff rfl).2 (wired_of_conn (.inl rfl) rfl) _ _ _ _).mpr (.inr rfl)⟩

/-- With the cursor at the first address, the update strobes the command `0xFF`, and the next
character goes to the last address. -/
theorem update_moves_cursor :
    writes (update pcf8574) = [0xFC, 0xF8, 0xFC, 0xF8] ∧
      storedBy pcf8574 plain (emptyAt 0) 0 (putChar pcf8574 0x41) = some [(0, 0x41)] ∧
      storedBy pcf8574 plain (emptyAt 0) 0 (update pcf8574 ++ putChar pcf8574 0x41) =
        some [(0x7F, 0x41)] := by
  have h : Wired pcf8574 := wired_of_conn (.inl rfl) rfl
  refine ⟨by decide, ?_, ?_⟩
  · rw [storedBy_putChar h]
    decide
  · rw [storedBy_update_putChar h]
    decide

end MyLibraries.Hd44780
