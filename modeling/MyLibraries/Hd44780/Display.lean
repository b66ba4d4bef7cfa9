import MyLibraries.Hd44780.Print

/-!
# The display behind the driver

The display takes a sample of the register select and of its four upper data lines over at
each falling edge. In 8-bit mode a sample is a byte whose lower half comes from lines that
are not connected; in 4-bit mode two samples are a byte. `hd44780_init` does not know in
which mode the display is, nor whether it has the first half of a byte: behind its four
nibbles the display is in 4-bit mode and between two bytes in each case, and behind the
commands it is blank (`init_ready`).
-/

namespace MyLibraries.Hd44780

open Strobe

/-! ## The rest of the driver -/

/-- `enum hd44780_lcd_type`. -/
inductive LcdType
  | lcd
  | oled
  deriving DecidableEq, Repr

/-- The value of a font table in C. -/
def FontTable.code : FontTable → BitVec 8
  | .englishJapaneseFont => 0
  | .westernEuropeanFont => 1
  | .englishRussianFont => 2
  | .westernEuropean2Font => 3

/-- The part of `hd44780_init` for the 4-bit connection. -/
def init4B (lcd : Lcd) : List Call :=
  writeToBus lcd (0x03#8 <<< lcd.conn.dataShift.toNat) ++
    writeToBus lcd (0x03#8 <<< lcd.conn.dataShift.toNat) ++
    writeToBus lcd (0x03#8 <<< lcd.conn.dataShift.toNat) ++
    writeToBus lcd (0x02#8 <<< lcd.conn.dataShift.toNat) ++ [.delayUs lcdDelayHigh] ++
    wr lcd (0x28#8 ||| lcd.font.code) 1#8

/-- `hd44780_init`, of a driver with a connection. -/
def init (lcd : Lcd) (type : LcdType) : List Call :=
  (if lcd.conn.busType = .bus4B then init4B lcd else []) ++
    match type with
    | .lcd =>
      wrCmd lcd 0x02#8 ++ wrCmd lcd 0x01#8 ++ [.delayUs lcdDelayHigh] ++ wrCmd lcd 0x0C#8
    | .oled =>
      wrCmd lcd 0x08#8 ++ wrCmd lcd 0x06#8 ++ wrCmd lcd 0x17#8 ++ wrCmd lcd 0x01#8 ++
        [.delayUs lcdDelayHigh] ++ wrCmd lcd 0x02#8 ++ wrCmd lcd 0x0C#8

/-- `hd44780_set_pos`. -/
def setPos (lcd : Lcd) (row col : BitVec 8) : List Call :=
  let position := 0x80#8
  let position := if row ≠ 0#8 then position ||| 0x40#8 else position
  wrCmd lcd (position ||| col)

/-- `hd44780_clear`. -/
def clear (lcd : Lcd) : List Call :=
  wrCmd lcd 0x01#8 ++ [.delayUs lcdDelayHigh] ++ wrCmd lcd 0x02#8 ++ [.delayUs lcdDelayHigh]

/-! ## The display -/

/-- The width of the interface; `second` has the first half of a byte. -/
inductive Interface
  | eight
  | four
  | second (high : BitVec 4)
  deriving DecidableEq, Repr

/-- What the next byte of data is stored in. -/
inductive Address
  | ddram (a : BitVec 7)
  | cgram (a : BitVec 6)
  deriving DecidableEq, Repr

/-- The memory and the modes of a display. Which part of the memory its glass shows is left
out. -/
structure Display where
  interface : Interface
  twoLines : Bool
  increment : Bool
  on : Bool
  address : Address
  ddram : BitVec 7 → BitVec 8
  cgram : BitVec 6 → BitVec 8

namespace Display

/-- The neighbour of an address in the memory of the characters: 40 for each of two lines,
from `0x00` and from `0x40`, or 80 for one. -/
def next (twoLines increment : Bool) (a : BitVec 7) : BitVec 7 :=
  if twoLines then
    if increment then if a = 0x27 then 0x40 else if a = 0x67 then 0 else a + 1
    else if a = 0x40 then 0x27 else if a = 0 then 0x67 else a - 1
  else
    if increment then if a = 0x4F then 0 else a + 1 else if a = 0 then 0x4F else a - 1

/-- The address moves on by one. -/
def move (d : Display) (increment : Bool) : Display :=
  match d.address with
  | .ddram a => { d with address := .ddram (next d.twoLines increment a) }
  | .cgram a => { d with address := .cgram (if increment then a + 1 else a - 1) }

/-- An instruction is named by its highest bit: the address of a character, the address of a
custom character, function set, shift, display control, entry mode, home and clear. -/
def instruct (d : Display) (byte : BitVec 8) : Display :=
  if byte.getLsbD 7 then { d with address := .ddram (byte.setWidth 7) }
  else if byte.getLsbD 6 then { d with address := .cgram (byte.setWidth 6) }
  else if byte.getLsbD 5 then
    { d with
      interface := if byte.getLsbD 4 then .eight else .four
      twoLines := byte.getLsbD 3 }
  else if byte.getLsbD 4 then if byte.getLsbD 3 then d else d.move (byte.getLsbD 2)
  else if byte.getLsbD 3 then { d with on := byte.getLsbD 2 }
  else if byte.getLsbD 2 then { d with increment := byte.getLsbD 1 }
  else if byte.getLsbD 1 then { d with address := .ddram 0 }
  else if byte.getLsbD 0 then
    { d with ddram := fun _ => 0x20, address := .ddram 0, increment := true }
  else d

/-- A byte of data is stored, and the address moves on. -/
def store (d : Display) (byte : BitVec 8) : Display :=
  match d.address with
  | .ddram a => { d with ddram := Function.update d.ddram a byte }.move d.increment
  | .cgram a => { d with cgram := Function.update d.cgram a byte }.move d.increment

/-- A byte with its register select. -/
def execute (d : Display) (x : Bool × BitVec 8) : Display :=
  if x.1 then d.store x.2 else d.instruct x.2

/-- A sample with its register select; `low` is on the lines that are not connected. -/
def latch (d : Display) (x : Bool × BitVec 4) (low : BitVec 4) : Display :=
  match d.interface with
  | .eight => d.execute (x.1, x.2 ++ low)
  | .four => { d with interface := .second x.2 }
  | .second high => { d with interface := .four }.execute (x.1, high ++ x.2)

/-- One sample after the other. -/
def feed (d : Display) (low : Nat → BitVec 4) : List (Bool × BitVec 4) → Display
  | [] => d
  | x :: xs => (d.latch x (low 0)).feed (fun n => low (n + 1)) xs

end Display

/-- The register select and the nibble of a value of the port. -/
def sample (conn : Conn) (v : BitVec 8) : Bool × BitVec 4 := (select conn v, nibble conn v)

/-- The display behind the calls of the driver, with `before` on the port. -/
def Display.see (d : Display) (conn : Conn) (low : Nat → BitVec 4) (before : BitVec 8)
    (calls : List Call) : Display :=
  d.feed low ((fallingEdges conn.enPin (before :: writes calls)).map (sample conn))

/-- The byte leaves a display in 4-bit mode in it. -/
def KeepsMode (x : Bool × BitVec 8) : Prop :=
  x.1 = false → x.2.getLsbD 7 = false → x.2.getLsbD 6 = false → x.2.getLsbD 5 = true →
    x.2.getLsbD 4 = false

instance (x : Bool × BitVec 8) : Decidable (KeepsMode x) := inferInstanceAs (Decidable (_ → _))

/-- The halves of a byte, as they come. -/
def halves (x : Bool × BitVec 8) : List (Bool × BitVec 4) :=
  [(x.1, x.2.extractLsb' 4 4), (x.1, x.2.extractLsb' 0 4)]

/-- The calls strobe the values, which leave the strobe alone. -/
structure Strobes (lcd : Lcd) (calls : List Call) (dats : List (BitVec 8)) : Prop where
  writes : writes calls = dats.flatMap (strobe lcd.conn.enPin)
  apart : ∀ dat ∈ dats, Apart dat lcd.conn.enPin

variable {lcd : Lcd} {d : Display} {x : Bool × BitVec 8} {xs ys : List (Bool × BitVec 4)}
  {low : Nat → BitVec 4}

/-! ## Samples -/

theorem Display.feed_append : d.feed low (xs ++ ys) =
    (d.feed low xs).feed (fun n => low (xs.length + n)) ys := by
  induction xs generalizing d low with
  | nil => simp [feed]
  | cons x xs ih =>
    rw [List.cons_append, feed, ih, feed, List.length_cons]
    simp only [Nat.add_right_comm]

theorem Display.latch_of_eight {y : Bool × BitVec 4} (hd : d.interface = .eight) (n : BitVec 4) :
    d.latch y n = d.execute (y.1, y.2 ++ n) := by
  rw [latch, hd]

theorem Display.latch_of_four {y : Bool × BitVec 4} (hd : d.interface = .four) (n : BitVec 4) :
    d.latch y n = { d with interface := .second y.2 } := by
  rw [latch, hd]

theorem Display.latch_of_second {y : Bool × BitVec 4} {high : BitVec 4}
    (hd : d.interface = .second high) (n : BitVec 4) :
    d.latch y n = { d with interface := .four }.execute (y.1, high ++ y.2) := by
  rw [latch, hd]

@[simp] theorem Display.move_interface (increment : Bool) :
    (d.move increment).interface = d.interface := by
  unfold move
  split
  · rfl
  · rfl

@[simp] theorem Display.move_twoLines (increment : Bool) :
    (d.move increment).twoLines = d.twoLines := by
  unfold move
  split
  · rfl
  · rfl

@[simp] theorem Display.store_interface (byte : BitVec 8) :
    (d.store byte).interface = d.interface := by
  unfold store
  split
  · exact move_interface _
  · exact move_interface _

theorem Display.instruct_functionSet {byte : BitVec 8} (h7 : byte.getLsbD 7 = false)
    (h6 : byte.getLsbD 6 = false) (h5 : byte.getLsbD 5 = true) :
    (d.instruct byte).interface = if byte.getLsbD 4 then .eight else .four := by
  rw [instruct, h7, h6, h5]
  rfl

/-- Only a function set touches the interface. -/
theorem Display.execute_interface (hd : d.interface = .four) (hx : KeepsMode x) :
    (d.execute x).interface = .four := by
  obtain ⟨rs, byte⟩ := x
  cases rs with
  | true => exact (store_interface byte).trans hd
  | false =>
    show (d.instruct byte).interface = .four
    unfold instruct
    by_cases h7 : byte.getLsbD 7 = true
    · rw [if_pos h7]
      exact hd
    by_cases h6 : byte.getLsbD 6 = true
    · rw [if_neg h7, if_pos h6]
      exact hd
    by_cases h5 : byte.getLsbD 5 = true
    · have h4 := hx rfl (Bool.eq_false_iff.mpr h7) (Bool.eq_false_iff.mpr h6) h5
      rw [if_neg h7, if_neg h6, if_pos h5]
      exact if_neg (Bool.eq_false_iff.mp h4)
    rw [if_neg h7, if_neg h6, if_neg h5]
    split
    · split
      · exact hd
      · exact (move_interface _).trans hd
    · split
      · exact hd
      · split
        · exact hd
        · split
          · exact hd
          · split
            · exact hd
            · exact hd

theorem append_halves (byte : BitVec 8) :
    (byte.extractLsb' 4 4 ++ byte.extractLsb' 0 4 : BitVec 8) = byte := by
  revert byte
  decide +kernel

/-- **Between two bytes, a display in 4-bit mode executes the bytes** whose halves it takes,
and stays between two bytes. -/
theorem Display.feed_halves {bytes : List (Bool × BitVec 8)} (hd : d.interface = .four)
    (hbytes : ∀ x ∈ bytes, KeepsMode x) :
    d.feed low (bytes.flatMap halves) = bytes.foldl execute d ∧
      (bytes.foldl execute d).interface = .four := by
  induction bytes generalizing d low with
  | nil => exact ⟨rfl, hd⟩
  | cons x bytes ih =>
    have hnext := execute_interface hd (hbytes x List.mem_cons_self)
    obtain ⟨hfeed, hmode⟩ := @ih _ (fun n => low (n + 2)) hnext
      fun y hy => hbytes y (List.mem_cons_of_mem x hy)
    have hbyte : (d.latch (x.1, x.2.extractLsb' 4 4) (low 0)).latch
        (x.1, x.2.extractLsb' 0 4) (low 1) = d.execute x := by
      have hfour : { d with interface := .four } = d := by rw [← hd]
      rw [latch_of_four hd, latch_of_second rfl, append_halves]
      exact congrArg (execute · x) hfour
    rw [List.flatMap_cons, halves, List.cons_append, List.cons_append, List.nil_append, feed,
      feed, hbyte]
    exact ⟨hfeed, hmode⟩

/-! ## Bytes on the port -/

theorem Sends.pause {calls : List Call} {bytes : List (BitVec 8 × BitVec 8)}
    (h : Sends lcd calls bytes) (us : Nat) :
    Sends lcd (calls ++ [.delayUs us]) bytes := by
  have hpause : Sends lcd [.delayUs us] [] := rfl
  simpa only [List.append_nil] using h.append hpause

theorem Strobes.append {calls calls' : List Call} {dats dats' : List (BitVec 8)}
    (h : Strobes lcd calls dats) (h' : Strobes lcd calls' dats') :
    Strobes lcd (calls ++ calls') (dats ++ dats') := by
  refine ⟨?_, List.forall_mem_append.mpr ⟨h.apart, h'.apart⟩⟩
  rw [Hd44780.writes, List.filterMap_append, ← Hd44780.writes, ← Hd44780.writes, h.writes,
    h'.writes, List.flatMap_append]

section Wired

variable (h : Wired lcd)
include h

/-- The samples of the bytes `wr4b` strobes are the halves of the bytes. -/
theorem sample_values (xs : List (BitVec 8 × BitVec 8)) :
    (xs.flatMap fun x => values lcd x.1 x.2).map (sample lcd.conn) =
      (xs.map fun x => (decide (x.2 = 0#8), x.1)).flatMap halves := by
  have hextract : ∀ data : BitVec 8, ((data &&& 0xF0#8) >>> 4).extractLsb' 0 4 =
      data.extractLsb' 4 4 ∧ ((data &&& 0x0F#8) >>> 0).extractLsb' 0 4 = data.extractLsb' 0 4 := by
    decide +kernel
  rw [List.map_flatMap, List.flatMap_map]
  apply List.flatMap_congr
  intro x _
  obtain ⟨hhigh, hlow, -⟩ := nibbles x.1
  obtain ⟨hupper, hlower⟩ := hextract x.1
  simp only [values, List.map_cons, List.map_nil, sample, halves]
  rw [value_select h hhigh, value_select h hlow, value_nibble h, value_nibble h, hupper, hlower]

/-- The display takes the values that are strobed. -/
theorem Strobes.see {calls : List Call} {dats : List (BitVec 8)} (hs : Strobes lcd calls dats)
    (d : Display) (low : Nat → BitVec 4) (before : BitVec 8) :
    d.see lcd.conn low before calls = d.feed low (dats.map (sample lcd.conn)) := by
  rw [Display.see, hs.writes, fallingEdges_strobes h.en.ne_zero hs.apart]

theorem Strobes.see_append {calls calls' : List Call} {dats dats' : List (BitVec 8)}
    (hs : Strobes lcd calls dats) (hs' : Strobes lcd calls' dats') (d : Display)
    (low : Nat → BitVec 4) (before : BitVec 8) :
    d.see lcd.conn low before (calls ++ calls') =
      (d.see lcd.conn low before calls).see lcd.conn (fun n => low (dats.length + n)) 0#8
        calls' := by
  rw [(hs.append hs').see h, hs.see h, hs'.see h, List.map_append, Display.feed_append,
    List.length_map]

theorem Sends.strobes {calls : List Call} {xs : List (BitVec 8 × BitVec 8)}
    (hsends : Sends lcd calls xs) : Strobes lcd calls (xs.flatMap fun x => values lcd x.1 x.2) :=
  ⟨hsends, values_apart h xs⟩

/-- A display in 4-bit mode executes the bytes that the calls send. -/
theorem see_of_sends {calls : List Call} {xs : List (BitVec 8 × BitVec 8)}
    (hsends : Sends lcd calls xs) (hd : d.interface = .four)
    (hxs : ∀ x ∈ xs, KeepsMode (decide (x.2 = 0#8), x.1)) (before : BitVec 8) :
    d.see lcd.conn low before calls =
      (xs.map fun x => (decide (x.2 = 0#8), x.1)).foldl Display.execute d := by
  rw [(hsends.strobes h).see h, sample_values h]
  exact (Display.feed_halves hd (List.forall_mem_map.mpr hxs)).1

/-- The samples of the calls that only strobe a nibble. -/
theorem sample_nibble {n : BitVec 8} (hn : n &&& 0x0F#8 = n) :
    Apart (n <<< lcd.conn.dataShift.toNat) lcd.conn.enPin ∧
      sample lcd.conn (n <<< lcd.conn.dataShift.toNat) = (false, n.extractLsb' 0 4) := by
  obtain ⟨-, hrsData, henData, -, -, -⟩ := h.pins
  refine ⟨data_apart hn henData, Prod.ext ?_ ?_⟩
  · simp [sample, select, show _ &&& _ = _ from data_apart hn hrsData]
  · have hshift := h.shift
    apply BitVec.eq_of_getLsbD_eq
    intro i hi
    have hbound : lcd.conn.dataShift.toNat + i < 8 := by omega
    simp only [sample, nibble, BitVec.getLsbD_extractLsb', BitVec.getLsbD_shiftLeft, hi, hbound,
      decide_true, Nat.not_lt.mpr (Nat.le_add_right _ _), decide_false, Bool.not_false,
      Bool.true_and, Nat.add_sub_cancel_left, Nat.zero_add]

end Wired

/-! ## Initialising -/

/-- The nibbles `3`, `3`, `3`, `2`. -/
def wakeUp : List (Bool × BitVec 4) := [(false, 3), (false, 3), (false, 3), (false, 2)]

/-- A display that takes a `3` in 8-bit mode stays in it. -/
theorem latch_three (hd : d.interface = .eight) (low : BitVec 4) :
    (d.latch (false, 3) low).interface = .eight := by
  have hbyte : (3#4 ++ low : BitVec 8).getLsbD 7 = false ∧
      (3#4 ++ low : BitVec 8).getLsbD 6 = false ∧ (3#4 ++ low : BitVec 8).getLsbD 5 = true ∧
      (3#4 ++ low : BitVec 8).getLsbD 4 = true := by
    revert low
    decide
  obtain ⟨h7, h6, h5, h4⟩ := hbyte
  rw [Display.latch_of_eight hd]
  exact (Display.instruct_functionSet h7 h6 h5).trans (by rw [h4]; rfl)

theorem latch_two (hd : d.interface = .eight) (low : BitVec 4) :
    (d.latch (false, 2) low).interface = .four := by
  have hbyte : (2#4 ++ low : BitVec 8).getLsbD 7 = false ∧
      (2#4 ++ low : BitVec 8).getLsbD 6 = false ∧ (2#4 ++ low : BitVec 8).getLsbD 5 = true ∧
      (2#4 ++ low : BitVec 8).getLsbD 4 = false := by
    revert low
    decide
  obtain ⟨h7, h6, h5, h4⟩ := hbyte
  rw [Display.latch_of_eight hd]
  exact (Display.instruct_functionSet h7 h6 h5).trans (by rw [h4]; rfl)

/-- Two `3` take a display that is between two bytes to 8-bit mode. -/
theorem latch_three_twice (hd : d.interface = .four) (low low' : BitVec 4) :
    ((d.latch (false, 3) low).latch (false, 3) low').interface = .eight := by
  rw [Display.latch_of_four hd, Display.latch_of_second rfl]
  rfl

/-- Behind the second half of a byte a display is in one of the modes, between two bytes. -/
theorem latch_second {high : BitVec 4} (hd : d.interface = .second high)
    (x : Bool × BitVec 4) (low : BitVec 4) :
    (d.latch x low).interface = .eight ∨ (d.latch x low).interface = .four := by
  rw [Display.latch_of_second hd]
  by_cases hkeeps : KeepsMode (x.1, high ++ x.2)
  · exact .inr (Display.execute_interface rfl hkeeps)
  · left
    simp only [KeepsMode, Classical.not_imp, Bool.not_eq_false] at hkeeps
    obtain ⟨hrs, h7, h6, h5, h4⟩ := hkeeps
    have hset : ({ d with interface := .four } : Display).execute (x.1, high ++ x.2) =
        ({ d with interface := .four } : Display).instruct (high ++ x.2) := by
      rw [Display.execute, hrs]
      rfl
    rw [hset, Display.instruct_functionSet h7 h6 h5, if_pos h4]

/-- **The four nibbles bring the display into step**, whatever mode it is in and whatever
is on the lines that are not connected. -/
theorem wakeUp_interface (d : Display) (low : Nat → BitVec 4) :
    (d.feed low wakeUp).interface = .four := by
  simp only [wakeUp, Display.feed]
  cases hd : d.interface with
  | eight => exact latch_two (latch_three (latch_three (latch_three hd _) _) _) _
  | four => exact latch_two (latch_three (latch_three_twice hd _ _) _) _
  | second high =>
    rcases latch_second hd (false, 3) (low 0) with height | hfour
    · exact latch_two (latch_three (latch_three height _) _) _
    · exact latch_two (latch_three_twice hfour _ _) _

/-- A blank display that is ready for text. -/
structure Ready (d : Display) : Prop where
  interface : d.interface = .four
  twoLines : d.twoLines = true
  increment : d.increment = true
  on : d.on = true
  address : d.address = .ddram 0
  blank : ∀ a, d.ddram a = 0x20

/-- The values of the four nibbles. -/
def wakeUpValues (conn : Conn) : List (BitVec 8) :=
  [0x03#8 <<< conn.dataShift.toNat, 0x03#8 <<< conn.dataShift.toNat,
    0x03#8 <<< conn.dataShift.toNat, 0x02#8 <<< conn.dataShift.toNat]

/-- The commands behind the nibbles. -/
def commands (lcd : Lcd) (type : LcdType) : List (BitVec 8 × BitVec 8) :=
  (0x28#8 ||| lcd.font.code, 1#8) ::
    match type with
    | .lcd => [(0x02#8, 1#8), (0x01#8, 1#8), (0x0C#8, 1#8)]
    -- to a display without a power of its own, `0x17` is a shift of the cursor
    | .oled => [(0x08#8, 1#8), (0x06#8, 1#8), (0x17#8, 1#8), (0x01#8, 1#8), (0x02#8, 1#8),
        (0x0C#8, 1#8)]

section Wired

variable (h : Wired lcd)
include h

theorem sample_wakeUpValues : (wakeUpValues lcd.conn).map (sample lcd.conn) = wakeUp := by
  simp only [wakeUpValues, List.map_cons, List.map_nil,
    (sample_nibble h (n := 0x03#8) (by decide)).2, (sample_nibble h (n := 0x02#8) (by decide)).2]
  rfl

theorem strobes_init (type : LcdType) : Strobes lcd (init lcd type)
    (wakeUpValues lcd.conn ++ (commands lcd type).flatMap fun x => values lcd x.1 x.2) := by
  have hwake : Strobes lcd (writeToBus lcd (0x03#8 <<< lcd.conn.dataShift.toNat) ++
      writeToBus lcd (0x03#8 <<< lcd.conn.dataShift.toNat) ++
      writeToBus lcd (0x03#8 <<< lcd.conn.dataShift.toNat) ++
      writeToBus lcd (0x02#8 <<< lcd.conn.dataShift.toNat) ++ [.delayUs lcdDelayHigh])
      (wakeUpValues lcd.conn) := by
    have hthree := (sample_nibble h (n := 0x03#8) (by decide)).1
    have htwo := (sample_nibble h (n := 0x02#8) (by decide)).1
    refine ⟨rfl, ?_⟩
    simpa [wakeUpValues] using ⟨hthree, htwo⟩
  have hset : Sends lcd (wr lcd (0x28#8 ||| lcd.font.code) 1#8)
      [(0x28#8 ||| lcd.font.code, 1#8)] := sends_wr h.bus (by decide) _
  have hclear : Sends lcd (wrCmd lcd 0x01#8 ++ [.delayUs lcdDelayHigh]) [(0x01#8, 1#8)] :=
    (sends_wrCmd h.bus _).pause lcdDelayHigh
  have hcmd (cmd : BitVec 8) : Sends lcd (wrCmd lcd cmd) [(cmd, 1#8)] := sends_wrCmd h.bus cmd
  unfold init
  rw [if_pos h.bus, init4B]
  cases type with
  | lcd =>
    have hsends : Sends lcd _ (commands lcd .lcd) :=
      hset.append ((hcmd 0x02#8).append (hclear.append (hcmd 0x0C#8)))
    simpa only [List.append_assoc] using hwake.append (hsends.strobes h)
  | oled =>
    have hsends : Sends lcd _ (commands lcd .oled) :=
      hset.append ((hcmd 0x08#8).append ((hcmd 0x06#8).append ((hcmd 0x17#8).append
        (hclear.append ((hcmd 0x02#8).append (hcmd 0x0C#8))))))
    simpa only [List.append_assoc] using hwake.append (hsends.strobes h)

/-- The display behind `hd44780_init`, in the mode that the wake-up has given it. -/
theorem ready_init (d : Display) (low : Nat → BitVec 4) (before : BitVec 8) (type : LcdType) :
    Ready (d.see lcd.conn low before (init lcd type)) := by
  have hkeeps : ∀ x ∈ (commands lcd type).map fun x => (decide (x.2 = 0#8), x.1),
      KeepsMode x := by
    unfold commands
    cases type <;> cases lcd.font <;> decide +kernel
  obtain ⟨hfeed, hmode⟩ := @Display.feed_halves _ (fun n => low (wakeUp.length + n)) _
    (wakeUp_interface d low) hkeeps
  rw [(strobes_init h type).see h, List.map_append, sample_wakeUpValues h, sample_values h,
    Display.feed_append, hfeed]
  refine ⟨hmode, ?_, ?_, ?_, ?_, ?_⟩
  all_goals
    unfold commands
    cases type <;> cases lcd.font <;>
      simp [Display.execute, Display.instruct, FontTable.code]

/-- **Initialising.** In a connection without overlaps, `hd44780_init` makes a display of
either type blank and ready for text: whatever the port held, in whatever mode the display was,
also when it had taken the first half of a byte, whatever is in its memory and on the lines that
are not connected. -/
theorem init_ready (d : Display) (low : Nat → BitVec 4) (before : BitVec 8) (type : LcdType) :
    Ready (d.see lcd.conn low before (init lcd type)) :=
  ready_init h d low before type

end Wired

/-- A display in the middle of a byte, with something in its memory. -/
def halfway : Display := ⟨.second 5, false, false, false, .cgram 0x13, fun _ => 0, fun _ => 0⟩

/-- An OLED on the board with a `PCF8574`, with the strobe high at the beginning. -/
theorem init_ready_halfway :
    let lcd : Lcd := ⟨1, .englishRussianFont, pcf8574Con, none⟩
    Ready (halfway.see lcd.conn (fun _ => 0xF) 0xFF#8 (init lcd .oled)) :=
  init_ready (wired_of_conn (Or.inl rfl) rfl) halfway (fun _ => 0xF) 0xFF#8 .oled

end MyLibraries.Hd44780
