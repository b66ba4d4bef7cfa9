import MyLibraries.Hd44780.Model

/-!
# Text on the port of the `HD44780` driver

A display in 4-bit mode takes the register select and a nibble over at each falling edge of
the enable pin, and puts two nibbles together (`receive`). For a connection whose pins do
not overlap it gets the bytes that the driver was given, each with its register select
(`Sends.decodes`); for `hd44780_print` these are the translated characters of the string,
and the command `0xC0` for a newline (`print_decodes`).
-/

namespace MyLibraries.Hd44780

open Strobe

/-- The four data lines. -/
def dataLines (conn : Conn) : BitVec 8 := 0x0F#8 <<< conn.dataShift.toNat

/-- The lines of the port, by their use. -/
def masks (lcd : Lcd) : List (BitVec 8) :=
  [lcd.conn.rsPin, lcd.conn.enPin, lcd.conn.backlightPin, dataLines lcd.conn] ++
    match lcd.extCon with
    | some ext => [ext.extPin0, ext.extPin1]
    | none => []

/-- The pin is one line of the port. -/
def SinglePin (pin : BitVec 8) : Prop := ∃ i, i < 8 ∧ pin = 1#8 <<< i

/-- A 4-bit connection without overlaps. -/
structure Wired (lcd : Lcd) : Prop where
  bus : lcd.conn.busType = .bus4B
  shift : lcd.conn.dataShift.toNat ≤ 4
  rs : SinglePin lcd.conn.rsPin
  en : SinglePin lcd.conn.enPin
  apart : (masks lcd).Pairwise Apart

/-- The values of the port. -/
def writes (calls : List Call) : List (BitVec 8) :=
  calls.filterMap fun
    | .write data => some data
    | _ => none

/-- The register select and the nibble in a value of the port. -/
def select (conn : Conn) (v : BitVec 8) : Bool := decide (v &&& conn.rsPin ≠ 0#8)

def nibble (conn : Conn) (v : BitVec 8) : BitVec 4 := v.extractLsb' conn.dataShift.toNat 4

/-- The bytes in the values at the falling edges, with their register select; the two
nibbles of a byte have the same one. -/
def receive (conn : Conn) : List (BitVec 8) → Option (List (Bool × BitVec 8))
  | [] => some []
  | [_] => none
  | v :: u :: vs =>
    if select conn v = select conn u then
      (receive conn vs).map ((select conn v, nibble conn v ++ nibble conn u) :: ·)
    else none

/-- The values that `wr4b` strobes. -/
def values (lcd : Lcd) (data cmd : BitVec 8) : List (BitVec 8) :=
  [latch lcd cmd ||| ((data &&& 0xF0#8) >>> 4) <<< lcd.conn.dataShift.toNat,
    latch lcd cmd ||| ((data &&& 0x0F#8) >>> 0) <<< lcd.conn.dataShift.toNat]

/-- What `hd44780_put_char` writes for a character: the byte and its `cmd`. -/
def written (lcd : Lcd) (c : BitVec 8) : BitVec 8 × BitVec 8 :=
  if c = 0x0A#8 then (0xC0#8, 1#8) else (translate lcd c, 0#8)

/-- The calls strobe the bytes `xs`, each with its `cmd`. -/
def Sends (lcd : Lcd) (calls : List Call) (xs : List (BitVec 8 × BitVec 8)) : Prop :=
  writes calls = (xs.flatMap fun x => values lcd x.1 x.2).flatMap (strobe lcd.conn.enPin)

/-- The lines of the backlight and of the extension. -/
def extras (lcd : Lcd) : BitVec 8 :=
  (if lcd.isBacklightEnabled ≠ 0#8 then lcd.conn.backlightPin else 0#8) |||
    match lcd.extCon with
    | some ext => ext.extPin0 ||| ext.extPin1
    | none => 0#8

variable {lcd : Lcd} {data cmd n : BitVec 8}

/-! ## The lines of the port -/

theorem SinglePin.ne_zero {pin : BitVec 8} (h : SinglePin pin) : pin ≠ 0#8 := by
  obtain ⟨i, hi, rfl⟩ := h
  revert i
  decide

theorem latch_eq (lcd : Lcd) (cmd : BitVec 8) :
    latch lcd cmd = (if cmd = 0#8 then lcd.conn.rsPin else 0#8) ||| extras lcd := by
  unfold latch extras
  by_cases hback : lcd.isBacklightEnabled ≠ 0#8
  · simp only [if_pos hback]
    cases lcd.extCon with
    | none => rw [BitVec.or_zero]
    | some ext => exact BitVec.or_assoc _ _ _
  · simp only [if_neg hback, BitVec.zero_or]
    cases lcd.extCon with
    | none => rw [BitVec.or_zero]
    | some ext => rfl

theorem extras_apart {m : BitVec 8} (hback : Apart lcd.conn.backlightPin m)
    (hext : ∀ ext, lcd.extCon = some ext → Apart ext.extPin0 m ∧ Apart ext.extPin1 m) :
    Apart (extras lcd) m := by
  rw [extras, apart_or_left]
  constructor
  · split
    · exact hback
    · exact apart_zero_left
  · split
    · rename_i ext hsome
      exact apart_or_left.mpr (hext ext hsome)
    · exact apart_zero_left

/-- The high and the low nibble have four bits and make up the byte. -/
theorem nibbles (data : BitVec 8) :
    ((data &&& 0xF0#8) >>> 4) &&& 0x0F#8 = (data &&& 0xF0#8) >>> 4 ∧
    ((data &&& 0x0F#8) >>> 0) &&& 0x0F#8 = (data &&& 0x0F#8) >>> 0 ∧
    (((data &&& 0xF0#8) >>> 4).extractLsb' 0 4 ++ ((data &&& 0x0F#8) >>> 0).extractLsb' 0 4 :
      BitVec 8) = data := by
  revert data
  decide +kernel

/-- A nibble on the data lines is apart from what the data lines are apart from. -/
theorem data_apart (hn : n &&& 0x0F#8 = n) {m : BitVec 8} (hm : Apart m (dataLines lcd.conn)) :
    Apart (n <<< lcd.conn.dataShift.toNat) m := by
  refine hm.symm.mono ?_
  rw [dataLines, ← BitVec.shiftLeft_and_distrib, hn]

/-- The two connections that the driver brings along are without overlaps. -/
theorem wired_of_conn (hconn : lcd.conn = pcf8574Con ∨ lcd.conn = mc74hC595Con)
    (hext : lcd.extCon = none) : Wired lcd := by
  rcases hconn with hconn | hconn
  · refine ⟨by rw [hconn]; rfl, by rw [hconn]; decide, ⟨0, by decide, by rw [hconn]; rfl⟩,
      ⟨2, by decide, by rw [hconn]; rfl⟩, ?_⟩
    rw [masks, dataLines, hconn, hext]
    decide
  · refine ⟨by rw [hconn]; rfl, by rw [hconn]; decide, ⟨2, by decide, by rw [hconn]; rfl⟩,
      ⟨3, by decide, by rw [hconn]; rfl⟩, ?_⟩
    rw [masks, dataLines, hconn, hext]
    decide

section Wired

variable (h : Wired lcd)
include h

theorem Wired.pins :
    Apart lcd.conn.rsPin lcd.conn.enPin ∧ Apart lcd.conn.rsPin (dataLines lcd.conn) ∧
      Apart lcd.conn.enPin (dataLines lcd.conn) ∧ Apart (extras lcd) lcd.conn.rsPin ∧
      Apart (extras lcd) lcd.conn.enPin ∧ Apart (extras lcd) (dataLines lcd.conn) := by
  have hpairs := h.apart
  simp only [masks, List.cons_append, List.nil_append, List.pairwise_cons, List.mem_cons,
    forall_eq_or_imp] at hpairs
  obtain ⟨⟨hrsEn, hrsBack, hrsData, hrsExt⟩, ⟨henBack, henData, henExt⟩, ⟨hbackData, -⟩,
    hdataExt, -⟩ := hpairs
  have hext (m : BitVec 8) (hm : ∀ e ∈ (match lcd.extCon with
      | some ext => [ext.extPin0, ext.extPin1]
      | none => []), Apart m e) (ext : ExtCon) (hsome : lcd.extCon = some ext) :
      Apart ext.extPin0 m ∧ Apart ext.extPin1 m := by
    rw [hsome] at hm
    exact ⟨(hm ext.extPin0 (by simp)).symm, (hm ext.extPin1 (by simp)).symm⟩
  exact ⟨hrsEn, hrsData, henData, extras_apart hrsBack.symm (hext _ hrsExt),
    extras_apart henBack.symm (hext _ henExt), extras_apart hbackData (hext _ hdataExt)⟩

/-- What `wr4b` puts on the port leaves the strobe alone. -/
theorem value_apart (hn : n &&& 0x0F#8 = n) (cmd : BitVec 8) :
    Apart (latch lcd cmd ||| n <<< lcd.conn.dataShift.toNat) lcd.conn.enPin := by
  obtain ⟨hrsEn, -, henData, -, hextEn, -⟩ := h.pins
  rw [latch_eq, apart_or_left, apart_or_left]
  refine ⟨⟨?_, hextEn⟩, data_apart hn henData⟩
  split
  · exact hrsEn
  · exact apart_zero_left

/-- Its register select is high for data. -/
theorem value_select (hn : n &&& 0x0F#8 = n) (cmd : BitVec 8) :
    select lcd.conn (latch lcd cmd ||| n <<< lcd.conn.dataShift.toNat) = decide (cmd = 0#8) := by
  obtain ⟨-, hrsData, -, hextRs, -, -⟩ := h.pins
  have hlines : (latch lcd cmd ||| n <<< lcd.conn.dataShift.toNat) &&& lcd.conn.rsPin =
      (if cmd = 0#8 then lcd.conn.rsPin else 0#8) &&& lcd.conn.rsPin := by
    rw [BitVec.or_comm, (data_apart hn hrsData).or_and, latch_eq, BitVec.or_comm,
      hextRs.or_and]
  rw [select, hlines]
  split
  · rename_i hcmd
    simp [hcmd, h.rs.ne_zero]
  · rename_i hcmd
    simp [hcmd]

/-- Its data lines hold the nibble. -/
theorem value_nibble (n cmd : BitVec 8) :
    nibble lcd.conn (latch lcd cmd ||| n <<< lcd.conn.dataShift.toNat) = n.extractLsb' 0 4 := by
  obtain ⟨-, hrsData, -, -, -, hextData⟩ := h.pins
  have hshift := h.shift
  have hlatch : Apart (latch lcd cmd) (dataLines lcd.conn) := by
    rw [latch_eq, apart_or_left]
    refine ⟨?_, hextData⟩
    split
    · exact hrsData
    · exact apart_zero_left
  apply BitVec.eq_of_getLsbD_eq
  intro i hi
  have hmask : (0x0F#8).getLsbD i = true := by
    revert i
    decide
  have hclear := congrArg (fun v => v.getLsbD (lcd.conn.dataShift.toNat + i)) hlatch
  simp only [dataLines, BitVec.getLsbD_and, BitVec.getLsbD_shiftLeft, BitVec.getLsbD_zero,
    Nat.add_sub_cancel_left, hmask] at hclear
  have hbound : lcd.conn.dataShift.toNat + i < 8 := by omega
  simp only [hbound, decide_true, Nat.not_lt.mpr (Nat.le_add_right _ _), decide_false,
    Bool.not_false, Bool.and_true] at hclear
  simp only [nibble, BitVec.getLsbD_extractLsb', BitVec.getLsbD_or, BitVec.getLsbD_shiftLeft,
    hclear, hi, hbound, decide_true, Nat.not_lt.mpr (Nat.le_add_right _ _), decide_false,
    Bool.not_false, Bool.true_and, Bool.false_or, Nat.add_sub_cancel_left, Nat.zero_add]

/-! ## Bytes -/

/-- **A display gets the bytes that are written**, each with its register select. -/
theorem receive_values (xs : List (BitVec 8 × BitVec 8)) :
    receive lcd.conn (xs.flatMap fun x => values lcd x.1 x.2) =
      some (xs.map fun x => (decide (x.2 = 0#8), x.1)) := by
  induction xs with
  | nil => rfl
  | cons x xs ih =>
    obtain ⟨hhigh, hlow, hbyte⟩ := nibbles x.1
    simp only [List.flatMap_cons, values, List.cons_append, List.nil_append, receive,
      List.map_cons]
    rw [value_select h hhigh, value_select h hlow, if_pos rfl, value_nibble h, value_nibble h,
      hbyte]
    exact congrArg _ ih

theorem values_apart (xs : List (BitVec 8 × BitVec 8)) :
    ∀ dat ∈ xs.flatMap (fun x => values lcd x.1 x.2), Apart dat lcd.conn.enPin := by
  intro dat hdat
  obtain ⟨x, -, hx⟩ := List.mem_flatMap.mp hdat
  obtain ⟨hhigh, hlow, -⟩ := nibbles x.1
  simp only [values, List.mem_cons, List.not_mem_nil, or_false] at hx
  rcases hx with rfl | rfl
  · exact value_apart h hhigh x.2
  · exact value_apart h hlow x.2

/-- What the display gets from calls that send the bytes `xs`. -/
theorem Sends.decodes {calls : List Call} {xs : List (BitVec 8 × BitVec 8)}
    (hsends : Sends lcd calls xs) (before : BitVec 8) :
    receive lcd.conn (fallingEdges lcd.conn.enPin (before :: writes calls)) =
      some (xs.map fun x => (decide (x.2 = 0#8), x.1)) ∧
    Stable lcd.conn.enPin (lcd.conn.rsPin ||| dataLines lcd.conn) (writes calls) := by
  obtain ⟨hrsEn, -, henData, -⟩ := h.pins
  have hapart := values_apart h xs
  rw [hsends]
  constructor
  · rw [fallingEdges_strobes h.en.ne_zero hapart, receive_values h]
  · exact stable_strobes (apart_or_left.mpr ⟨hrsEn, henData.symm⟩).symm hapart

end Wired

/-! ## What the functions of the driver send -/

section Sends

variable {calls calls' : List Call} {xs ys : List (BitVec 8 × BitVec 8)}

theorem Sends.append (h : Sends lcd calls xs) (h' : Sends lcd calls' ys) :
    Sends lcd (calls ++ calls') (xs ++ ys) := by
  rw [Sends, writes, List.filterMap_append, ← writes, ← writes, h, h', List.flatMap_append,
    List.flatMap_append]

theorem sends_flatMap {β : Type} {f : β → List Call} {g : β → BitVec 8 × BitVec 8}
    (h : ∀ b, Sends lcd (f b) [g b]) (bs : List β) : Sends lcd (bs.flatMap f) (bs.map g) := by
  induction bs with
  | nil => rfl
  | cons b bs ih => exact (h b).append ih

variable (hbus : lcd.conn.busType = .bus4B)
include hbus

theorem sends_wr (hcmd : cmd ≠ nopData) (data : BitVec 8) :
    Sends lcd (wr lcd data cmd) [(data, cmd)] := by
  rw [wr, hbus]
  simp only [wr4b, if_neg hcmd]
  rfl

theorem sends_wrCmd (cmd : BitVec 8) : Sends lcd (wrCmd lcd cmd) [(cmd, 1#8)] :=
  (sends_wr hbus (by decide) cmd).append rfl

theorem sends_putChar (c : BitVec 8) : Sends lcd (putChar lcd c) [written lcd c] := by
  unfold putChar written
  split
  · exact sends_wrCmd hbus _
  · exact sends_wr hbus (by decide) _

theorem sends_print (string : CString) :
    Sends lcd (print lcd string) (string.1.map (written lcd)) :=
  sends_flatMap (sends_putChar hbus) string.1

/-- A custom character: its address, its eight rows as data, then the cursor home. -/
theorem sends_customChar (num : BitVec 8) (data : Vector (BitVec 8) 8) :
    Sends lcd (customChar lcd num data)
      ([(0x40#8 + num * 8#8, 1#8)] ++ data.toList.map (fun byte => (byte, 0#8)) ++
        [(0x02#8, 1#8)]) :=
  ((sends_wr hbus (by decide) _).append
    (sends_flatMap (fun byte => sends_wr hbus (by decide) byte) data.toList)).append
    (sends_wrCmd hbus _)

end Sends

/-- **The display gets the text**, whatever the port held before, and the register select
and the data lines are stable while the strobe is high. -/
theorem print_decodes (h : Wired lcd) (string : CString) (before : BitVec 8) :
    receive lcd.conn (fallingEdges lcd.conn.enPin (before :: writes (print lcd string))) =
      some (string.1.map fun c =>
        if c = 0x0A#8 then (false, 0xC0#8) else (true, translate lcd c)) ∧
    Stable lcd.conn.enPin (lcd.conn.rsPin ||| dataLines lcd.conn)
      (writes (print lcd string)) := by
  obtain ⟨hreceive, hstable⟩ := (sends_print h.bus string).decodes h before
  refine ⟨?_, hstable⟩
  rw [hreceive, List.map_map]
  congr 1
  apply List.map_congr_left
  intro c _
  simp only [Function.comp_apply, written]
  split <;> rfl

/-- Three characters of the Russian font and a newline, on the board with a `PCF8574`. -/
theorem print_decodes_pcf8574 :
    let lcd : Lcd := ⟨1, .englishRussianFont, pcf8574Con, none⟩
    let string : CString := ⟨[0x48#8, 0xC1#8, 0x0A#8, 0xFF#8], by decide⟩
    receive lcd.conn (fallingEdges lcd.conn.enPin (0#8 :: writes (print lcd string))) =
      some [(true, 0x48#8), (true, 0xA0#8), (false, 0xC0#8), (true, 0xC7#8)] ∧
    Stable lcd.conn.enPin (lcd.conn.rsPin ||| dataLines lcd.conn)
      (writes (print lcd string)) := by
  intro lcd string
  have h : Wired lcd := wired_of_conn (Or.inl rfl) rfl
  have htext : string.1.map (fun c =>
      if c = 0x0A#8 then (false, 0xC0#8) else (true, translate lcd c)) =
      [(true, 0x48#8), (true, 0xA0#8), (false, 0xC0#8), (true, 0xC7#8)] := by decide
  rw [← htext]
  exact print_decodes h string 0#8

end MyLibraries.Hd44780
