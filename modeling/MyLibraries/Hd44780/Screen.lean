import MyLibraries.Hd44780.Display

/-!
# Text on the screen

What a program can say about the display without its instructions: two lines of 40
characters, a cursor, and eight custom characters of eight rows. Each function of the
driver has its meaning there (`Screen.apply`), and a display in the state that
`hd44780_init` leaves shows what the functions mean, call after call (`session_shows`).
-/

namespace MyLibraries.Hd44780

open Strobe

/-! ## The screen -/

/-- A place on the screen; `true` is the second line. -/
abbrev Place := Bool × Fin 40

structure Screen where
  cell : Place → BitVec 8
  cursor : Place
  glyph : Fin 8 → Fin 8 → BitVec 8

/-- What a program calls. -/
inductive Request
  | setPos (row col : BitVec 8)
  | putChar (c : BitVec 8)
  | print (string : CString)
  | clear
  | customChar (num : BitVec 8) (data : Vector (BitVec 8) 8)

/-- The cursor in a column of the line, and a number of a custom character. -/
def Request.Valid : Request → Prop
  | .setPos _ col => col.toNat < 40
  | .customChar num _ => num.toNat < 8
  | _ => True

instance : DecidablePred Request.Valid
  | .setPos _ col => inferInstanceAs (Decidable (col.toNat < 40))
  | .customChar num _ => inferInstanceAs (Decidable (num.toNat < 8))
  | .putChar _ | .print _ | .clear => .isTrue trivial

def Request.calls (lcd : Lcd) : Request → List Call
  | .setPos row col => Hd44780.setPos lcd row col
  | .putChar c => Hd44780.putChar lcd c
  | .print string => Hd44780.print lcd string
  | .clear => Hd44780.clear lcd
  | .customChar num data => Hd44780.customChar lcd num data

/-- The place behind another: behind the end of a line is the other line. -/
def Place.succ (p : Place) : Place :=
  if h : p.2.val + 1 < 40 then (p.1, ⟨p.2.val + 1, h⟩) else (!p.1, 0)

namespace Screen

/-- A character, or the beginning of the second line for a newline. -/
def putChar (translate : BitVec 8 → BitVec 8) (s : Screen) (c : BitVec 8) : Screen :=
  if c = 0x0A#8 then { s with cursor := (true, 0) }
  else { s with cell := Function.update s.cell s.cursor (translate c), cursor := s.cursor.succ }

/-- What a function means. -/
def apply (translate : BitVec 8 → BitVec 8) (s : Screen) : Request → Screen
  | .setPos row col => { s with cursor := (decide (row ≠ 0#8), Fin.ofNat 40 col.toNat) }
  | .putChar c => s.putChar translate c
  | .print string => string.1.foldl (putChar translate) s
  | .clear => { s with cell := fun _ => 0x20, cursor := (false, 0) }
  | .customChar num data =>
    { s with
      glyph := Function.update s.glyph (Fin.ofNat 8 num.toNat) data.get
      cursor := (false, 0) }

end Screen

/-! ## The screen in the display -/

/-- The address of a place. -/
def Place.address (p : Place) : BitVec 7 := (if p.1 then 0x40#7 else 0#7) + BitVec.ofNat 7 p.2.val

/-- The address of a row of a custom character. -/
def rowAddress (num row : Fin 8) : BitVec 6 := BitVec.ofNat 6 (8 * num.val + row.val)

/-- The display holds the screen. -/
structure Holds (d : Display) (s : Screen) : Prop where
  interface : d.interface = .four
  twoLines : d.twoLines = true
  increment : d.increment = true
  address : d.address = .ddram s.cursor.address
  cell : ∀ p : Place, d.ddram p.address = s.cell p
  glyph : ∀ num row, d.cgram (rowAddress num row) = s.glyph num row

/-- A blank screen with the custom characters of a display. -/
def Screen.blank (d : Display) : Screen where
  cell := fun _ => 0x20
  cursor := (false, 0)
  glyph := fun num row => d.cgram (rowAddress num row)

variable {lcd : Lcd} {d : Display} {s : Screen}

theorem Place.toNat_address (p : Place) :
    p.address.toNat = (if p.1 then 64 else 0) + p.2.val := by
  obtain ⟨line, col⟩ := p
  have := col.isLt
  cases line <;> simp [address] <;> omega

theorem Place.address_injective : Function.Injective Place.address := by
  intro p q h
  have hnat := congrArg BitVec.toNat h
  rw [toNat_address, toNat_address] at hnat
  obtain ⟨line, col⟩ := p
  obtain ⟨line', col'⟩ := q
  have := col.isLt
  have := col'.isLt
  cases line <;> cases line' <;> simp at hnat ⊢ <;> omega

/-- The address that follows a place is that of the place behind it. -/
theorem next_address (p : Place) : Display.next true true p.address = p.succ.address := by
  obtain ⟨line, col⟩ := p
  revert line col
  decide +kernel

theorem holds_blank (h : Ready d) : Holds d (.blank d) where
  interface := h.interface
  twoLines := h.twoLines
  increment := h.increment
  address := h.address
  cell := fun _ => h.blank _
  glyph := fun _ _ => rfl

/-! ## Bytes -/

/-- A character is stored at the cursor. -/
theorem Holds.store (h : Holds d s) (byte : BitVec 8) :
    Holds (d.execute (true, byte))
      { s with cell := Function.update s.cell s.cursor byte, cursor := s.cursor.succ } := by
  have hstore : d.execute (true, byte) = { d with
      ddram := Function.update d.ddram s.cursor.address byte
      address := .ddram s.cursor.succ.address } := by
    rw [← next_address]
    simp [Display.execute, Display.store, Display.move, h.address, h.twoLines, h.increment]
  rw [hstore]
  refine ⟨h.interface, h.twoLines, h.increment, rfl, fun p => ?_, h.glyph⟩
  by_cases hp : p = s.cursor
  · simp [hp]
  · have haddress := Place.address_injective.ne hp
    simpa [hp, haddress] using h.cell p

/-- The address of a place sets the cursor. -/
theorem Holds.place (h : Holds d s) (p : Place) {byte : BitVec 8}
    (hbyte : byte = 0x80#8 ||| p.address.setWidth 8) :
    Holds (d.execute (false, byte)) { s with cursor := p } := by
  have hbits : byte.getLsbD 7 = true ∧ byte.setWidth 7 = p.address := by
    rw [hbyte]
    generalize p.address = a
    revert a
    decide
  have hset : d.execute (false, byte) = { d with address := .ddram p.address } := by
    simp only [Display.execute, Display.instruct]
    rw [if_pos hbits.1, hbits.2]
    rfl
  rw [hset]
  exact ⟨h.interface, h.twoLines, h.increment, rfl, h.cell, h.glyph⟩

theorem Holds.home (h : Holds d s) :
    Holds (d.execute (false, 0x02#8)) { s with cursor := (false, 0) } :=
  ⟨h.interface, h.twoLines, h.increment, rfl, h.cell, h.glyph⟩

theorem Holds.erase (h : Holds d s) :
    Holds (d.execute (false, 0x01#8)) { s with cell := fun _ => 0x20, cursor := (false, 0) } :=
  ⟨h.interface, h.twoLines, rfl, rfl, fun _ => rfl, h.glyph⟩

/-- The rows of a custom character go to neighbouring addresses. -/
theorem Display.store_rows (hinc : d.increment = true) {a : BitVec 6}
    (ha : d.address = .cgram a) {bytes : List (BitVec 8)} (hlen : bytes.length ≤ 64) :
    (bytes.map fun byte => (true, byte)).foldl execute d =
      { d with
        address := .cgram (a + BitVec.ofNat 6 bytes.length)
        cgram := fun b => bytes[(b - a).toNat]?.getD (d.cgram b) } := by
  induction bytes generalizing d a with
  | nil =>
    simp only [List.map_nil, List.foldl_nil, List.length_nil, List.getElem?_nil,
      Option.getD_none, BitVec.add_zero]
    rw [← ha]
  | cons byte bytes ih =>
    have hstore : d.execute (true, byte) =
        { d with address := .cgram (a + 1), cgram := Function.update d.cgram a byte } := by
      simp [execute, store, move, ha, hinc]
    have hrest : bytes.length ≤ 63 := by
      rw [List.length_cons] at hlen
      omega
    have hrows := ih
      (d := { d with address := .cgram (a + 1), cgram := Function.update d.cgram a byte })
      hinc rfl (by omega)
    rw [List.map_cons, List.foldl_cons, hstore, hrows]
    have haddress : a + 1 + BitVec.ofNat 6 bytes.length =
        a + BitVec.ofNat 6 (bytes.length + 1) := by
      rw [BitVec.add_assoc, BitVec.add_comm 1, BitVec.ofNat_add]
      rfl
    have hcell (b : BitVec 6) : bytes[(b - (a + 1)).toNat]?.getD
        (Function.update d.cgram a byte b) = (byte :: bytes)[(b - a).toNat]?.getD (d.cgram b) := by
      by_cases hb : b = a
      · have hlast : ∀ a : BitVec 6, (a - (a + 1)).toNat = 63 := by decide
        rw [hb, hlast, List.getElem?_eq_none hrest, Function.update_self]
        simp
      · have hstep : (b - a).toNat = (b - (a + 1)).toNat + 1 := by
          have hne : b.toNat ≠ a.toNat := fun h => hb (BitVec.eq_of_toNat_eq h)
          have := a.isLt
          have := b.isLt
          have hone : (1 : BitVec 6).toNat = 1 := rfl
          simp only [BitVec.toNat_sub, BitVec.toNat_add, hone]
          omega
        rw [hstep, List.getElem?_cons_succ, Function.update_of_ne hb]
    rw [List.length_cons, haddress]
    simp only [hcell]

/-! ## Requests -/

/-- The bytes of a request, each with its `cmd`. -/
def Request.bytes (lcd : Lcd) : Request → List (BitVec 8 × BitVec 8)
  | .setPos row col => [((if row ≠ 0#8 then 0x80#8 ||| 0x40#8 else 0x80#8) ||| col, 1#8)]
  | .putChar c => [written lcd c]
  | .print string => string.1.map (written lcd)
  | .clear => [(0x01#8, 1#8), (0x02#8, 1#8)]
  | .customChar num data =>
    [(0x40#8 + num * 8#8, 1#8)] ++ data.toList.map (fun byte => (byte, 0#8)) ++ [(0x02#8, 1#8)]

theorem sends_request (hbus : lcd.conn.busType = .bus4B) (r : Request) :
    Sends lcd (r.calls lcd) (r.bytes lcd) := by
  cases r with
  | setPos row col => exact sends_wrCmd hbus _
  | putChar c => exact sends_putChar hbus c
  | print string => exact sends_print hbus string
  | clear =>
    have hpause (cmd : BitVec 8) : Sends lcd (wrCmd lcd cmd ++ [.delayUs lcdDelayHigh])
        [(cmd, 1#8)] := (sends_wrCmd hbus cmd).pause lcdDelayHigh
    have hclear := (hpause 0x01#8).append (hpause 0x02#8)
    unfold Request.calls Hd44780.clear
    rw [List.append_assoc (wrCmd lcd _ ++ _)]
    exact hclear
  | customChar num data => exact sends_customChar hbus num data

theorem sends_requests (hbus : lcd.conn.busType = .bus4B) (rs : List Request) :
    Sends lcd (rs.flatMap (Request.calls lcd)) (rs.flatMap (Request.bytes lcd)) := by
  induction rs with
  | nil => rfl
  | cons r rs ih => exact (sends_request hbus r).append ih

/-- The display's side of a request. -/
def Request.commands (lcd : Lcd) (r : Request) : List (Bool × BitVec 8) :=
  (r.bytes lcd).map fun x => (decide (x.2 = 0#8), x.1)

theorem Holds.written (h : Holds d s) (c : BitVec 8) :
    Holds (d.execute (decide ((written lcd c).2 = 0#8), (Hd44780.written lcd c).1))
      (s.putChar (translate lcd) c) := by
  unfold Hd44780.written Screen.putChar
  by_cases hc : c = 0x0A#8
  · rw [if_pos hc, if_pos hc]
    exact h.place (true, 0) (by decide)
  · rw [if_neg hc, if_neg hc]
    exact h.store (translate lcd c)

theorem Holds.print (h : Holds d s) (cs : List (BitVec 8)) :
    Holds ((cs.map fun c => (decide ((Hd44780.written lcd c).2 = 0#8),
      (Hd44780.written lcd c).1)).foldl Display.execute d)
      (cs.foldl (Screen.putChar (translate lcd)) s) := by
  induction cs generalizing d s with
  | nil => exact h
  | cons c cs ih => exact ih (h.written c)

/-- A custom character is programmed and the cursor goes home. -/
theorem Holds.customChar (h : Holds d s) {num : BitVec 8} (hnum : num.toNat < 8)
    (data : Vector (BitVec 8) 8) :
    Holds ((Request.customChar num data).commands lcd |>.foldl Display.execute d)
      (s.apply (translate lcd) (.customChar num data)) := by
  have hrow : (Fin.ofNat 8 num.toNat).val = num.toNat := Nat.mod_eq_of_lt hnum
  have haddress : d.execute (false, 0x40#8 + num * 8#8) =
      { d with address := .cgram (rowAddress (Fin.ofNat 8 num.toNat) 0) } := by
    have hbits : ∀ n : BitVec 8, n.toNat < 8 → (0x40#8 + n * 8#8).getLsbD 7 = false ∧
        (0x40#8 + n * 8#8).getLsbD 6 = true ∧
        (0x40#8 + n * 8#8).setWidth 6 = BitVec.ofNat 6 (8 * n.toNat) := by decide +kernel
    obtain ⟨h7, h6, haddr⟩ := hbits num hnum
    simp only [Display.execute, Display.instruct, rowAddress, hrow, Fin.val_zero, Nat.add_zero]
    rw [h7, h6, haddr]
    rfl
  have hshort : data.toList.length ≤ 64 := by
    rw [Vector.length_toList]
    omega
  have hrows := Display.store_rows
    (d := { d with address := .cgram (rowAddress (Fin.ofNat 8 num.toNat) 0) })
    h.increment rfl hshort
  have hcommands : (Request.customChar num data).commands lcd =
      (false, 0x40#8 + num * 8#8) :: ((data.toList.map fun byte => (true, byte)) ++
        [(false, 0x02#8)]) := by
    simp [Request.commands, Request.bytes]
  rw [hcommands, List.foldl_cons, haddress, List.foldl_append, hrows]
  refine ⟨h.interface, h.twoLines, h.increment, rfl, h.cell, fun num' row => ?_⟩
  show data.toList[(rowAddress num' row - rowAddress (Fin.ofNat 8 num.toNat) 0).toNat]?.getD
    (d.cgram (rowAddress num' row)) =
      Function.update s.glyph (Fin.ofNat 8 num.toNat) data.get num' row
  by_cases hsame : num' = Fin.ofNat 8 num.toNat
  · have hoffset : (rowAddress num' row - rowAddress (Fin.ofNat 8 num.toNat) 0).toNat =
        row.val := by
      simp only [← hsame, rowAddress, BitVec.toNat_sub, BitVec.toNat_ofNat, Fin.val_zero]
      omega
    rw [hoffset, hsame, Function.update_self]
    simp [Vector.get]
  · have hoffset : 8 ≤ (rowAddress num' row - rowAddress (Fin.ofNat 8 num.toNat) 0).toNat := by
      have hne : num'.val ≠ (Fin.ofNat 8 num.toNat).val := fun h => hsame (Fin.ext h)
      simp only [rowAddress, BitVec.toNat_sub, BitVec.toNat_ofNat, Fin.val_zero]
      omega
    rw [List.getElem?_eq_none (by rwa [Vector.length_toList]), Option.getD_none,
      Function.update_of_ne hsame]
    exact h.glyph num' row

/-- A display that holds a screen holds what a request makes of it. -/
theorem Holds.request (h : Holds d s) {r : Request} (hr : r.Valid) :
    Holds ((r.commands lcd).foldl Display.execute d) (s.apply (translate lcd) r) := by
  cases r with
  | setPos row col =>
    refine h.place (decide (row ≠ 0#8), Fin.ofNat 40 col.toNat) ?_
    have hbyte : ∀ (line : Bool) (c : BitVec 8), c.toNat < 40 →
        (if line then 0x80#8 ||| 0x40#8 else 0x80#8) ||| c =
          0x80#8 ||| (Place.address (line, Fin.ofNat 40 c.toNat)).setWidth 8 := by
      decide +kernel
    rw [← hbyte _ col hr]
    simp only [decide_eq_true_eq]
  | putChar c => exact h.written c
  | print string =>
    have hprint := @Holds.print lcd _ _ h string.1
    unfold Request.commands Request.bytes
    rwa [List.map_map]
  | clear => exact h.erase.home
  | customChar num data => exact h.customChar hr data

theorem Holds.requests (h : Holds d s) {rs : List Request} (hrs : ∀ r ∈ rs, r.Valid) :
    Holds ((rs.flatMap (Request.commands lcd)).foldl Display.execute d)
      (rs.foldl (Screen.apply (translate lcd)) s) := by
  induction rs generalizing d s with
  | nil => exact h
  | cons r rs ih =>
    rw [List.flatMap_cons, List.foldl_append]
    exact ih (h.request (hrs r List.mem_cons_self))
      fun q hq => hrs q (List.mem_cons_of_mem r hq)

/-- No request changes the width of the interface; the address of a custom character with a
higher number may. -/
theorem request_keepsMode (lcd : Lcd) {r : Request} (hr : r.Valid) :
    ∀ x ∈ r.commands lcd, KeepsMode x := by
  have hwritten (c : BitVec 8) :
      KeepsMode (decide ((written lcd c).2 = 0#8), (written lcd c).1) := by
    unfold written
    split
    · decide
    · exact fun h => Bool.noConfusion h
  cases r with
  | setPos row col =>
    have hbyte : ∀ c : BitVec 8, KeepsMode (false, 0x80#8 ||| 0x40#8 ||| c) ∧
        KeepsMode (false, 0x80#8 ||| c) := by decide +kernel
    intro x hx
    obtain rfl := List.mem_singleton.mp hx
    show KeepsMode (false, _)
    split
    · exact (hbyte col).1
    · exact (hbyte col).2
  | putChar c => exact List.forall_mem_singleton.mpr (hwritten c)
  | print string =>
    unfold Request.commands Request.bytes
    rw [List.map_map]
    exact List.forall_mem_map.mpr fun c _ => hwritten c
  | clear =>
    show ∀ x ∈ [(false, 0x01#8), (false, 0x02#8)], KeepsMode x
    decide +kernel
  | customChar num data =>
    have hfirst : ∀ n : BitVec 8, n.toNat < 8 → KeepsMode (false, 0x40#8 + n * 8#8) := by
      decide +kernel
    intro x hx
    simp only [Request.commands, Request.bytes, List.map_append, List.map_map, List.map_cons,
      List.map_nil, List.mem_append, List.mem_singleton, List.mem_map, Function.comp_apply] at hx
    rcases hx with (rfl | ⟨byte, -, rfl⟩) | rfl
    · exact hfirst num hr
    · exact fun h => Bool.noConfusion h
    · decide

/-- **A session.** In a connection without overlaps, for either type of display, whatever it was
before: behind `hd44780_init` and any functions called in any order, it holds the screen that
the functions mean, and its cursor is where the next character goes. -/
theorem session_shows (h : Wired lcd) (d : Display) (low : Nat → BitVec 4) (before : BitVec 8)
    (type : LcdType) (rs : List Request) (hrs : ∀ r ∈ rs, r.Valid) :
    Holds (d.see lcd.conn low before (init lcd type ++ rs.flatMap (Request.calls lcd)))
      (rs.foldl (Screen.apply (translate lcd))
        (.blank (d.see lcd.conn low before (init lcd type)))) := by
  have hready := ready_init h d low before type
  have hsends := sends_requests h.bus rs
  have hcommands : (rs.flatMap (Request.bytes lcd)).map (fun x => (decide (x.2 = 0#8), x.1)) =
      rs.flatMap (Request.commands lcd) := by
    rw [List.map_flatMap]
    rfl
  have hkeeps : ∀ x ∈ rs.flatMap (Request.bytes lcd),
      KeepsMode (decide (x.2 = 0#8), x.1) := by
    intro x hx
    obtain ⟨r, hr, hxr⟩ := List.mem_flatMap.mp hx
    exact request_keepsMode lcd (hrs r hr) _ (List.mem_map_of_mem hxr)
  rw [(strobes_init h type).see_append h (hsends.strobes h),
    see_of_sends h hsends hready.interface hkeeps, hcommands]
  exact (holds_blank hready).requests hrs

/-- On the board with a `PCF8574`: text on both lines, from a display in the middle of a
byte. -/
theorem session_shows_hello :
    let lcd : Lcd := ⟨1, .englishJapaneseFont, pcf8574Con, none⟩
    let rs : List Request := [.setPos 0 38, .print ⟨[0x48#8, 0x69#8, 0x21#8], by decide⟩]
    Holds (halfway.see lcd.conn (fun _ => 0xF) 0#8 (init lcd .lcd ++
        rs.flatMap (Request.calls lcd)))
      (rs.foldl (Screen.apply (translate lcd))
        (.blank (halfway.see lcd.conn (fun _ => 0xF) 0#8 (init lcd .lcd)))) :=
  session_shows (wired_of_conn (Or.inl rfl) rfl) halfway (fun _ => 0xF) 0#8 .lcd _ (by decide)

end MyLibraries.Hd44780
