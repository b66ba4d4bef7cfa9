import MyLibraries.Core.Strobe

/-!
# The driver of the `HD44780` display

What the driver does to its display: writes to the port, 8 or 16 bits wide, and delays. In
the 4-bit connection a byte goes out as two nibbles, each with a strobe of the enable pin,
together with the register select, the backlight and the pins of an extension.
-/

namespace MyLibraries.Hd44780

/-- `enum hd44780_bus_width`. -/
inductive BusWidth
  | bus4B
  | bus8B
  deriving DecidableEq, Repr

/-- `enum hd44780_font_table`. -/
inductive FontTable
  | englishJapaneseFont
  | westernEuropeanFont
  | englishRussianFont
  | westernEuropean2Font
  deriving DecidableEq, Repr

/-- `struct hd44780_ext_con`. -/
structure ExtCon where
  extPin0 : BitVec 8
  extPin1 : BitVec 8
  deriving DecidableEq, Repr

/-- `struct hd44780_conn`. -/
structure Conn where
  busType : BusWidth
  dataShift : BitVec 8
  rsPin : BitVec 8
  enPin : BitVec 8
  backlightPin : BitVec 8
  deriving DecidableEq, Repr

/-- `struct hd44780_lcd`; its functions are the calls of the model. -/
structure Lcd where
  isBacklightEnabled : BitVec 8
  font : FontTable
  conn : Conn
  extCon : Option ExtCon
  deriving DecidableEq, Repr

/-- What the driver calls. -/
inductive Call
  | write (data : BitVec 8)
  | write16 (data : BitVec 16)
  | delayUs (us : Nat)
  deriving DecidableEq, Repr

/-- `HD44780_NOP_DATA`. -/
def nopData : BitVec 8 := 0xFF#8

/-- `LCD_DELAY_LOW`. -/
def lcdDelayLow : Nat := 50

/-- `LCD_DELAY_HIGH`. -/
def lcdDelayHigh : Nat := 2000

/-- `pcf8574_con`. -/
def pcf8574Con : Conn := ⟨.bus4B, 4, 1, 4, 8⟩

/-- `mc74hC595_con`. -/
def mc74hC595Con : Conn := ⟨.bus4B, 4, 4, 8, 3⟩

/-- `write_to_bus`. -/
def writeToBus (lcd : Lcd) (dat : BitVec 8) : List Call :=
  let dat := dat ||| lcd.conn.enPin
  let high := [.write dat, .delayUs lcdDelayLow]
  let dat := dat &&& ~~~lcd.conn.enPin
  high ++ [.write dat, .delayUs lcdDelayLow]

/-- `latch` of `wr4b`: all lines but the data and the strobe. -/
def latch (lcd : Lcd) (cmd : BitVec 8) : BitVec 8 :=
  let latch := if cmd = 0#8 then lcd.conn.rsPin else 0#8
  let latch := if lcd.isBacklightEnabled ≠ 0#8 then latch ||| lcd.conn.backlightPin else latch
  match lcd.extCon with
  | some ext => latch ||| (ext.extPin0 ||| ext.extPin1)
  | none => latch

/-- `wr4b`. -/
def wr4b (lcd : Lcd) (data cmd : BitVec 8) : List Call :=
  if cmd = nopData then [.write (latch lcd cmd)]
  else
    writeToBus lcd (latch lcd cmd ||| ((data &&& 0xF0#8) >>> 4) <<< lcd.conn.dataShift.toNat) ++
      writeToBus lcd (latch lcd cmd ||| ((data &&& 0x0F#8) >>> 0) <<< lcd.conn.dataShift.toNat)

/-- `wr8b`. -/
def wr8b (lcd : Lcd) (data cmd : BitVec 8) : List Call :=
  let latch := data.setWidth 16 <<< 8 ||| lcd.isBacklightEnabled.setWidth 16
  let latch := if cmd = 0#8 then latch ||| lcd.conn.rsPin.setWidth 16 else latch
  let latch := match lcd.extCon with
    | some ext => latch ||| (ext.extPin0 ||| ext.extPin1).setWidth 16
    | none => latch
  [.write16 latch]

/-- `wr`, as `hd44780_init` sets it. -/
def wr (lcd : Lcd) (data cmd : BitVec 8) : List Call :=
  match lcd.conn.busType with
  | .bus4B => wr4b lcd data cmd
  | .bus8B => wr8b lcd data cmd

/-- `wr_cmd`. -/
def wrCmd (lcd : Lcd) (cmd : BitVec 8) : List Call :=
  wr lcd cmd 1#8 ++ [.delayUs lcdDelayHigh]

/-- `rus_font`. -/
def rusFont : List (BitVec 8) :=
  [0x41, 0xA0, 0x42, 0xA1, 0xE0, 0x45, 0xA3, 0xA4, 0xA5, 0xA6, 0x4B,
    0xA7, 0x4D, 0x48, 0x4F, 0xA8, 0x50, 0x43, 0x54, 0xA9, 0xAA, 0x58,
    0xE1, 0xAB, 0xAC, 0xE2, 0xAD, 0xAE, 0x62, 0xA2, 0xB0, 0xB1,
    0x61, 0xB2, 0xB3, 0xB4, 0xE3, 0x65, 0xB6, 0xB7, 0xB8, 0xB9,
    0xBA, 0xBB, 0xBC, 0xBD, 0x6F, 0xBE, 0x70, 0x63, 0xBF, 0x79, 0xE4, 0x78,
    0xE5, 0xC0, 0xC1, 0xE6, 0xC2, 0xC3, 0xC4, 0xC5, 0xC6, 0xC7]

/-- The table has an entry for every character from `0xC0` on. -/
theorem rusFont_bound (dat : BitVec 8) : dat.toNat - 0xC0 < rusFont.length := by
  have := dat.isLt
  show _ < 64
  omega

/-- `translate`. -/
def translate (lcd : Lcd) (dat : BitVec 8) : BitVec 8 :=
  if lcd.font ≠ .englishRussianFont then dat
  else if dat < 0xC0#8 then dat
  else rusFont.get ⟨dat.toNat - 0xC0, rusFont_bound dat⟩

/-- `hd44780_put_char`. -/
def putChar (lcd : Lcd) (data : BitVec 8) : List Call :=
  if data = 0x0A#8 then wrCmd lcd (0x80#8 ||| 0x40#8)
  else
    let data := translate lcd data
    wr lcd data 0#8

/-- A C string without its terminator. -/
abbrev CString := { s : List (BitVec 8) // 0#8 ∉ s }

/-- `hd44780_print`. -/
def print (lcd : Lcd) (string : CString) : List Call := string.1.flatMap (putChar lcd)

/-- `hd44780_custom_char`, with the eight bytes behind `data`. -/
def customChar (lcd : Lcd) (num : BitVec 8) (data : Vector (BitVec 8) 8) : List Call :=
  wr lcd (0x40#8 + num * 8#8) 1#8 ++ data.toList.flatMap (fun byte => wr lcd byte 0#8) ++
    wrCmd lcd 0x02#8

end MyLibraries.Hd44780
