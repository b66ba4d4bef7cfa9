import MyLibraries.Core.Log

/-!
# Text on an SSD1289 display

The driver tells the controller a window and then sends the colours of its pixels one after
the other. What it does to the display is the row of its calls; `none` is an access outside
of the font, or a shift `1 << y` that is undefined.
-/

namespace MyLibraries.Ssd1289

/-- `struct font_t`. -/
structure Font where
  xSize : UInt8
  ySize : UInt8
  data : List UInt8
  deriving DecidableEq, Repr

/-- What the text functions use of `struct ssd1289_t`. -/
structure Lcd where
  font : Font
  c : UInt16
  bc : UInt16
  deriving DecidableEq, Repr

/-- The functions of the bus. -/
inductive Call
  | wrReg (reg : UInt8) (value : UInt16)
  | ramPrepare
  | wrRam (c : UInt16)
  deriving DecidableEq, Repr

def setCursor (x y : UInt16) : List Call :=
  [.wrReg 0x4e x, -- row
    .wrReg 0x4f y] -- line

def setWindow (x y dx dy : UInt16) : List Call :=
  let dx := dx - 1
  let dy := dy - 1
  [.wrReg 0x44 (UInt16.ofNat (x.toNat ||| (x.toNat + dx.toNat) <<< 8)), .wrReg 0x45 y,
    .wrReg 0x46 (UInt16.ofNat (y.toNat + dy.toNat))] ++ setCursor x y

/-- `lcd->font->data[c * lcd->font->x_size + ix]`; a `char` is signed. -/
def fontColumn (font : Font) (ch : UInt8) (ix : Nat) : Option UInt8 :=
  let i := ch.toInt8.toInt * font.xSize.toNat + ix
  if 0 ≤ i then font.data[i.toNat]? else none

/-- The colour that a pass of the loops of `ssd1289_putchar` sends; `y` is the line on the
display, and `1 << y` is undefined from the sign bit on. -/
def pixel (lcd : Lcd) (y : UInt16) (ch : UInt8) (ix : Nat) : Option UInt16 := do
  let column ← fontColumn lcd.font ch ix
  if y.toNat < 31 then some (if column.toNat.testBit y.toNat then lcd.c else lcd.bc) else none

/-- `ssd1289_putchar`. -/
def putchar (lcd : Lcd) (x y : UInt16) (ch : UInt8) : Option (List Call) :=
  let calls := setWindow x y lcd.font.xSize.toUInt16 lcd.font.ySize.toUInt16 ++ [.ramPrepare]
  (List.range lcd.font.xSize.toNat).foldlM (fun calls ix =>
    (List.range lcd.font.ySize.toNat).foldlM (fun calls _iy =>
      (pixel lcd y ch ix).map fun c => calls ++ [.wrRam c]) calls) calls

/-- The loop of `ssd1289_print` over the rest of the text. -/
def printLoop (lcd : Lcd) (ix : UInt16) : UInt16 → UInt16 → UInt16 → List UInt8 →
    Option (UInt16 × List Call)
  | _, _, row, [] => some (row, [])
  | x, y, row, ch :: text =>
    if ch = 10 then printLoop lcd ix ix (y + lcd.font.ySize.toUInt16) (row + 1) text
    else do
      let calls ← putchar lcd x y ch
      let (row, rest) ← printLoop lcd ix (x + lcd.font.xSize.toUInt16) y row text
      some (row, calls ++ rest)

/-- `ssd1289_print`. -/
def print (lcd : Lcd) (x y : UInt16) (text : List UInt8) : Option (UInt16 × List Call) :=
  printLoop lcd x x y 0 text

/-- The colours that go to the RAM of the display. -/
def colors (calls : List Call) : List UInt16 :=
  calls.filterMap fun
    | .wrRam c => some c
    | _ => none

end MyLibraries.Ssd1289
