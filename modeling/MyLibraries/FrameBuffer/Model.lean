import Mathlib.Algebra.Group.Nat.Defs
import MyLibraries.Core.Memory
import MyLibraries.Core.Paint
import MyLibraries.Core.Run

/-!
# The frame buffer of Linux

Everything is drawn into `bg_buffer`; a pointer into it is the index of a pixel, and `none`
is an access outside of it or of a font or picture, or undefined arithmetic. The window is
a static variable that lines and text share: `SetWindow` places it and `FillWindow` writes
one pixel after the other, row by row.
-/

namespace MyLibraries.FrameBuffer

open Memory Paint

/-- `vinfo` of a screen with 32 bits per pixel, whose `screenSize` fits its 32 bits. -/
structure Screen where
  xres : UInt32
  yres : UInt32
  pixels_lt : xres.toNat * yres.toNat < 2 ^ 27

/-- The number of pixels of `bg_buffer`. -/
def Screen.pixels (v : Screen) : Nat := v.xres.toNat * v.yres.toNat

structure Window where
  windowInit : Bool
  ptr : Nat
  x : UInt16
  xMax : UInt16
  deriving DecidableEq, Repr

/-- `Font_StructTypeDef`. -/
structure Font where
  fontXsize : UInt8
  fontYsize : UInt8
  font : List UInt8
  fontColor : UInt32
  backColor : UInt32
  deriving DecidableEq, Repr

structure State (v : Screen) where
  bgBuffer : Vector UInt32 v.pixels
  window : Window
  font : Option Font

variable {v : Screen}

/-- The state behind `FrameBufferInit`, with whatever `malloc` left in the buffer. -/
def fresh (bgBuffer : Vector UInt32 v.pixels) : State v :=
  { bgBuffer, window := { windowInit := false, ptr := 0, x := 0, xMax := 0 }, font := none }

/-- `*(bg_buffer + p) = color`. -/
def poke (s : State v) (p : Nat) (color : UInt32) : Option (State v) :=
  (mark s.bgBuffer (p, color)).map fun bgBuffer => { s with bgBuffer }

def clearScreen (s : State v) (color : UInt32) : State v :=
  { s with bgBuffer := Vector.replicate v.pixels color }

/-- `SetWindow`. The cursor `x` stays where it is. -/
def setWindow (s : State v) (x0 y0 sizeX _sizeY : UInt16) : State v :=
  { s with
    window := { s.window with
      windowInit := true
      ptr := wrap 32 (x0.toNat + v.xres.toNat * y0.toNat)
      xMax := sizeX } }

def fillWindow (s : State v) (color : UInt32) : Option (State v) :=
  if s.window.windowInit = false then some s
  else do
    let s ← poke s s.window.ptr color
    let ptr := s.window.ptr + 1
    let x := s.window.x + 1
    if x < s.window.xMax then some { s with window := { s.window with ptr, x } }
    else
      let ptr := ptr + (v.xres - s.window.xMax.toUInt32).toNat
      some { s with window := { s.window with ptr, x := 0 } }

/-- `FillWindow` with the same colour, `n` times. -/
def fillTimes (s : State v) (n : Nat) (color : UInt32) : Option (State v) :=
  (List.range n).foldlM (fun s _ => fillWindow s color) s

def flushWindow (s : State v) (x0 y0 sizeX sizeY : UInt16) (color : List UInt32) :
    Option (State v) :=
  let s := setWindow s x0 y0 sizeX sizeY
  if sizeX.toNat * sizeY.toNat < 2 ^ 31 then
    (List.range (sizeX.toNat * sizeY.toNat)).foldlM (fun s i => do
      let c ← color[i]?
      fillWindow s c) s
  else none

/-- The body of the loops of `DrawPic32`; `p` is how far `pic` has been advanced. -/
def picPixel (x0 y0 : UInt16) (pic : List UInt32) (y : Nat) (sp : State v × Nat) (x : Nat) :
    Option (State v × Nat) := do
  let c ← pic[sp.2]?
  let s ← poke sp.1 (wrap 32 (x + x0.toNat + v.xres.toNat * (y0.toNat + y))) c
  some (s, sp.2 + 1)

def drawPic32 (s : State v) (x0 y0 sizeX sizeY : UInt16) (pic : List UInt32) :
    Option (State v) :=
  ((List.range sizeY.toNat).foldlM (fun sp y =>
    (List.range sizeX.toNat).foldlM (picPixel x0 y0 pic y) sp) (s, 0)).map Prod.fst

def drawPixel32 (s : State v) (x0 y0 : UInt16) (color : UInt32) : Option (State v) :=
  poke s (wrap 32 (x0.toNat + v.xres.toNat * y0.toNat)) color

def drawHorizontalLine32 (s : State v) (x0 y0 x1 : UInt16) (color : UInt32) :
    Option (State v) :=
  let dx := if x1 > x0 then x1 - x0 else x0 - x1
  fillTimes (setWindow s x0 y0 dx 1) dx.toNat color

def drawVerticalLine32 (s : State v) (x0 y0 y1 : UInt16) (color : UInt32) :
    Option (State v) :=
  let dy := if y1 > y0 then y1 - y0 else y0 - y1
  fillTimes (setWindow s x0 y0 1 dy) dy.toNat color

def drawCross (s : State v) (x0 y0 size : UInt16) (color : UInt32) : Option (State v) := do
  let s ← drawHorizontalLine32 s (x0 - size) y0 (x0 + size) color
  drawVerticalLine32 s x0 (y0 - size) (y0 + size) color

def setFont (s : State v) (font : Option Font) : State v :=
  { s with font := font <|> s.font }

/-- `font->Font[ch * font->FontXsize + x]`; a `char` is signed. -/
def glyphColumn (font : Font) (ch : UInt8) (x : Nat) : Option UInt8 :=
  let i := ch.toInt8.toInt * font.fontXsize.toNat + x
  if 0 ≤ i then font.font[i.toNat]? else none

/-- The colour of a pixel of a character; `1 << y` is undefined from the sign bit on. -/
def glyphColor (font : Font) (ch : UInt8) (x y : Nat) : Option UInt32 := do
  let column ← glyphColumn font ch x
  if y < 31 then some (if column.toNat.testBit y then font.fontColor else font.backColor)
  else none

def printChar (s : State v) (x0 y0 : UInt16) (ch : UInt8) : Option (State v) := do
  let font ← s.font
  let s := setWindow s x0 y0 font.fontXsize.toUInt16 font.fontYsize.toUInt16
  (List.range font.fontXsize.toNat).foldlM (fun s x =>
    (List.range font.fontYsize.toNat).foldlM (fun s y => do
      let c ← glyphColor font ch x y
      fillWindow s c) s) s

/-- The loop of `PrintText` over the rest of the text. -/
def printLoop (x : UInt16) (s : State v) (x0 y0 row : UInt16) :
    List UInt8 → Option (UInt16 × State v)
  | [] => some (row, s)
  | ch :: text => do
    let font ← s.font
    if ch = 10 then printLoop x s x (y0 + font.fontYsize.toUInt16) (row + 1) text
    else
      let s ← printChar s x0 y0 ch
      printLoop x s (x0 + font.fontXsize.toUInt16) y0 row text

def printText (s : State v) (x0 y0 : UInt16) (text : List UInt8) :
    Option (UInt16 × State v) :=
  printLoop x0 s x0 y0 0 text

/-- The functions that draw. A circle is a run of pixels or of horizontal lines. -/
inductive Op
  | clearScreen (color : UInt32)
  | setWindow (x0 y0 sizeX sizeY : UInt16)
  | fillWindow (color : UInt32)
  | flushWindow (x0 y0 sizeX sizeY : UInt16) (color : List UInt32)
  | drawPic32 (x0 y0 sizeX sizeY : UInt16) (pic : List UInt32)
  | drawPixel32 (x0 y0 : UInt16) (color : UInt32)
  | drawHorizontalLine32 (x0 y0 x1 : UInt16) (color : UInt32)
  | drawVerticalLine32 (x0 y0 y1 : UInt16) (color : UInt32)
  | drawCross (x0 y0 size : UInt16) (color : UInt32)
  | setFont (font : Option Font)
  | printText (x0 y0 : UInt16) (text : List UInt8)

/-- A call, and the rows that `PrintText` answers. -/
def call (s : State v) : Op → Option (UInt16 × State v)
  | .clearScreen color => some (0, clearScreen s color)
  | .setWindow x0 y0 sizeX sizeY => some (0, setWindow s x0 y0 sizeX sizeY)
  | .fillWindow color => (fillWindow s color).map (Prod.mk 0)
  | .flushWindow x0 y0 sizeX sizeY color =>
    (flushWindow s x0 y0 sizeX sizeY color).map (Prod.mk 0)
  | .drawPic32 x0 y0 sizeX sizeY pic => (drawPic32 s x0 y0 sizeX sizeY pic).map (Prod.mk 0)
  | .drawPixel32 x0 y0 color => (drawPixel32 s x0 y0 color).map (Prod.mk 0)
  | .drawHorizontalLine32 x0 y0 x1 color =>
    (drawHorizontalLine32 s x0 y0 x1 color).map (Prod.mk 0)
  | .drawVerticalLine32 x0 y0 y1 color =>
    (drawVerticalLine32 s x0 y0 y1 color).map (Prod.mk 0)
  | .drawCross x0 y0 size color => (drawCross s x0 y0 size color).map (Prod.mk 0)
  | .setFont font => some (0, setFont s font)
  | .printText x0 y0 text => printText s x0 y0 text

end MyLibraries.FrameBuffer
