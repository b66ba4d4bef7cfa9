import MyLibraries.Ssd1289.Model

/-!
# Characters on an SSD1289 display

`ssd1289_putchar` takes the bit `1 << y` of a column of the font, where `y` is the line of
the display, and never the bit `1 << iy` of the row that it sends. So all rows of a column
have the colour of one bit of it, which depends on where the character is printed.
-/

namespace MyLibraries.Ssd1289

open Log

variable {lcd : Lcd} {ch : UInt8} {x y : UInt16}

/-- The font has the columns of the character, each a byte high at most. -/
structure Covers (font : Font) (ch : UInt8) : Prop where
  height : font.ySize.toNat ≤ 8
  columns : ∀ ix, ix < font.xSize.toNat → (fontColumn font ch ix).isSome = true

/-- The colour that a column asks for at a bit. -/
def bitColor (lcd : Lcd) (ch : UInt8) (ix bit : Nat) : UInt16 :=
  if ((fontColumn lcd.font ch ix).getD 0).toNat.testBit bit then lcd.c else lcd.bc

/-- The colours of a character: at `ix * y_size + iy` that of the bit `iy` of the column `ix`. -/
def Glyph (lcd : Lcd) (ch : UInt8) (cs : List UInt16) : Prop :=
  cs.length = lcd.font.xSize.toNat * lcd.font.ySize.toNat ∧
    ∀ ix iy, ix < lcd.font.xSize.toNat → iy < lcd.font.ySize.toNat →
      cs[ix * lcd.font.ySize.toNat + iy]? = some (bitColor lcd ch ix iy)

/-- At the line `y` the bit `y` of every column has the colour of all its bits. -/
def Legible (lcd : Lcd) (ch : UInt8) (y : UInt16) : Prop :=
  ∀ ix iy, ix < lcd.font.xSize.toNat → iy < lcd.font.ySize.toNat →
    y.toNat < 31 ∧ bitColor lcd ch ix y.toNat = bitColor lcd ch ix iy

/-- The colours of a character in the order in which they should go out. -/
def glyph (lcd : Lcd) (ch : UInt8) : List UInt16 :=
  (pairs lcd.font.xSize.toNat lcd.font.ySize.toNat).map fun p => bitColor lcd ch p.1 p.2

theorem glyph_iff {cs : List UInt16} : Glyph lcd ch cs ↔ cs = glyph lcd ch :=
  (eq_map_pairs_iff fun p => bitColor lcd ch p.1 p.2).symm

/-! ## One character -/

theorem colors_append (calls calls' : List Call) :
    colors (calls ++ calls') = colors calls ++ colors calls' :=
  List.filterMap_append

theorem colors_wrRam (cs : List UInt16) : colors (cs.map Call.wrRam) = cs := by
  induction cs with
  | nil => rfl
  | cons c cs ih => exact congrArg (List.cons c) ih

/-- What `ssd1289_putchar` sends to the RAM. -/
theorem putchar_colors (lcd : Lcd) (x y : UInt16) (ch : UInt8) :
    (putchar lcd x y ch).map colors =
      (pairs lcd.font.xSize.toNat lcd.font.ySize.toNat).mapM fun p => pixel lcd y ch p.1 := by
  have hloop : putchar lcd x y ch =
      ((pairs lcd.font.xSize.toNat lcd.font.ySize.toNat).mapM fun p => pixel lcd y ch p.1).map
        fun cs => setWindow x y lcd.font.xSize.toUInt16 lcd.font.ySize.toUInt16 ++
          [.ramPrepare] ++ cs.map .wrRam := by
    have hlog := foldlM_log (fun p : Nat × Nat => pixel lcd y ch p.1) Call.wrRam
    rw [← hlog, ← foldlM_pairs]
    rfl
  have hwindow : ∀ cs, colors (setWindow x y lcd.font.xSize.toUInt16 lcd.font.ySize.toUInt16 ++
      [.ramPrepare] ++ cs.map .wrRam) = cs := by
    intro cs
    rw [colors_append, colors_wrRam]
    rfl
  rw [hloop, Option.map_map]
  cases (pairs lcd.font.xSize.toNat lcd.font.ySize.toNat).mapM fun p => pixel lcd y ch p.1 with
  | none => rfl
  | some cs => exact congrArg some (hwindow cs)

theorem pixel_eq (hc : Covers lcd.font ch) {ix : Nat} (hix : ix < lcd.font.xSize.toNat) :
    pixel lcd y ch ix = if y.toNat < 31 then some (bitColor lcd ch ix y.toNat) else none := by
  obtain ⟨column, hcolumn⟩ := Option.isSome_iff_exists.mp (hc.columns ix hix)
  rw [pixel, hcolumn, bitColor, hcolumn]
  rfl

/-- What the loops send is the glyph exactly where the character is legible. -/
theorem mapM_pixel_iff (hc : Covers lcd.font ch) :
    ((pairs lcd.font.xSize.toNat lcd.font.ySize.toNat).mapM fun p => pixel lcd y ch p.1) =
      some (glyph lcd ch) ↔ Legible lcd ch y := by
  rw [glyph, mapM_eq_some_map_iff]
  constructor
  · intro h ix iy hix hiy
    have hpixel := h (ix, iy) (mem_pairs.mpr ⟨hix, hiy⟩)
    rw [pixel_eq hc hix] at hpixel
    split at hpixel
    · rename_i hy
      exact ⟨hy, Option.some.inj hpixel⟩
    · cases hpixel
  · intro h p hp
    obtain ⟨hix, hiy⟩ := mem_pairs.mp hp
    obtain ⟨hy, hcolor⟩ := h p.1 p.2 hix hiy
    rw [pixel_eq hc hix, if_pos hy, hcolor]

/-- **When a character goes out as the font has it.** -/
theorem putchar_glyph_iff (hc : Covers lcd.font ch) (x y : UInt16) :
    (putchar lcd x y ch).map colors = some (glyph lcd ch) ↔ Legible lcd ch y := by
  rw [putchar_colors, mapM_pixel_iff hc]

/-! ## Strings -/

/-- The characters that a string prints, with their lines. -/
def printed (lcd : Lcd) : UInt16 → List UInt8 → List (UInt8 × UInt16)
  | _, [] => []
  | y, ch :: text =>
    if ch = 10 then printed lcd (y + lcd.font.ySize.toUInt16) text
    else (ch, y) :: printed lcd y text

/-- A string goes out as its characters exactly when each of them is legible at its line. -/
theorem printLoop_glyphs_iff {ix row : UInt16} {text : List UInt8}
    (hc : ∀ ch ∈ text, ch ≠ 10 → Covers lcd.font ch) :
    (printLoop lcd ix x y row text).map (fun r => colors r.2) =
        some ((text.filter (· ≠ 10)).flatMap (glyph lcd)) ↔
      ∀ p ∈ printed lcd y text, Legible lcd p.1 p.2 := by
  induction text generalizing x y row with
  | nil => simp [printLoop, printed, colors]
  | cons ch text ih =>
    have hrest : ∀ c ∈ text, c ≠ 10 → Covers lcd.font c :=
      fun c hmem => hc c (List.mem_cons_of_mem ch hmem)
    by_cases hnewline : ch = 10
    · have hfilter : (ch :: text).filter (· ≠ 10) = text.filter (· ≠ 10) :=
        List.filter_cons_of_neg (by simpa using hnewline)
      rw [printLoop, printed, if_pos hnewline, if_pos hnewline, hfilter]
      exact ih hrest
    · have hfilter : (ch :: text).filter (· ≠ 10) = ch :: text.filter (· ≠ 10) :=
        List.filter_cons_of_pos (by simpa using hnewline)
      have hchar := hc ch List.mem_cons_self hnewline
      have hlen : ∀ cs, (putchar lcd x y ch).map colors = some cs →
          cs.length = (glyph lcd ch).length := by
        intro cs hcs
        rw [putchar_colors] at hcs
        rw [length_of_mapM hcs, glyph, List.length_map]
      have hsplit : (printLoop lcd ix x y row (ch :: text)).map (fun r => colors r.2) =
          ((putchar lcd x y ch).map colors).bind fun cs =>
            ((printLoop lcd ix (x + lcd.font.xSize.toUInt16) y row text).map
              fun r => colors r.2).map fun ds => cs ++ ds := by
        rw [printLoop, if_neg hnewline]
        cases putchar lcd x y ch with
        | none => rfl
        | some calls =>
          cases printLoop lcd ix (x + lcd.font.xSize.toUInt16) y row text with
          | none => rfl
          | some r => exact congrArg some (colors_append calls r.2)
      rw [hsplit, hfilter, printed, if_neg hnewline, List.flatMap_cons, List.forall_mem_cons,
        append_eq_some_iff hlen, putchar_glyph_iff hchar, ih hrest]

/-- **When characters do not depend on where they are printed.** -/
theorem characters_iff (lcd : Lcd) :
    (∀ (ch : UInt8) (x₁ y₁ x₂ y₂ : UInt16), Covers lcd.font ch →
      ((∃ cs, (putchar lcd x₁ y₁ ch).map colors = some cs ∧
          (putchar lcd x₂ y₂ ch).map colors = some cs ∧ Glyph lcd ch cs) ↔
        Legible lcd ch y₁ ∧ Legible lcd ch y₂)) ∧
    ∀ (text : List UInt8) (x y : UInt16), (∀ ch ∈ text, ch ≠ 10 → Covers lcd.font ch) →
      ((print lcd x y text).map (fun r => colors r.2) =
          some ((text.filter (· ≠ 10)).flatMap (glyph lcd)) ↔
        ∀ p ∈ printed lcd y text, Legible lcd p.1 p.2) := by
  constructor
  · intro ch x₁ y₁ x₂ y₂ hc
    rw [← putchar_glyph_iff hc x₁ y₁, ← putchar_glyph_iff hc x₂ y₂]
    constructor
    · rintro ⟨cs, h₁, h₂, hglyph⟩
      obtain rfl := glyph_iff.mp hglyph
      exact ⟨h₁, h₂⟩
    · rintro ⟨h₁, h₂⟩
      exact ⟨_, h₁, h₂, glyph_iff.mpr rfl⟩
  · intro text x y hc
    exact printLoop_glyphs_iff hc

/-- A font of one column and two rows; of its one character the upper pixel is set. -/
def dotLcd : Lcd := { font := { xSize := 1, ySize := 2, data := [1] }, c := 7, bc := 0 }

theorem dotLcd_covers : Covers dotLcd.font 0 := ⟨by decide, by decide⟩

theorem characters_iff_dot :
    (∃ cs, (putchar dotLcd 0 0 0).map colors = some cs ∧
        (putchar dotLcd 0 1 0).map colors = some cs ∧ Glyph dotLcd 0 cs) ↔
      Legible dotLcd 0 0 ∧ Legible dotLcd 0 1 :=
  (characters_iff dotLcd).1 0 0 0 0 1 dotLcd_covers

/-- At the line 0 both rows have the colour of the bit 0, at the line 1 that of the bit 1. -/
theorem putchar_dot :
    Covers dotLcd.font 0 ∧ (putchar dotLcd 0 0 0).map colors = some [7, 7] ∧
      (putchar dotLcd 0 1 0).map colors = some [0, 0] ∧ glyph dotLcd 0 = [7, 0] :=
  ⟨dotLcd_covers, by decide, by decide, by decide⟩

end MyLibraries.Ssd1289
