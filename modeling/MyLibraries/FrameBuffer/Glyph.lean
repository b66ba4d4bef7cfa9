import MyLibraries.FrameBuffer.Flush

/-!
# Characters in a window

`PrintChar` sends the pixels of a character column by column, and the window takes them row
by row. So the pixel that arrives at column `i` and row `j` of the cell is the one that was
sent as number `j * FontXsize + i`, which belongs to column `(j * FontXsize + i) / FontYsize`
of the font and to bit `(j * FontXsize + i) % FontYsize` of it. The character stands upright
when these have the colour that belongs there, as they have in a font of one row or one
column.
-/

namespace MyLibraries.FrameBuffer

open Memory Paint Run

variable {v : Screen} {s s' : State v} {font : Font} {ch : UInt8} {x0 y0 : UInt16}

/-- The colour that a bit of a column of a character asks for. -/
def glyphPixel (font : Font) (ch : UInt8) (i j : Nat) : UInt32 :=
  if (font.font.getD (ch.toNat * font.fontXsize.toNat + i) 0).toNat.testBit j then font.fontColor
  else font.backColor

/-- The index of the pixel at a column and a row of a cell. -/
def cellIndex (v : Screen) (x0 y0 : UInt16) (i j : Nat) : Nat :=
  corner v x0 y0 + i + j * v.xres.toNat

/-- The cell shows the character, and the rest of the screen is as it was. -/
structure Upright (s s' : State v) (font : Font) (ch : UInt8) (x0 y0 : UInt16) : Prop where
  inside : ∀ i j, i < font.fontXsize.toNat → j < font.fontYsize.toNat →
    s'.bgBuffer[cellIndex v x0 y0 i j]? = some (glyphPixel font ch i j)
  outside : ∀ p, (∀ i j, i < font.fontXsize.toNat → j < font.fontYsize.toNat →
    p ≠ cellIndex v x0 y0 i j) → s'.bgBuffer[p]? = s.bgBuffer[p]?

/-- A font of columns of one byte that has the character. -/
structure Covers (font : Font) (ch : UInt8) : Prop where
  width : 0 < font.fontXsize.toNat
  height : 0 < font.fontYsize.toNat
  byte : font.fontYsize.toNat ≤ 8
  char : ch.toNat < 128
  font : (ch.toNat + 1) * font.fontXsize.toNat ≤ font.font.length

/-! ## The pixels sent -/

theorem glyphColor_eq (hc : Covers font ch) {x y : Nat} (hx : x < font.fontXsize.toNat)
    (hy : y < font.fontYsize.toNat) : glyphColor font ch x y = some (glyphPixel font ch x y) := by
  have hchar := hc.char
  have hbyte := hc.byte
  have hint : ch.toInt8.toInt = ch.toNat :=
    BitVec.toInt_eq_toNat_of_lt (by
      show 2 * ch.toNat < 256
      omega)
  have hindex : ch.toNat * font.fontXsize.toNat + x < font.font.length := by
    have hfont := hc.font
    rw [Nat.succ_mul] at hfont
    omega
  have hcolumn : glyphColumn font ch x =
      some (font.font.getD (ch.toNat * font.fontXsize.toNat + x) 0) := by
    have hcast : (ch.toNat : Int) * font.fontXsize.toNat + x =
        ((ch.toNat * font.fontXsize.toNat + x : Nat) : Int) := by
      push_cast
      rfl
    rw [glyphColumn, hint, hcast, if_pos (Int.natCast_nonneg _), Int.toNat_natCast,
      List.getElem?_eq_getElem hindex, List.getD_eq_getElem?_getD, List.getElem?_eq_getElem hindex,
      Option.getD_some]
  rw [glyphColor, hcolumn]
  exact if_pos (by omega)

/-- The pixels of a character in the order in which `PrintChar` sends them. -/
def glyphPixels (font : Font) (ch : UInt8) : List UInt32 :=
  (List.range (font.fontXsize.toNat * font.fontYsize.toNat)).map fun k =>
    glyphPixel font ch (k / font.fontYsize.toNat) (k % font.fontYsize.toNat)

theorem length_glyphPixels (font : Font) (ch : UInt8) :
    (glyphPixels font ch).length = font.fontXsize.toNat * font.fontYsize.toNat := by
  rw [glyphPixels, List.length_map, List.length_range]

theorem glyphPixels_getElem? {k : Nat} (hk : k < font.fontXsize.toNat * font.fontYsize.toNat) :
    (glyphPixels font ch)[k]? =
      some (glyphPixel font ch (k / font.fontYsize.toNat) (k % font.fontYsize.toNat)) := by
  rw [glyphPixels, List.getElem?_map, List.getElem?_range hk]
  rfl

/-- The pixels of a column stand side by side. -/
theorem glyphPixels_column {x y : Nat} (hx : x < font.fontXsize.toNat)
    (hy : y < font.fontYsize.toNat) :
    (glyphPixels font ch)[x * font.fontYsize.toNat + y]? = some (glyphPixel font ch x y) := by
  have hpos : 0 < font.fontYsize.toNat := Nat.zero_lt_of_lt hy
  rw [Nat.mul_comm x, glyphPixels_getElem? (Nat.mul_add_lt_mul_of_lt_of_lt hx hy),
    Nat.mul_add_div hpos, Nat.mul_add_mod, Nat.div_eq_of_lt hy, Nat.mod_eq_of_lt hy, Nat.add_zero]

/-- The two loops are one run through the pixels. -/
theorem printChar_eq (hfont : s.font = some font) (hc : Covers font ch) :
    printChar s x0 y0 ch = (glyphPixels font ch).foldlM fillWindow
      (setWindow s x0 y0 font.fontXsize.toUInt16 font.fontYsize.toUInt16) := by
  have hstep : ∀ x, x < font.fontXsize.toNat → ∀ y, y < font.fontYsize.toNat →
      ((((glyphPixels font ch).take (x * font.fontYsize.toNat + y)).foldlM fillWindow
          (setWindow s x0 y0 font.fontXsize.toUInt16 font.fontYsize.toUInt16)).bind fun s => do
        let c ← glyphColor font ch x y
        fillWindow s c) =
      ((glyphPixels font ch).take (x * font.fontYsize.toNat + y + 1)).foldlM fillWindow
        (setWindow s x0 y0 font.fontXsize.toUInt16 font.fontYsize.toUInt16) := by
    intro x hx y hy
    rw [glyphColor_eq hc hx hy, List.take_add_one, glyphPixels_column hx hy, List.foldlM_append]
    simp only [Option.toList_some, List.foldlM_cons, List.foldlM_nil, Option.bind_eq_bind,
      Option.bind_some, Option.pure_def, Option.bind_fun_some]
  have hcolumn : ∀ x, x < font.fontXsize.toNat →
      ((((glyphPixels font ch).take (x * font.fontYsize.toNat)).foldlM fillWindow
          (setWindow s x0 y0 font.fontXsize.toUInt16 font.fontYsize.toUInt16)).bind fun s =>
        (List.range font.fontYsize.toNat).foldlM (fun s y => do
          let c ← glyphColor font ch x y
          fillWindow s c) s) =
      ((glyphPixels font ch).take ((x + 1) * font.fontYsize.toNat)).foldlM fillWindow
        (setWindow s x0 y0 font.fontXsize.toUInt16 font.fontYsize.toUInt16) := by
    intro x hx
    rw [Nat.succ_mul]
    exact bind_foldlM_range (fun y => ((glyphPixels font ch).take
      (x * font.fontYsize.toNat + y)).foldlM fillWindow _) (hstep x hx)
  have hall := bind_foldlM_range (fun x => ((glyphPixels font ch).take
    (x * font.fontYsize.toNat)).foldlM fillWindow _) hcolumn
  rw [Nat.zero_mul, List.take_zero, ← length_glyphPixels font ch, List.take_length] at hall
  rw [printChar, hfont]
  exact hall

/-! ## Where they go -/

theorem place_eq_cellIndex {w k : Nat} (hw : 0 < w) (hle : w ≤ v.xres.toNat) :
    place (corner v x0 y0) w v.xres.toNat 0 k = cellIndex v x0 y0 (k % w) (k / w) := by
  have hrow : place (corner v x0 y0) w v.xres.toNat 0 (k / w * w + k % w) = _ :=
    place_row (Nat.mod_lt k hw) hle
  rwa [Nat.mul_comm, Nat.div_add_mod] at hrow

/-- Different pixels of a cell as wide as the screen at most have different indices. -/
theorem cellIndex_injective {w i j i' j' : Nat} (hle : w ≤ v.xres.toNat) (hi : i < w)
    (hi' : i' < w) (h : cellIndex v x0 y0 i j = cellIndex v x0 y0 i' j') : i = i' ∧ j = j' := by
  have hpos : 0 < v.xres.toNat := by omega
  have hsum : v.xres.toNat * j + i = v.xres.toNat * j' + i' := by
    unfold cellIndex at h
    rw [Nat.mul_comm _ j, Nat.mul_comm _ j']
    omega
  have hrow : ∀ {n m : Nat}, m < v.xres.toNat → (v.xres.toNat * n + m) / v.xres.toNat = n := by
    intro n m hm
    rw [Nat.mul_add_div hpos, Nat.div_eq_of_lt hm, Nat.add_zero]
  have hj : j = j' := by
    rw [← hrow (n := j) (show i < v.xres.toNat by omega), hsum, hrow (by omega)]
  subst hj
  exact ⟨by omega, rfl⟩

theorem OnScreen.width_le
    (hon : OnScreen v x0 y0 font.fontXsize.toUInt16 font.fontYsize.toUInt16) :
    font.fontXsize.toNat ≤ v.xres.toNat := by
  have hcols := hon.1
  rw [UInt8.toNat_toUInt16] at hcols
  omega

/-- The pixels of a character with the places where `PrintChar` puts them. -/
def glyphMarks (v : Screen) (font : Font) (ch : UInt8) (x0 y0 : UInt16) : List (Nat × UInt32) :=
  marks (place (corner v x0 y0) font.fontXsize.toNat v.xres.toNat 0) 0 (glyphPixels font ch)

/-- `PrintChar` paints them. -/
theorem printChar_paint (hx : s.window.x = 0) (hfont : s.font = some font) (hc : Covers font ch)
    (hon : OnScreen v x0 y0 font.fontXsize.toUInt16 font.fontYsize.toUInt16) :
    (printChar s x0 y0 ch).map State.bgBuffer =
      paint s.bgBuffer (glyphMarks v font ch x0 y0) := by
  have hwidth := hc.width
  have hheight := hc.height
  have hsettled : Settled s := by
    unfold Settled
    rw [hx]
    decide
  rw [printChar_eq hfont hc]
  refine fills_eq hwidth hon.width_le (glyphPixels font ch) 0 hsettled rfl ?_ ?_ ?_
  · exact UInt8.toNat_toUInt16 font.fontXsize
  · show wrap 32 (corner v x0 y0) = _
    rw [wrap_of_lt_pixels (hon.corner_lt (by rwa [UInt8.toNat_toUInt16])
      (by rwa [UInt8.toNat_toUInt16])), place, Nat.zero_add, Nat.zero_div, Nat.zero_mul]
    rfl
  · show min s.window.x.toNat _ = _
    rw [hx]
    exact (Nat.zero_min _).trans (Nat.zero_mod _).symm

/-- Every place lies in the cell. -/
theorem mem_glyphMarks (hc : Covers font ch)
    (hon : OnScreen v x0 y0 font.fontXsize.toUInt16 font.fontYsize.toUInt16)
    {w : Nat × UInt32} (hw : w ∈ glyphMarks v font ch x0 y0) :
    ∃ i j, i < font.fontXsize.toNat ∧ j < font.fontYsize.toNat ∧ w.1 = cellIndex v x0 y0 i j := by
  obtain ⟨k, _, hk, hpos, _⟩ := mem_marks hw
  rw [length_glyphPixels, Nat.zero_add] at hk
  rw [place_eq_cellIndex hc.width hon.width_le] at hpos
  exact ⟨_, _, Nat.mod_lt k hc.width, Nat.div_lt_of_lt_mul hk, hpos⟩

theorem cellIndex_lt (hon : OnScreen v x0 y0 font.fontXsize.toUInt16 font.fontYsize.toUInt16)
    {i j : Nat} (hi : i < font.fontXsize.toNat) (hj : j < font.fontYsize.toNat) :
    cellIndex v x0 y0 i j < v.pixels := by
  have hlt := hon.address_lt (x := i) (y := j) (by rwa [UInt8.toNat_toUInt16])
    (by rwa [UInt8.toNat_toUInt16])
  rw [Nat.mul_add, Nat.mul_comm _ j] at hlt
  rw [cellIndex, corner]
  omega

/-- **What `PrintChar` leaves in the buffer.** -/
theorem printChar_cells (hx : s.window.x = 0) (hfont : s.font = some font) (hc : Covers font ch)
    (hon : OnScreen v x0 y0 font.fontXsize.toUInt16 font.fontYsize.toUInt16) :
    ∃ s', printChar s x0 y0 ch = some s' ∧
      (∀ i j, i < font.fontXsize.toNat → j < font.fontYsize.toNat →
        s'.bgBuffer[cellIndex v x0 y0 i j]? =
          some (glyphPixel font ch ((j * font.fontXsize.toNat + i) / font.fontYsize.toNat)
            ((j * font.fontXsize.toNat + i) % font.fontYsize.toNat))) ∧
      ∀ p, (∀ i j, i < font.fontXsize.toNat → j < font.fontYsize.toNat →
        p ≠ cellIndex v x0 y0 i j) → s'.bgBuffer[p]? = s.bgBuffer[p]? := by
  have hwidth := hc.width
  have hle := hon.width_le
  obtain ⟨out, hout⟩ := paint_some s.bgBuffer fun w hw => by
    obtain ⟨i, j, hi, hj, hpos⟩ := mem_glyphMarks hc hon hw
    rw [hpos]
    exact cellIndex_lt hon hi hj
  have hpaint := printChar_paint hx hfont hc hon
  rw [hout] at hpaint
  obtain ⟨s', hs', rfl⟩ := Option.map_eq_some_iff.mp hpaint
  refine ⟨s', hs', fun i j hi hj => ?_, fun p hp => ?_⟩
  · have hk : j * font.fontXsize.toNat + i < font.fontXsize.toNat * font.fontYsize.toNat := by
      rw [Nat.add_comm, Nat.mul_comm j]
      exact Nat.add_mul_lt_mul_of_lt_of_lt hi hj
    have hread := paint_marks_getElem? hout (fun a b ha hb hab => by
      rw [place_eq_cellIndex hwidth hle, place_eq_cellIndex hwidth hle] at hab
      obtain ⟨hmod, hdiv⟩ := cellIndex_injective hle (Nat.mod_lt a hwidth) (Nat.mod_lt b hwidth) hab
      rw [← Nat.div_add_mod a font.fontXsize.toNat, hmod, hdiv, Nat.div_add_mod])
      (by rwa [length_glyphPixels])
    rw [place_row hi hle, glyphPixels_getElem? hk] at hread
    exact hread
  · apply paint_untouched hout
    intro w hw hwp
    obtain ⟨i, j, hi, hj, hpos⟩ := mem_glyphMarks hc hon hw
    exact hp i j hi hj (hwp.symm.trans hpos)

/-- **When a character stands upright.** -/
theorem printChar_upright_iff (s : State v) (hx : s.window.x = 0) (hfont : s.font = some font)
    (hc : Covers font ch)
    (hon : OnScreen v x0 y0 font.fontXsize.toUInt16 font.fontYsize.toUInt16) :
    (∃ s', printChar s x0 y0 ch = some s' ∧ Upright s s' font ch x0 y0) ↔
      ∀ i j, i < font.fontXsize.toNat → j < font.fontYsize.toNat →
        glyphPixel font ch ((j * font.fontXsize.toNat + i) / font.fontYsize.toNat)
          ((j * font.fontXsize.toNat + i) % font.fontYsize.toNat) = glyphPixel font ch i j := by
  obtain ⟨s', hs', hcells, hout⟩ := printChar_cells hx hfont hc hon
  constructor
  · rintro ⟨t, ht, hup⟩ i j hi hj
    obtain rfl := Option.some.inj (ht.symm.trans hs')
    exact Option.some.inj ((hcells i j hi hj).symm.trans (hup.inside i j hi hj))
  · intro hsame
    exact ⟨s', hs', fun i j hi hj => by rw [hcells i j hi hj, hsame i j hi hj], hout⟩

/-- A font of two columns and two rows; of its one character only the lower left pixel is set. -/
def cornerFont : Font :=
  { fontXsize := 2, fontYsize := 2, font := [2, 0], fontColor := 7, backColor := 1 }

def cornerState : State smallScreen :=
  setFont (fresh (Vector.replicate smallScreen.pixels 0)) (some cornerFont)

theorem cornerFont_covers : Covers cornerFont 0 :=
  ⟨by decide, by decide, by decide, by decide, by decide⟩

theorem printChar_upright_iff_corner :
    (∃ s', printChar cornerState 1 0 0 = some s' ∧ Upright cornerState s' cornerFont 0 1 0) ↔
      ∀ i j, i < cornerFont.fontXsize.toNat → j < cornerFont.fontYsize.toNat →
        glyphPixel cornerFont 0 ((j * cornerFont.fontXsize.toNat + i) / cornerFont.fontYsize.toNat)
          ((j * cornerFont.fontXsize.toNat + i) % cornerFont.fontYsize.toNat) =
        glyphPixel cornerFont 0 i j :=
  printChar_upright_iff cornerState rfl rfl cornerFont_covers (by decide)

/-- The upper right pixel is drawn instead of the lower left one. -/
theorem printChar_transposed : ∃ s', cornerState.window.x = 0 ∧
    cornerState.font = some cornerFont ∧ Covers cornerFont 0 ∧
    OnScreen smallScreen 1 0 cornerFont.fontXsize.toUInt16 cornerFont.fontYsize.toUInt16 ∧
    printChar cornerState 1 0 0 = some s' ∧ ¬ Upright cornerState s' cornerFont 0 1 0 := by
  refine ⟨_, rfl, rfl, cornerFont_covers, by decide, rfl, fun hup => ?_⟩
  have hpixel := hup.inside 0 1 (by decide) (by decide)
  revert hpixel
  decide

end MyLibraries.FrameBuffer
