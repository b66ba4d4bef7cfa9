import MyLibraries.FrameBuffer.Window

/-!
# `FlushWindow` and `DrawPic32`

Both paint the same colours; they put them at the same places when the cursor of the window
is at the left, when the window is too narrow to have another column, or when it is as wide
as the screen. Otherwise `FlushWindow` never paints the pixel `w - lead` of the first row.
-/

namespace MyLibraries.FrameBuffer

open Paint Run

variable {v : Screen} {s : State v} {x0 y0 sizeX sizeY : UInt16} {pic : List UInt32}

theorem same_iff : Same s x0 y0 sizeX sizeY pic ↔
    ∃ buf, (flushWindow s x0 y0 sizeX sizeY pic).map State.bgBuffer = some buf ∧
      (drawPic32 s x0 y0 sizeX sizeY pic).map State.bgBuffer = some buf := by
  constructor
  · rintro ⟨s₁, s₂, h₁, h₂, heq⟩
    exact ⟨s₁.bgBuffer, by rw [h₁, Option.map_some], by rw [h₂, Option.map_some, heq]⟩
  · rintro ⟨buf, h₁, h₂⟩
    obtain ⟨s₁, hs₁, rfl⟩ := Option.map_eq_some_iff.mp h₁
    obtain ⟨s₂, hs₂, heq⟩ := Option.map_eq_some_iff.mp h₂
    exact ⟨s₁, s₂, hs₁, hs₂, heq.symm⟩

/-- `DrawPic32` paints inside of the rectangle. -/
theorem drawPic32_some (hon : OnScreen v x0 y0 sizeX sizeY)
    (hpic : pic.length = sizeX.toNat * sizeY.toNat) :
    ∃ buf, (drawPic32 s x0 y0 sizeX sizeY pic).map State.bgBuffer = some buf := by
  have hw : sizeX.toNat ≤ v.xres.toNat := by
    have := hon.1
    omega
  rw [drawPic32_eq hon hpic]
  apply paint_some
  intro m hm
  obtain ⟨j, _, hj, hplace, _⟩ := mem_marks hm
  have hpos : 0 < sizeX.toNat := by
    by_contra h0
    rw [hpic, Nat.eq_zero_of_not_pos h0, Nat.zero_mul] at hj
    omega
  have hx := Nat.mod_lt j hpos
  have hy : j / sizeX.toNat < sizeY.toNat := by
    rw [Nat.div_lt_iff_lt_mul hpos, Nat.mul_comm]
    omega
  have hlt := hon.address_lt hx hy
  have hdiv := Nat.div_add_mod' j sizeX.toNat
  rw [hplace, ← hdiv, place_row hx hw]
  rw [Nat.mul_add, Nat.mul_comm v.xres.toNat (j / sizeX.toNat)] at hlt
  unfold corner
  omega

/-- An empty rectangle. -/
theorem same_of_empty (hon : OnScreen v x0 y0 sizeX sizeY)
    (hpic : pic.length = sizeX.toNat * sizeY.toNat) (h0 : sizeX.toNat * sizeY.toNat = 0) :
    Same s x0 y0 sizeX sizeY pic := by
  have hnil : pic = [] := List.length_eq_zero_iff.mp (hpic.trans h0)
  rw [same_iff, drawPic32_eq hon hpic, hnil]
  refine ⟨s.bgBuffer, ?_, rfl⟩
  unfold flushWindow
  dsimp only
  rw [h0]
  rfl

/-- Where `FlushWindow` and `DrawPic32` paint alike. -/
theorem place_eq {start w xres x : Nat} (h : x = 0 ∨ w = xres) (j : Nat) :
    place start w xres x j = place start w xres 0 j := by
  unfold place
  rcases h with rfl | rfl
  · rfl
  · rw [Nat.sub_self, Nat.mul_zero, Nat.mul_zero]

theorem same_of_lead (hs : Settled s) (hon : OnScreen v x0 y0 sizeX sizeY)
    (hpic : pic.length = sizeX.toNat * sizeY.toNat)
    (h : lead s sizeX.toNat = 0 ∨ sizeX.toNat = v.xres.toNat) :
    Same s x0 y0 sizeX sizeY pic := by
  by_cases h0 : sizeX.toNat * sizeY.toNat = 0
  · exact same_of_empty hon hpic h0
  · have hx : 0 < sizeX.toNat := Nat.pos_of_ne_zero fun h => h0 (by rw [h, Nat.zero_mul])
    have hy : 0 < sizeY.toNat := Nat.pos_of_ne_zero fun h => h0 (by rw [h, Nat.mul_zero])
    obtain ⟨buf, hbuf⟩ := drawPic32_some (s := s) hon hpic
    rw [same_iff]
    refine ⟨buf, ?_, hbuf⟩
    rw [flushWindow_eq hs hon hx hy hpic, ← hbuf, drawPic32_eq hon hpic,
      marks_congr fun j _ _ => place_eq h j]

/-- The pixel that a filled window leaves out. -/
theorem place_ne {start w xres x : Nat} (hx : 0 < x) (hxw : x < w) (hw : w < xres) (j : Nat) :
    place start w xres x j ≠ start + (w - x) := by
  unfold place
  by_cases hj : x + j < w
  · rw [Nat.div_eq_of_lt hj, Nat.zero_mul]
    omega
  · have hrow : 1 ≤ (x + j) / w := by
      rw [Nat.le_div_iff_mul_le (by omega)]
      omega
    have hstride : xres - w ≤ (x + j) / w * (xres - w) := Nat.le_mul_of_pos_left _ hrow
    omega

/-- A cursor that is not at the left shows in some picture. -/
theorem not_same (hs : Settled s) (hon : OnScreen v x0 y0 sizeX sizeY) (hy : 0 < sizeY.toNat)
    (hlead : 0 < lead s sizeX.toNat) (hw : sizeX.toNat < v.xres.toNat) :
    ∃ pic : List UInt32, pic.length = sizeX.toNat * sizeY.toNat ∧
      ¬ Same s x0 y0 sizeX sizeY pic := by
  have hlt : lead s sizeX.toNat < sizeX.toNat := by
    unfold lead at hlead ⊢
    omega
  have hx : 0 < sizeX.toNat := by omega
  generalize hp : corner v x0 y0 + (sizeX.toNat - lead s sizeX.toNat) = p
  obtain ⟨c, hc⟩ : ∃ c : UInt32, s.bgBuffer[p]? ≠ some c := by
    by_cases h0 : s.bgBuffer[p]? = some 0
    · exact ⟨1, by rw [h0]; decide⟩
    · exact ⟨0, h0⟩
  have hlen : (List.replicate (sizeX.toNat * sizeY.toNat) c).length =
      sizeX.toNat * sizeY.toNat := List.length_replicate
  refine ⟨_, hlen, fun hsame => ?_⟩
  obtain ⟨buf, hflush, hdraw⟩ := same_iff.mp hsame
  rw [flushWindow_eq hs hon hx hy hlen] at hflush
  rw [drawPic32_eq hon hlen] at hdraw
  have hkept : buf[p]? = s.bgBuffer[p]? := by
    apply paint_untouched hflush
    intro m hm
    obtain ⟨j, _, _, hplace, _⟩ := mem_marks hm
    rw [hplace, ← hp]
    exact place_ne hlead hlt hw j
  have hpainted : buf[p]? = some c := by
    apply paint_color hdraw
    · intro m hm _
      obtain ⟨_, _, _, _, hmem⟩ := mem_marks hm
      exact List.eq_of_mem_replicate hmem
    · have hplace : place (corner v x0 y0) sizeX.toNat v.xres.toNat 0
          (sizeX.toNat - lead s sizeX.toNat) = p := by
        rw [place, Nat.zero_add, Nat.div_eq_of_lt (by omega), Nat.zero_mul, Nat.add_zero, hp]
      have hinside : sizeX.toNat - lead s sizeX.toNat <
          0 + (List.replicate (sizeX.toNat * sizeY.toNat) c).length := by
        have := Nat.le_mul_of_pos_right sizeX.toNat hy
        rw [hlen]
        omega
      obtain ⟨m, hm, hmp⟩ := exists_mem_marks _ (Nat.zero_le _) hinside
      exact ⟨m, hm, hmp.trans hplace⟩
  exact hc (hkept ▸ hpainted)

/-- **`FlushWindow` agrees with `DrawPic32`** on all pictures, in a state that any calls have
left, exactly if the window's cursor is at the left, or the rectangle has no more than one
column or no row, or it is as wide as the screen. -/
theorem flush_eq_drawPic_iff (bgBuffer : Vector UInt32 v.pixels) (ops : List Op)
    (rs : List UInt16) (s : State v) (hrun : run call (fresh bgBuffer) ops = some (rs, s))
    (x0 y0 sizeX sizeY : UInt16) (hon : OnScreen v x0 y0 sizeX sizeY) :
    (∀ pic : List UInt32, pic.length = sizeX.toNat * sizeY.toNat →
        Same s x0 y0 sizeX sizeY pic) ↔
      s.window.x = 0 ∨ sizeX ≤ 1 ∨ sizeY = 0 ∨ sizeX.toNat = v.xres.toNat := by
  have hs := run_settled hrun
  have hx0 : s.window.x = 0 ↔ s.window.x.toNat = 0 := UInt16.toNat_inj.symm
  have hx1 : sizeX ≤ 1 ↔ sizeX.toNat ≤ 1 := UInt16.le_iff_toNat_le
  have hy0 : sizeY = 0 ↔ sizeY.toNat = 0 := UInt16.toNat_inj.symm
  rw [hx0, hx1, hy0]
  constructor
  · intro hsame
    by_contra hcond
    simp only [not_or] at hcond
    obtain ⟨hx, hw, hy, hwide⟩ := hcond
    have hlead : 0 < lead s sizeX.toNat := by
      unfold lead
      omega
    have hle := hon.1
    obtain ⟨pic, hpic, hdiff⟩ := not_same hs hon (by omega) hlead (by omega)
    exact hdiff (hsame pic hpic)
  · intro hcond pic hpic
    by_cases h0 : sizeY.toNat = 0
    · exact same_of_empty hon hpic (by rw [h0, Nat.mul_zero])
    · apply same_of_lead hs hon hpic
      unfold lead
      omega

/-- A screen of three columns and two rows. -/
def smallScreen : Screen := ⟨3, 2, by decide⟩

/-- A line leaves the cursor at the left. -/
theorem flush_eq_drawPic_line : ∃ rs s,
    run call (fresh (Vector.replicate smallScreen.pixels 0)) [.drawHorizontalLine32 0 1 2 5] =
      some (rs, s) ∧
    ((∀ pic : List UInt32, pic.length = (2 : UInt16).toNat * (2 : UInt16).toNat →
        Same s 1 0 2 2 pic) ↔
      s.window.x = 0 ∨ (2 : UInt16) ≤ 1 ∨ (2 : UInt16) = 0 ∨
        (2 : UInt16).toNat = smallScreen.xres.toNat) :=
  ⟨_, _, rfl, flush_eq_drawPic_iff _ [.drawHorizontalLine32 0 1 2 5] _ _ rfl 1 0 2 2
    (by decide)⟩

/-- One pixel of a window of two columns leaves the cursor in the second one. -/
theorem flush_shifted : ∃ rs s,
    run call (fresh (Vector.replicate smallScreen.pixels 0)) [.setWindow 0 0 2 1, .fillWindow 7] =
      some (rs, s) ∧ OnScreen smallScreen 0 0 2 1 ∧ ¬ Same s 0 0 2 1 [1, 2] := by
  refine ⟨_, _, rfl, by decide, fun hsame => ?_⟩
  obtain ⟨buf, hflush, hdraw⟩ := same_iff.mp hsame
  have heq := congrArg (Option.map Vector.toList) (hflush.trans hdraw.symm)
  revert heq
  decide

end MyLibraries.FrameBuffer
