import MyLibraries.FrameBuffer.Model

/-!
# Filling a window

The cursor `x` of the window outlives it. When a window of `w` columns is filled from a
cursor `x`, the first row is `min x (w - 1)` pixels short and every later row begins that
many pixels too far left (`place`); only a window as wide as the screen, in which the rows
touch, hides it.
-/

namespace MyLibraries.FrameBuffer

open Memory Paint Run

variable {v : Screen} {s s' : State v} {x0 y0 sizeX sizeY : UInt16} {pic : List UInt32}

/-- Where the pixel `j` of a window goes that is filled from the column `x` on. -/
def place (start w xres x j : Nat) : Nat := start + j + (x + j) / w * (xres - w)

/-- The rectangle lies on the screen. -/
def OnScreen (v : Screen) (x0 y0 sizeX sizeY : UInt16) : Prop :=
  x0.toNat + sizeX.toNat ≤ v.xres.toNat ∧ y0.toNat + sizeY.toNat ≤ v.yres.toNat

instance : Decidable (OnScreen v x0 y0 sizeX sizeY) := inferInstanceAs (Decidable (_ ∧ _))

/-- The index of the upper left pixel of a rectangle. -/
def corner (v : Screen) (x0 y0 : UInt16) : Nat := x0.toNat + v.xres.toNat * y0.toNat

/-- The cursor, as far as a window of `w` columns can tell. -/
def lead (s : State v) (w : Nat) : Nat := min s.window.x.toNat (w - 1)

/-- `FlushWindow` and `DrawPic32` leave the same buffer. -/
def Same (s : State v) (x0 y0 sizeX sizeY : UInt16) (pic : List UInt32) : Prop :=
  ∃ s₁ s₂, flushWindow s x0 y0 sizeX sizeY pic = some s₁ ∧
    drawPic32 s x0 y0 sizeX sizeY pic = some s₂ ∧ s₁.bgBuffer = s₂.bgBuffer

/-! ## The cursor -/

/-- The cursor never rests on the largest column. -/
def Settled (s : State v) : Prop := s.window.x.toNat < 65535

theorem poke_window {p : Nat} {c : UInt32} (h : poke s p c = some s') : s'.window = s.window := by
  obtain ⟨buf, _, rfl⟩ := Option.map_eq_some_iff.mp h
  rfl

theorem fillWindow_settled {c : UInt32} (hs : Settled s) (h : fillWindow s c = some s') :
    Settled s' := by
  unfold fillWindow at h
  split at h
  · cases h
    exact hs
  · obtain ⟨s₁, h₁, hrest⟩ := Option.bind_eq_some_iff.mp h
    dsimp only at hrest
    split at hrest
    · rename_i hlt
      cases hrest
      have hmax := s₁.window.xMax.toNat_lt
      have hlt' := UInt16.lt_iff_toNat_lt.mp hlt
      show (s₁.window.x + 1).toNat < 65535
      omega
    · cases hrest
      show (0 : UInt16).toNat < 65535
      decide

theorem fillTimes_settled {n : Nat} {c : UInt32} (hs : Settled s) (h : fillTimes s n c = some s') :
    Settled s' :=
  inv_of_foldlM Settled (fun _ _ _ hs h => fillWindow_settled hs h) hs h

theorem drawHorizontalLine32_settled {x0 y0 x1 : UInt16} {c : UInt32} (hs : Settled s)
    (h : drawHorizontalLine32 s x0 y0 x1 c = some s') : Settled s' := by
  unfold drawHorizontalLine32 at h
  dsimp only at h
  exact fillTimes_settled (show Settled (setWindow s x0 y0 _ 1) from hs) h

theorem drawVerticalLine32_settled {x0 y0 y1 : UInt16} {c : UInt32} (hs : Settled s)
    (h : drawVerticalLine32 s x0 y0 y1 c = some s') : Settled s' := by
  unfold drawVerticalLine32 at h
  dsimp only at h
  exact fillTimes_settled (show Settled (setWindow s x0 y0 1 _) from hs) h

theorem flushWindow_settled {color : List UInt32} (hs : Settled s)
    (h : flushWindow s x0 y0 sizeX sizeY color = some s') : Settled s' := by
  unfold flushWindow at h
  dsimp only at h
  split at h
  · refine inv_of_foldlM Settled (fun s₁ i s₂ hs₁ h₁ => ?_) ?_ h
    swap
    · exact hs
    obtain ⟨c, _, hfill⟩ := Option.bind_eq_some_iff.mp h₁
    exact fillWindow_settled hs₁ hfill
  · cases h

theorem drawPic32_window
    (h : drawPic32 s x0 y0 sizeX sizeY pic = some s') : s'.window = s.window := by
  obtain ⟨⟨s₁, p⟩, hloop, rfl⟩ := Option.map_eq_some_iff.mp h
  have hpixel : ∀ y (sp : State v × Nat) x sp', sp.1.window = s.window →
      picPixel x0 y0 pic y sp x = some sp' → sp'.1.window = s.window := by
    intro y sp x sp' hsp hp
    obtain ⟨c, _, hrest⟩ := Option.bind_eq_some_iff.mp hp
    obtain ⟨s₂, hpoke, hend⟩ := Option.bind_eq_some_iff.mp hrest
    cases hend
    exact (poke_window hpoke).trans hsp
  refine inv_of_foldlM (fun sp => sp.1.window = s.window) (fun sp y sp' hsp hrow => ?_) rfl hloop
  exact inv_of_foldlM (fun sp => sp.1.window = s.window) (hpixel y) hsp hrow

theorem printChar_settled {x0 y0 : UInt16} {ch : UInt8} (hs : Settled s)
    (h : printChar s x0 y0 ch = some s') : Settled s' := by
  obtain ⟨font, _, hloop⟩ := Option.bind_eq_some_iff.mp h
  refine inv_of_foldlM Settled (fun s₁ x s₂ hs₁ hcol => ?_) ?_ hloop
  · refine inv_of_foldlM Settled (fun s₃ y s₄ hs₃ hpix => ?_) hs₁ hcol
    obtain ⟨c, _, hfill⟩ := Option.bind_eq_some_iff.mp hpix
    exact fillWindow_settled hs₃ hfill
  · exact hs

theorem printLoop_settled {x x0 y0 row r : UInt16} {text : List UInt8} (hs : Settled s)
    (h : printLoop x s x0 y0 row text = some (r, s')) : Settled s' := by
  induction text generalizing s x0 y0 row with
  | nil =>
    cases h
    exact hs
  | cons ch text ih =>
    obtain ⟨font, _, hrest⟩ := Option.bind_eq_some_iff.mp h
    split at hrest
    · exact ih hs hrest
    · obtain ⟨s₁, hchar, hmore⟩ := Option.bind_eq_some_iff.mp hrest
      exact ih (printChar_settled hs hchar) hmore

/-- Every call leaves a settled cursor. -/
theorem call_settled {op : Op} {r : UInt16} (hs : Settled s) (h : call s op = some (r, s')) :
    Settled s' := by
  have hmap : ∀ {x : Option (State v)}, x.map (Prod.mk 0) = some (r, s') → x = some s' := by
    intro x hx
    obtain ⟨s₁, hs₁, heq⟩ := Option.map_eq_some_iff.mp hx
    cases heq
    exact hs₁
  cases op with
  | clearScreen color =>
    cases h
    exact hs
  | setWindow x0 y0 sizeX sizeY =>
    cases h
    exact hs
  | fillWindow color => exact fillWindow_settled hs (hmap h)
  | flushWindow x0 y0 sizeX sizeY color => exact flushWindow_settled hs (hmap h)
  | drawPic32 x0 y0 sizeX sizeY pic =>
    have hw := drawPic32_window (hmap h)
    unfold Settled at hs ⊢
    rw [hw]
    exact hs
  | drawPixel32 x0 y0 color =>
    have hw := poke_window (hmap h)
    unfold Settled at hs ⊢
    rw [hw]
    exact hs
  | drawHorizontalLine32 x0 y0 x1 color => exact drawHorizontalLine32_settled hs (hmap h)
  | drawVerticalLine32 x0 y0 y1 color => exact drawVerticalLine32_settled hs (hmap h)
  | drawCross x0 y0 size color =>
    obtain ⟨s₁, h₁, h₂⟩ := Option.bind_eq_some_iff.mp (hmap h)
    exact drawVerticalLine32_settled (drawHorizontalLine32_settled hs h₁) h₂
  | setFont font =>
    cases h
    exact hs
  | printText x0 y0 text => exact printLoop_settled hs h

/-- The cursor of every reachable state. -/
theorem run_settled {bgBuffer : Vector UInt32 v.pixels} {ops : List Op} {rs : List UInt16}
    (h : run call (fresh bgBuffer) ops = some (rs, s)) : Settled s := by
  have hstep : ∀ (s : State v) op r s', Settled s → True → call s op = some (r, s') →
      Settled s' := fun _ _ _ _ hs _ h => call_settled hs h
  have hfresh : Settled (fresh bgBuffer) := by
    show (0 : UInt16).toNat < 65535
    decide
  exact inv_of_alongRun hstep hfresh (alongRun_of_forall (fun _ _ _ => trivial) _) h

/-! ## Filling -/

/-- The window behind a pixel. -/
def nextWindow (v : Screen) (w : Window) : Window :=
  if w.x + 1 < w.xMax then { w with ptr := w.ptr + 1, x := w.x + 1 }
  else { w with ptr := w.ptr + 1 + (v.xres - w.xMax.toUInt32).toNat, x := 0 }

theorem fillWindow_eq (hinit : s.window.windowInit = true) (c : UInt32) :
    fillWindow s c = (mark s.bgBuffer (s.window.ptr, c)).map fun bgBuffer =>
      { s with bgBuffer, window := nextWindow v s.window } := by
  unfold fillWindow poke
  rw [if_neg (by simp [hinit])]
  cases mark s.bgBuffer (s.window.ptr, c) with
  | none => rfl
  | some buf =>
    rw [Option.map_some, Option.map_some, nextWindow]
    dsimp only [Option.bind_eq_bind, Option.bind_some]
    split <;> rfl

theorem place_succ {w : Nat} (hw : 0 < w) (start xres x j : Nat) :
    place start w xres x (j + 1) =
      if (x + j) % w + 1 < w then place start w xres x j + 1
      else place start w xres x j + 1 + (xres - w) := by
  have hdiv := Nat.div_add_mod (x + j) w
  have hmod := Nat.mod_lt (x + j) hw
  rw [Nat.mul_comm] at hdiv
  unfold place
  split
  · have hq : (x + (j + 1)) / w = (x + j) / w := by
      apply Nat.div_eq_of_lt_le
      · omega
      · rw [Nat.succ_mul]
        omega
    rw [hq]
    omega
  · have hq : (x + (j + 1)) / w = (x + j) / w + 1 := by
      apply Nat.div_eq_of_lt_le
      · rw [Nat.succ_mul]
        omega
      · rw [Nat.succ_mul, Nat.succ_mul]
        omega
    rw [hq, Nat.succ_mul]
    omega

theorem mod_succ {w : Nat} (hw : 0 < w) (a : Nat) :
    (a + 1) % w = if a % w + 1 < w then a % w + 1 else 0 := by
  have hmod := Nat.mod_lt a hw
  rw [Nat.add_mod]
  split
  · rename_i hlt
    rw [Nat.mod_eq_of_lt (show 1 < w by omega), Nat.mod_eq_of_lt hlt]
  · rename_i hge
    by_cases hone : w = 1
    · rw [hone, Nat.mod_one]
    · rw [Nat.mod_eq_of_lt (show 1 < w by omega), show a % w + 1 = w by omega, Nat.mod_self]

/-- **What filling a window paints**, from any cursor. -/
theorem fills_eq {start w x : Nat} (hw : 0 < w) (hle : w ≤ v.xres.toNat) (cs : List UInt32)
    (k : Nat) (hs : Settled s) (hinit : s.window.windowInit = true)
    (hmax : s.window.xMax.toNat = w) (hptr : s.window.ptr = place start w v.xres.toNat x k)
    (hx : min s.window.x.toNat (w - 1) = (x + k) % w) :
    (cs.foldlM fillWindow s).map State.bgBuffer =
      paint s.bgBuffer (marks (place start w v.xres.toNat x) k cs) := by
  induction cs generalizing s k with
  | nil => rfl
  | cons c cs ih =>
    unfold Settled at hs
    have hwidth := s.window.xMax.toNat_lt
    have hstep : (s.window.x + 1).toNat = s.window.x.toNat + 1 := by
      rw [UInt16.toNat_add]
      exact Nat.mod_eq_of_lt (by
        show s.window.x.toNat + 1 < 65536
        omega)
    have hstride : (v.xres - s.window.xMax.toUInt32).toNat = v.xres.toNat - w := by
      rw [UInt32.toNat_sub_of_le, UInt16.toNat_toUInt32, hmax]
      rw [UInt32.le_iff_toNat_le, UInt16.toNat_toUInt32, hmax]
      exact hle
    have hrow : s.window.x + 1 < s.window.xMax ↔ (x + k) % w + 1 < w := by
      rw [UInt16.lt_iff_toNat_lt, hstep, hmax]
      omega
    rw [List.foldlM_cons, fillWindow_eq hinit, marks, paint, hptr]
    cases mark s.bgBuffer (place start w v.xres.toNat x k, c) with
    | none => rfl
    | some buf =>
      simp only [Option.map_some, Option.bind_eq_bind, Option.bind_some]
      have hplace := place_succ hw start v.xres.toNat x k
      have hmod := mod_succ hw (x + k)
      unfold nextWindow
      by_cases hlt : (x + k) % w + 1 < w
      · rw [if_pos (hrow.mpr hlt)]
        rw [if_pos hlt] at hplace hmod
        refine ih (k + 1) ?_ hinit hmax ?_ ?_
        · have := (hrow.mpr hlt)
          rw [UInt16.lt_iff_toNat_lt, hstep] at this
          show (s.window.x + 1).toNat < 65535
          omega
        · show s.window.ptr + 1 = _
          rw [hplace, hptr]
        · show min (s.window.x + 1).toNat (w - 1) = _
          rw [← Nat.add_assoc, hmod, hstep]
          omega
      · rw [if_neg fun h => hlt (hrow.mp h)]
        rw [if_neg hlt] at hplace hmod
        refine ih (k + 1) ?_ hinit hmax ?_ ?_
        · show (0 : UInt16).toNat < 65535
          decide
        · show s.window.ptr + 1 + (v.xres - s.window.xMax.toUInt32).toNat = _
          rw [hplace, hptr, hstride]
        · show min (0 : UInt16).toNat (w - 1) = _
          rw [← Nat.add_assoc, hmod]
          exact Nat.zero_min _

/-! ## Pictures -/

theorem OnScreen.address_lt (h : OnScreen v x0 y0 sizeX sizeY) {x y : Nat}
    (hx : x < sizeX.toNat) (hy : y < sizeY.toNat) :
    x + x0.toNat + v.xres.toNat * (y0.toNat + y) < v.pixels := by
  have hrow : v.xres.toNat * (y0.toNat + y) + v.xres.toNat ≤ v.pixels := by
    rw [← Nat.mul_succ]
    apply Nat.mul_le_mul_left
    have := h.2
    omega
  have := h.1
  omega

theorem wrap_of_lt_pixels {p : Nat} (h : p < v.pixels) : wrap 32 p = p := by
  apply wrap_of_lt
  have hpixels : v.pixels < 2 ^ 27 := v.pixels_lt
  omega

theorem OnScreen.corner_lt (h : OnScreen v x0 y0 sizeX sizeY) (hx : 0 < sizeX.toNat)
    (hy : 0 < sizeY.toNat) : corner v x0 y0 < v.pixels := by
  have hlt := h.address_lt hx hy
  rw [Nat.add_zero] at hlt
  unfold corner
  omega

theorem OnScreen.area_le (h : OnScreen v x0 y0 sizeX sizeY) :
    sizeX.toNat * sizeY.toNat ≤ v.pixels := by
  apply Nat.mul_le_mul
  · have := h.1
    omega
  · have := h.2
    omega

/-- **What `FlushWindow` paints.** -/
theorem flushWindow_eq (hs : Settled s) (hon : OnScreen v x0 y0 sizeX sizeY)
    (hx : 0 < sizeX.toNat) (hy : 0 < sizeY.toNat)
    (hpic : pic.length = sizeX.toNat * sizeY.toNat) :
    (flushWindow s x0 y0 sizeX sizeY pic).map State.bgBuffer =
      paint s.bgBuffer (marks (place (corner v x0 y0) sizeX.toNat v.xres.toNat
        (lead s sizeX.toNat)) 0 pic) := by
  have harea := hon.area_le
  have hpixels : v.pixels < 2 ^ 27 := v.pixels_lt
  have hw : sizeX.toNat ≤ v.xres.toNat := by
    have := hon.1
    omega
  have hlead : lead s sizeX.toNat < sizeX.toNat := by
    unfold lead
    omega
  have hloop := foldlM_range_getElem? fillWindow (setWindow s x0 y0 sizeX sizeY) pic
    (Nat.le_of_eq hpic.symm)
  rw [← hpic, List.take_length] at hloop
  unfold flushWindow
  dsimp only
  rw [if_pos (by omega), ← hpic]
  refine (congrArg (Option.map State.bgBuffer) hloop).trans ?_
  refine fills_eq hx hw pic 0 hs rfl rfl ?_ ?_
  · show wrap 32 (corner v x0 y0) = _
    rw [wrap_of_lt_pixels (hon.corner_lt hx hy), place, Nat.add_zero, Nat.add_zero,
      Nat.div_eq_of_lt hlead, Nat.zero_mul, Nat.add_zero]
  · rw [Nat.add_zero, Nat.mod_eq_of_lt hlead]
    rfl

theorem place_row {y w x xres : Nat} (hx : x < w) (hw : w ≤ xres) :
    place (corner v x0 y0) w xres 0 (y * w + x) = corner v x0 y0 + x + y * xres := by
  have hrow : (0 + (y * w + x)) / w = y := by
    apply Nat.div_eq_of_lt_le
    · omega
    · rw [Nat.succ_mul]
      omega
  have hstride : y * w + y * (xres - w) = y * xres := by
    rw [← Nat.mul_add]
    congr 1
    omega
  unfold place
  rw [hrow]
  omega

/-- What `DrawPic32` has painted behind `j` pixels. -/
def drawn (s : State v) (pos : Nat → Nat) (pic : List UInt32) (j : Nat) :
    Option (State v × Nat) :=
  (paint s.bgBuffer (marks pos 0 (pic.take j))).map fun bgBuffer => ({ s with bgBuffer }, j)

theorem drawn_picPixel (hon : OnScreen v x0 y0 sizeX sizeY)
    (hpic : pic.length = sizeX.toNat * sizeY.toNat) {x y : Nat} (hx : x < sizeX.toNat)
    (hy : y < sizeY.toNat) :
    ((drawn s (place (corner v x0 y0) sizeX.toNat v.xres.toNat 0) pic
        (y * sizeX.toNat + x)).bind fun sp => picPixel x0 y0 pic y sp x) =
      drawn s (place (corner v x0 y0) sizeX.toNat v.xres.toNat 0) pic
        (y * sizeX.toNat + x + 1) := by
  have hw : sizeX.toNat ≤ v.xres.toNat := by
    have := hon.1
    omega
  have hindex : y * sizeX.toNat + x < pic.length := by
    have hrow : y * sizeX.toNat + sizeX.toNat ≤ sizeY.toNat * sizeX.toNat := by
      rw [← Nat.succ_mul]
      exact Nat.mul_le_mul_right _ hy
    rw [hpic, Nat.mul_comm sizeX.toNat]
    omega
  have hplace : wrap 32 (x + x0.toNat + v.xres.toNat * (y0.toNat + y)) =
      place (corner v x0 y0) sizeX.toNat v.xres.toNat 0 (y * sizeX.toNat + x) := by
    rw [wrap_of_lt_pixels (hon.address_lt hx hy), place_row hx hw, corner, Nat.mul_add,
      Nat.mul_comm y]
    omega
  have hc := List.getElem?_eq_getElem hindex
  unfold drawn
  rw [paint_marks_succ _ _ hc]
  cases paint s.bgBuffer (marks _ 0 (pic.take (y * sizeX.toNat + x))) with
  | none => rfl
  | some buf =>
    simp only [Option.map_some, Option.bind_some, picPixel, poke, hc, hplace,
      Option.bind_eq_bind]
    cases mark buf _ with
    | none => rfl
    | some buf' => rfl

/-- **What `DrawPic32` paints.** -/
theorem drawPic32_eq (hon : OnScreen v x0 y0 sizeX sizeY)
    (hpic : pic.length = sizeX.toNat * sizeY.toNat) :
    (drawPic32 s x0 y0 sizeX sizeY pic).map State.bgBuffer =
      paint s.bgBuffer (marks (place (corner v x0 y0) sizeX.toNat v.xres.toNat 0) 0 pic) := by
  have hrow : ∀ y, y < sizeY.toNat →
      ((drawn s (place (corner v x0 y0) sizeX.toNat v.xres.toNat 0) pic (y * sizeX.toNat)).bind
        fun sp => (List.range sizeX.toNat).foldlM (picPixel x0 y0 pic y) sp) =
      drawn s (place (corner v x0 y0) sizeX.toNat v.xres.toNat 0) pic
        ((y + 1) * sizeX.toNat) := by
    intro y hy
    rw [Nat.succ_mul]
    exact bind_foldlM_range (fun x => drawn s _ pic (y * sizeX.toNat + x))
      fun x hx => drawn_picPixel hon hpic hx hy
  have hall := bind_foldlM_range (fun y => drawn s _ pic (y * sizeX.toNat)) hrow
  rw [Nat.mul_comm sizeY.toNat, ← hpic, drawn, drawn, Nat.zero_mul, List.take_zero,
    List.take_length] at hall
  replace hall : (List.range sizeY.toNat).foldlM (fun sp y =>
      (List.range sizeX.toNat).foldlM (picPixel x0 y0 pic y) sp) (s, 0) = _ := hall
  unfold drawPic32
  rw [hall, Option.map_map, Option.map_map]
  exact Option.map_id'

end MyLibraries.FrameBuffer
