import MyLibraries.FrameBuffer.Flush

/-!
# Lines in both directions

A line is a window of one row or one column that is filled from its first end point on, as
many pixels as the end points are apart. So a line that is drawn from its larger end point
does not lie between the two, but on the other side of the larger one. Both directions
leave the same buffer only when there is nothing to draw, or when all pixels that either of
them draws have the colour already.
-/

namespace MyLibraries.FrameBuffer

open Memory Paint Run

variable {v : Screen} {s : State v} {n lo hi p q : Nat} {c : UInt32} {index : Nat → Nat}
  {buf out out₁ out₂ : Vector UInt32 n}

/-- The index of a pixel. -/
def pixelIndex (v : Screen) (x y : Nat) : Nat := x + v.xres.toNat * y

/-- `len` pixels of a line from its pixel `p` on. -/
def stroke (buf : Vector UInt32 n) (index : Nat → Nat) (p len : Nat) (c : UInt32) :
    Option (Vector UInt32 n) :=
  paint buf (marks (fun j => index (p + j)) 0 (List.replicate len c))

/-- The pixels from `lo` to `hi - 1` of a line have been coloured, and no others. -/
def Coloured (buf out : Vector UInt32 n) (index : Nat → Nat) (lo hi : Nat) (c : UInt32) : Prop :=
  ∀ p, ((∃ k, lo ≤ k ∧ k < hi ∧ p = index k) → out[p]? = some c) ∧
    ((∀ k, lo ≤ k → k < hi → p ≠ index k) → out[p]? = buf[p]?)

/-- Two runs leave the same buffer, in which that line has been coloured. -/
def SameLine (s : State v) (r₁ r₂ : Option (State v)) (index : Nat → Nat) (lo hi : Nat)
    (c : UInt32) : Prop :=
  ∃ s₁ s₂, r₁ = some s₁ ∧ r₂ = some s₂ ∧ s₁.bgBuffer = s₂.bgBuffer ∧
    Coloured s.bgBuffer s₁.bgBuffer index lo hi c

/-! ## Strokes -/

theorem stroke_coloured {len : Nat} (h : stroke buf index p len c = some out) :
    Coloured buf out index p (p + len) c := by
  intro i
  constructor
  · rintro ⟨k, hk, hlt, rfl⟩
    apply paint_color h
    · intro w hw _
      obtain ⟨_, _, _, _, hmem⟩ := mem_marks hw
      exact List.eq_of_mem_replicate hmem
    · have hin : k - p < 0 + (List.replicate len c).length := by
        rw [List.length_replicate]
        omega
      obtain ⟨w, hw, hwk⟩ := exists_mem_marks (fun j => index (p + j)) (Nat.zero_le (k - p)) hin
      exact ⟨w, hw, by rw [hwk, Nat.add_sub_cancel' hk]⟩
  · intro hout
    apply paint_untouched h
    intro w hw heq
    obtain ⟨j, _, hj, hwj, _⟩ := mem_marks hw
    rw [List.length_replicate] at hj
    exact hout (p + j) (by omega) (by omega) (heq.symm.trans hwj)

theorem stroke_some {len : Nat} (buf : Vector UInt32 n)
    (hin : ∀ k, p ≤ k → k < p + len → index k < n) :
    ∃ out, stroke buf index p len c = some out := by
  apply paint_some
  intro w hw
  obtain ⟨j, _, hj, hwj, _⟩ := mem_marks hw
  rw [List.length_replicate] at hj
  rw [hwj]
  exact hin (p + j) (by omega) (by omega)

/-- Colouring what has the colour changes nothing. -/
theorem Coloured.eq_of_same (h : Coloured buf out index lo hi c)
    (hsame : ∀ k, lo ≤ k → k < hi → buf[index k]? = some c) : out = buf := by
  apply Vector.ext
  intro i hi'
  have hget : out[i]? = buf[i]? := by
    by_cases hhit : ∃ k, lo ≤ k ∧ k < hi ∧ i = index k
    · obtain ⟨k, hk, hlt, rfl⟩ := hhit
      rw [(h _).1 ⟨k, hk, hlt, rfl⟩, hsame k hk hlt]
    · exact (h i).2 fun k hk hlt heq => hhit ⟨k, hk, hlt, heq⟩
  rwa [Vector.getElem?_eq_getElem hi', Vector.getElem?_eq_getElem hi', Option.some.injEq] at hget

/-- **Two strokes side by side** leave the same buffer exactly when neither changes it. -/
theorem strokes_eq_iff (hinj : Function.Injective index) (hle : lo ≤ hi)
    (hlo : stroke buf index lo (hi - lo) c = some out₁) :
    stroke buf index hi (hi - lo) c = some out₁ ↔
      lo = hi ∨ ∀ k, lo ≤ k → k < 2 * hi - lo → buf[index k]? = some c := by
  have hlow := stroke_coloured hlo
  rw [Nat.add_sub_cancel' hle] at hlow
  constructor
  · intro hhi
    have hhigh := stroke_coloured hhi
    refine Or.inr fun k hk hlt => ?_
    rcases Nat.lt_or_ge k hi with hin | hin
    · rw [← (hhigh (index k)).2 fun j hj _ heq => by have := hinj heq; omega]
      exact (hlow (index k)).1 ⟨k, hk, hin, rfl⟩
    · rw [← (hlow (index k)).2 fun j _ hj heq => by have := hinj heq; omega]
      exact (hhigh (index k)).1 ⟨k, hin, by omega, rfl⟩
  · rintro (rfl | hsame)
    · rw [Nat.sub_self] at hlo ⊢
      exact hlo
    · have hin : ∀ k, hi ≤ k → k < hi + (hi - lo) → index k < n := by
        intro k hk hlt
        have hsome := hsame k (by omega) (by omega)
        exact (Vector.getElem?_eq_some_iff.mp hsome).1
      obtain ⟨out₂, hhi⟩ := stroke_some (c := c) buf hin
      have hhigh := stroke_coloured hhi
      have heq₁ := hlow.eq_of_same fun k hk hlt => hsame k hk (by omega)
      have heq₂ := hhigh.eq_of_same fun k hk hlt => hsame k (by omega) (by omega)
      rw [hhi, heq₁, heq₂]

/-! ## Lines -/

theorem SameLine.symm {r₁ r₂ : Option (State v)} (h : SameLine s r₁ r₂ index lo hi c) :
    SameLine s r₂ r₁ index lo hi c := by
  obtain ⟨s₁, s₂, h₁, h₂, hbuf, hcol⟩ := h
  exact ⟨s₂, s₁, h₂, h₁, hbuf.symm, hbuf ▸ hcol⟩

theorem sameLine_iff {r₁ r₂ : Option (State v)} (hinj : Function.Injective index) (hle : lo ≤ hi)
    (hin : ∀ k, lo ≤ k → k < hi → index k < v.pixels)
    (h₁ : r₁.map State.bgBuffer = stroke s.bgBuffer index lo (hi - lo) c)
    (h₂ : r₂.map State.bgBuffer = stroke s.bgBuffer index hi (hi - lo) c) :
    SameLine s r₁ r₂ index lo hi c ↔
      lo = hi ∨ ∀ k, lo ≤ k → k < 2 * hi - lo → s.bgBuffer[index k]? = some c := by
  obtain ⟨out, hout⟩ : ∃ out, stroke s.bgBuffer index lo (hi - lo) c = some out :=
    stroke_some s.bgBuffer fun k hk hlt => hin k hk (by omega)
  have hcol := stroke_coloured hout
  rw [Nat.add_sub_cancel' hle] at hcol
  rw [← strokes_eq_iff hinj hle hout, ← h₂, Option.map_eq_some_iff]
  rw [hout] at h₁
  obtain ⟨s₁, hs₁, rfl⟩ := Option.map_eq_some_iff.mp h₁
  constructor
  · rintro ⟨t₁, s₂, ht₁, hs₂, hbuf, -⟩
    obtain rfl := Option.some.inj (ht₁.symm.trans hs₁)
    exact ⟨s₂, hs₂, hbuf.symm⟩
  · rintro ⟨s₂, hs₂, hbuf⟩
    exact ⟨s₁, s₂, hs₁, hs₂, hbuf.symm, hcol⟩

theorem fillTimes_eq (s : State v) (len : Nat) (c : UInt32) :
    fillTimes s len c = (List.replicate len c).foldlM fillWindow s := by
  have hmap : (List.range len).map (fun _ => c) = List.replicate len c := by
    rw [List.map_const', List.length_range]
  rw [fillTimes, ← hmap, List.foldlM_map]

/-- A window of one row or one column, filled from the left. -/
theorem fillTimes_stroke {x y sizeX sizeY : UInt16} {len : Nat} (hx : s.window.x = 0)
    (hw : 0 < sizeX.toNat) (hle : sizeX.toNat ≤ v.xres.toNat)
    (hin : pixelIndex v x.toNat y.toNat < v.pixels)
    (hplace : ∀ j, j < len →
      place (pixelIndex v x.toNat y.toNat) sizeX.toNat v.xres.toNat 0 j = index (p + j)) :
    (fillTimes (setWindow s x y sizeX sizeY) len c).map State.bgBuffer =
      stroke s.bgBuffer index p len c := by
  have hsettled : Settled (setWindow s x y sizeX sizeY) := by
    show s.window.x.toNat < 65535
    rw [hx]
    decide
  rw [fillTimes_eq, stroke, ← marks_congr fun j _ hj =>
    hplace j (by rw [List.length_replicate] at hj; omega)]
  refine fills_eq hw hle _ 0 hsettled rfl rfl ?_ ?_
  · show wrap 32 (pixelIndex v x.toNat y.toNat) = _
    rw [wrap_of_lt_pixels hin, place, Nat.zero_add, Nat.zero_div, Nat.zero_mul]
    rfl
  · show min s.window.x.toNat _ = _
    rw [hx]
    exact (Nat.zero_min _).trans (Nat.zero_mod _).symm

/-- How far two end points are apart. -/
def apart (a b : UInt16) : Nat := max a.toNat b.toNat - min a.toNat b.toNat

theorem toNat_apart (a b : UInt16) : (if b > a then b - a else a - b).toNat = apart a b := by
  unfold apart
  split
  · rename_i hgt
    rw [gt_iff_lt, UInt16.lt_iff_toNat_lt] at hgt
    rw [UInt16.toNat_sub_of_le _ _ (UInt16.le_iff_toNat_le.mpr (by omega))]
    omega
  · rename_i hle
    rw [gt_iff_lt, UInt16.lt_iff_toNat_lt] at hle
    rw [UInt16.toNat_sub_of_le _ _ (UInt16.le_iff_toNat_le.mpr (by omega))]
    omega

theorem pixelIndex_lt {x y : Nat} (hx : x < v.xres.toNat) (hy : y < v.yres.toNat) :
    pixelIndex v x y < v.pixels := by
  have hrow := Nat.mul_le_mul_left v.xres.toNat hy
  rw [Nat.mul_succ] at hrow
  unfold pixelIndex Screen.pixels
  omega

/-- What `DrawHorizontalLine32` paints. -/
theorem drawHorizontalLine32_stroke {a b y : UInt16} (hx : s.window.x = 0)
    (ha : a.toNat < v.xres.toNat) (hb : b.toNat < v.xres.toNat) (hy : y.toNat < v.yres.toNat) :
    (drawHorizontalLine32 s a y b c).map State.bgBuffer =
      stroke s.bgBuffer (fun k => pixelIndex v k y.toNat) a.toNat (apart a b) c := by
  have hlen := toNat_apart a b
  have hle : apart a b ≤ v.xres.toNat := by
    unfold apart
    omega
  unfold drawHorizontalLine32
  dsimp only
  rw [hlen]
  rcases Nat.eq_zero_or_pos (apart a b) with hzero | hpos
  · rw [hzero]
    rfl
  · refine fillTimes_stroke hx (by rwa [hlen]) (by rwa [hlen]) (pixelIndex_lt ha hy) ?_
    intro j hj
    rw [hlen, place, Nat.zero_add, Nat.div_eq_of_lt hj, Nat.zero_mul, pixelIndex, pixelIndex]
    omega

/-- What `DrawVerticalLine32` paints. -/
theorem drawVerticalLine32_stroke {a b x : UInt16} (hx : s.window.x = 0)
    (ha : a.toNat < v.yres.toNat) (hin : x.toNat < v.xres.toNat) :
    (drawVerticalLine32 s x a b c).map State.bgBuffer =
      stroke s.bgBuffer (fun k => pixelIndex v x.toNat k) a.toNat (apart a b) c := by
  unfold drawVerticalLine32
  dsimp only
  rw [toNat_apart a b]
  refine fillTimes_stroke hx Nat.one_pos (show 1 ≤ v.xres.toNat by omega) (pixelIndex_lt hin ha) ?_
  intro j _
  obtain ⟨w, hw⟩ : ∃ w, v.xres.toNat = w + 1 := ⟨v.xres.toNat - 1, by omega⟩
  show place _ 1 v.xres.toNat 0 j = _
  rw [place, Nat.zero_add, Nat.div_one, pixelIndex, pixelIndex, hw, Nat.add_sub_cancel,
    Nat.mul_add, Nat.succ_mul w j, Nat.mul_comm j w]
  omega

theorem apart_comm (a b : UInt16) : apart b a = apart a b := by
  rw [apart, apart, Nat.max_comm, Nat.min_comm]

/-- Two lines between the same end points, whichever is the smaller one. -/
theorem sameLine_iff_of_ends {a b : UInt16} {r₁ r₂ : Option (State v)}
    (hinj : Function.Injective index)
    (hin : ∀ k, k < max a.toNat b.toNat → index k < v.pixels)
    (h₁ : r₁.map State.bgBuffer = stroke s.bgBuffer index a.toNat (apart a b) c)
    (h₂ : r₂.map State.bgBuffer = stroke s.bgBuffer index b.toNat (apart b a) c) :
    SameLine s r₁ r₂ index (min a.toNat b.toNat) (max a.toNat b.toNat) c ↔
      a = b ∨ ∀ k, min a.toNat b.toNat ≤ k → k < 2 * max a.toNat b.toNat - min a.toNat b.toNat →
        s.bgBuffer[index k]? = some c := by
  rw [apart_comm] at h₂
  unfold apart at h₁ h₂
  rw [← UInt16.toNat_inj]
  rcases Nat.le_total a.toNat b.toNat with hab | hba
  · simp only [Nat.max_eq_right hab, Nat.min_eq_left hab] at h₁ h₂ hin ⊢
    exact sameLine_iff hinj hab (fun k _ hk => hin k hk) h₁ h₂
  · simp only [Nat.max_eq_left hba, Nat.min_eq_right hba] at h₁ h₂ hin ⊢
    rw [@eq_comm _ a.toNat, ← sameLine_iff hinj hba (fun k _ hk => hin k hk) h₂ h₁]
    exact ⟨SameLine.symm, SameLine.symm⟩

/-- **When the direction of a line does not matter.** -/
theorem lines_direction_iff (s : State v) (hx : s.window.x = 0) (c : UInt32) :
    (∀ a b y0 : UInt16, a.toNat < v.xres.toNat → b.toNat < v.xres.toNat →
      y0.toNat < v.yres.toNat →
      (SameLine s (drawHorizontalLine32 s a y0 b c) (drawHorizontalLine32 s b y0 a c)
          (fun k => pixelIndex v k y0.toNat) (min a.toNat b.toNat) (max a.toNat b.toNat) c ↔
        a = b ∨ ∀ k, min a.toNat b.toNat ≤ k →
          k < 2 * max a.toNat b.toNat - min a.toNat b.toNat →
            s.bgBuffer[pixelIndex v k y0.toNat]? = some c)) ∧
    ∀ a b x0 : UInt16, a.toNat < v.yres.toNat → b.toNat < v.yres.toNat →
      x0.toNat < v.xres.toNat →
      (SameLine s (drawVerticalLine32 s x0 a b c) (drawVerticalLine32 s x0 b a c)
          (fun k => pixelIndex v x0.toNat k) (min a.toNat b.toNat) (max a.toNat b.toNat) c ↔
        a = b ∨ ∀ k, min a.toNat b.toNat ≤ k →
          k < 2 * max a.toNat b.toNat - min a.toNat b.toNat →
            s.bgBuffer[pixelIndex v x0.toNat k]? = some c) := by
  constructor
  · intro a b y0 ha hb hy
    refine sameLine_iff_of_ends (fun k k' h => ?_) (fun k hk => pixelIndex_lt (by omega) hy)
      (drawHorizontalLine32_stroke hx ha hb hy) (drawHorizontalLine32_stroke hx hb ha hy)
    unfold pixelIndex at h
    omega
  · intro a b x0 ha hb hx0
    refine sameLine_iff_of_ends (fun k k' h => ?_) (fun k hk => pixelIndex_lt hx0 (by omega))
      (drawVerticalLine32_stroke hx ha hx0) (drawVerticalLine32_stroke hx hb hx0)
    unfold pixelIndex at h
    exact Nat.eq_of_mul_eq_mul_left (show 0 < v.xres.toNat by omega) (Nat.add_left_cancel h)

/-- On a black screen. -/
theorem lines_direction_iff_black :
    SameLine (fresh (Vector.replicate smallScreen.pixels 0))
        (drawHorizontalLine32 (fresh (Vector.replicate smallScreen.pixels 0)) 0 0 1 7)
        (drawHorizontalLine32 (fresh (Vector.replicate smallScreen.pixels 0)) 1 0 0 7)
        (fun k => pixelIndex smallScreen k 0) 0 1 7 ↔
      (0 : UInt16) = 1 ∨ ∀ k, 0 ≤ k → k < 2 →
        (Vector.replicate smallScreen.pixels (0 : UInt32))[pixelIndex smallScreen k 0]? =
          some 7 :=
  (lines_direction_iff (fresh (Vector.replicate smallScreen.pixels 0)) rfl 7).1 0 1 0
    (by decide) (by decide) (by decide)

/-- From 0 to 1 the pixel 0 is coloured, from 1 to 0 the pixel 1. -/
theorem lines_differ : ∃ s₁ s₂,
    drawHorizontalLine32 (fresh (Vector.replicate smallScreen.pixels 0)) 0 0 1 7 = some s₁ ∧
    drawHorizontalLine32 (fresh (Vector.replicate smallScreen.pixels 0)) 1 0 0 7 = some s₂ ∧
    s₁.bgBuffer ≠ s₂.bgBuffer := by
  refine ⟨_, _, rfl, rfl, fun heq => ?_⟩
  have hpixel := congrArg (fun buf : Vector UInt32 smallScreen.pixels => buf[0]?) heq
  revert hpixel
  decide

end MyLibraries.FrameBuffer
