import Mathlib.Algebra.Order.Ring.Int
import Mathlib.Tactic.Ring
import MyLibraries.FrameBuffer.Model

/-!
# Circles

`DrawCircle32` and `DrawFilledCircle32` share a loop that walks a quarter of the circle from
`(-r, 0)` to `(0, r)`. How it stores `err` is a parameter: exactly, in 16 bits as the code
does, or in 16 bits with a stop where a value does not fit.

With `d = x ^ 2 + y ^ 2 - r ^ 2` the error term is `d + 2 * x + 2 * y + 2`, and `d` is at
most as large as the larger coordinate. So every round moves, the quarter is never left, and
the axis is met in `(0, r)` only.
-/

namespace MyLibraries.FrameBuffer

variable {v : Screen} {σ : Type}

/-! ## The code -/

/-- The value of an expression in an `int16_t`. -/
def int16 (e : Int) : Int := e.bmod 65536

/-- `err` in exact integers. -/
def exactErr (e : Int) : Option Int := some e

/-- `err` in an `int16_t`. -/
def storedErr (e : Int) : Option Int := some (int16 e)

/-- `err` in an `int16_t`, as long as it fits. -/
def checkedErr (e : Int) : Option Int := if -32768 ≤ e ∧ e ≤ 32767 then some e else none

/-- The variables of the loop. -/
structure Arc where
  x : Int
  y : Int
  err : Int
  deriving DecidableEq, Repr

section

variable (store : Int → Option Int)

def arcStart (r : Int) : Option Arc := do
  let err ← store (2 - 2 * r)
  some { x := int16 (-r), y := 0, err }

/-- `err += ++y * 2 + 1` where `e2 <= y`; what is left of `e2` goes along. -/
def arcUp (c : Arc) : Option (Arc × Int) :=
  let e2 := c.err
  if e2 ≤ c.y then do
    let y := int16 (c.y + 1)
    let err ← store (c.err + (y * 2 + 1))
    some ({ c with y, err }, if -c.x = y ∧ e2 ≤ c.x then 0 else e2)
  else some (c, e2)

/-- `err += ++x * 2 + 1` where `e2 > x`. -/
def arcRight (c : Arc) (e2 : Int) : Option Arc :=
  if e2 > c.x then do
    let x := int16 (c.x + 1)
    let err ← store (c.err + (x * 2 + 1))
    some { c with x, err }
  else some c

/-- The loop body behind the drawing. -/
def arcNext (c : Arc) : Option Arc := do
  let (c, e2) ← arcUp store c
  arcRight store c e2

/-- The loop over any way of drawing at a point. -/
def arcLoop (draw : Int → Int → σ → Option σ) : Nat → Arc → σ → Option σ
  | 0, _, _ => none
  | fuel + 1, c, s => do
    let s ← draw c.x c.y s
    let c ← arcNext store c
    if c.x ≤ 0 then arcLoop draw fuel c s else some s

def arc (draw : Int → Int → σ → Option σ) (fuel : Nat) (r : Int16) (s : σ) : Option σ := do
  let c ← arcStart store r.toInt
  arcLoop store draw fuel c s

/-- The points at which the loop draws. -/
def arcPoints (fuel : Nat) (r : Int16) : Option (List (Int × Int)) :=
  arc store (fun x y ps => some (ps ++ [(x, y)])) fuel r []

end

/-- What `DrawCircle32` draws at a point. -/
def circlePixels (x0 y0 : Int16) (color : UInt32) (x y : Int) (s : State v) :
    Option (State v) := do
  let left := UInt16.ofInt (x0.toInt + x)
  let right := UInt16.ofInt (x0.toInt - x)
  let lower := UInt16.ofInt (y0.toInt + y)
  let upper := UInt16.ofInt (y0.toInt - y)
  let s ← drawPixel32 s right lower color
  let s ← drawPixel32 s left lower color
  let s ← drawPixel32 s left upper color
  drawPixel32 s right upper color

/-- What `DrawFilledCircle32` draws at a point. -/
def circleLines (x0 y0 : Int16) (color : UInt32) (x y : Int) (s : State v) :
    Option (State v) := do
  let left := UInt16.ofInt (x0.toInt + x)
  let right := UInt16.ofInt (x0.toInt - x)
  let s ← drawHorizontalLine32 s left (UInt16.ofInt (y0.toInt + y)) right color
  drawHorizontalLine32 s left (UInt16.ofInt (y0.toInt - y)) right color

def drawCircle32 (store : Int → Option Int) (fuel : Nat) (s : State v) (x0 y0 r : Int16)
    (color : UInt32) : Option (State v) :=
  arc store (circlePixels x0 y0 color) fuel r s

def drawFilledCircle32 (store : Int → Option Int) (fuel : Nat) (s : State v) (x0 y0 r : Int16)
    (color : UInt32) : Option (State v) :=
  arc store (circleLines x0 y0 color) fuel r s

/-! ## What a round does -/

/-- A step of 0 or 1 in each coordinate, not both 0. -/
def Step (p q : Int × Int) : Prop :=
  (q.1 = p.1 ∨ q.1 = p.1 + 1) ∧ (q.2 = p.2 ∨ q.2 = p.2 + 1) ∧ q ≠ p

/-- Between two rounds. -/
structure OnArc (r : Int) (c : Arc) : Prop where
  left : -r ≤ c.x
  right : c.x ≤ 0
  lower : 0 ≤ c.y
  upper : c.y ≤ r
  err : c.err = c.x * c.x + c.y * c.y - r * r + 2 * c.x + 2 * c.y + 2
  inside : c.x * c.x + c.y * c.y - r * r ≤ max (-c.x) c.y
  outside : -(max (-c.x) c.y) ≤ c.x * c.x + c.y * c.y - r * r

/-- A way of storing `err` that is exact for the values that come up. -/
def Faithful (r : Int) (store : Int → Option Int) : Prop :=
  ∀ e, -(3 * r + 5) ≤ e → e ≤ 3 * r + 5 → store e = some e

theorem int16_eq {e : Int} (h : -32768 ≤ e) (h' : e ≤ 32767) : int16 e = e := by
  rw [int16, Int.bmod]
  omega

/-- On the axis the circle is met exactly. -/
theorem OnArc.axis {r : Int} {c : Arc} (h : OnArc r c) (hx : c.x = 0) : c.y = r := by
  by_contra hne
  have hupper := h.upper
  have hlower := h.lower
  have houtside := h.outside
  have hsq : (c.y + 1) * (c.y + 1) ≤ r * r := mul_self_le_mul_self (by omega) (by omega)
  have hexp : (c.y + 1) * (c.y + 1) = c.y * c.y + 2 * c.y + 1 := by ring
  rw [hx] at houtside
  omega

/-- There is room above where the loop moves up. -/
theorem OnArc.lt_of_up {r : Int} {c : Arc} (h : OnArc r c) (hup : c.err ≤ c.y) : c.y < r := by
  rcases Int.lt_or_eq_of_le h.upper with hlt | heq
  · exact hlt
  · have herr := h.err
    have hsq := mul_self_nonneg (c.x + 1)
    have hexp : (c.x + 1) * (c.x + 1) = c.x * c.x + 2 * c.x + 1 := by ring
    have hlower := h.lower
    rw [heq] at herr hup hlower
    omega

theorem OnArc.err_le {r : Int} {c : Arc} (h : OnArc r c) :
    -(3 * r) + 2 ≤ c.err ∧ c.err ≤ 3 * r + 2 := by
  obtain ⟨hleft, hright, hlower, hupper, herr, hinside, houtside⟩ := h
  omega

/-- The movement up of the loop. -/
def Arc.up (c : Arc) : Arc := { c with y := c.y + 1, err := c.err + ((c.y + 1) * 2 + 1) }

/-- The movement to the right of the loop. -/
def Arc.toRight (c : Arc) : Arc := { c with x := c.x + 1, err := c.err + ((c.x + 1) * 2 + 1) }

variable {r : Int} {c : Arc} {store : Int → Option Int}

theorem arcUp_eq (hup : c.err ≤ c.y) (hlo : 0 ≤ c.y) (hhi : c.y < 32767)
    (hstore : store c.up.err = some c.up.err) :
    arcUp store c = some (c.up, if -c.x = c.y + 1 ∧ c.err ≤ c.x then 0 else c.err) := by
  have hy : int16 (c.y + 1) = c.y + 1 := int16_eq (by omega) (by omega)
  unfold arcUp
  dsimp only
  rw [if_pos hup, hy, show store (c.err + ((c.y + 1) * 2 + 1)) = _ from hstore]
  rfl

theorem arcRight_eq {e2 : Int} (hright : e2 > c.x) (hlo : -32768 ≤ c.x) (hhi : c.x < 32767)
    (hstore : store c.toRight.err = some c.toRight.err) :
    arcRight store c e2 = some c.toRight := by
  have hx : int16 (c.x + 1) = c.x + 1 := int16_eq (by omega) (by omega)
  unfold arcRight
  dsimp only
  rw [if_pos hright, hx, show store (c.err + ((c.x + 1) * 2 + 1)) = _ from hstore]
  rfl

/-- A movement up only. -/
theorem OnArc.up (h : OnArc r c) (hup : c.err ≤ c.y) (hright : c.err ≤ c.x) :
    OnArc r c.up := by
  have hlt := h.lt_of_up hup
  obtain ⟨hleft, hx, hlower, hupper, herr, hinside, houtside⟩ := h
  have hexp : (c.y + 1) * (c.y + 1) = c.y * c.y + 2 * c.y + 1 := by ring
  refine ⟨hleft, hx, ?_, ?_, ?_, ?_, ?_⟩ <;> simp only [Arc.up, hexp] <;> omega

/-- A movement to the right only. -/
theorem OnArc.toRight (h : OnArc r c) (hup : c.y < c.err) (hx : c.x < 0) : OnArc r c.toRight := by
  obtain ⟨hleft, -, hlower, hupper, herr, hinside, houtside⟩ := h
  have hexp : (c.x + 1) * (c.x + 1) = c.x * c.x + 2 * c.x + 1 := by ring
  refine ⟨?_, ?_, hlower, hupper, ?_, ?_, ?_⟩ <;> simp only [Arc.toRight, hexp] <;> omega

/-- A movement in both directions. -/
theorem OnArc.upRight (h : OnArc r c) (hup : c.err ≤ c.y) (hx : c.x < 0)
    (hboth : c.x < c.err ∨ -c.x = c.y + 1) : OnArc r c.up.toRight := by
  have hlt := h.lt_of_up hup
  obtain ⟨hleft, -, hlower, hupper, herr, hinside, houtside⟩ := h
  have hexpy : (c.y + 1) * (c.y + 1) = c.y * c.y + 2 * c.y + 1 := by ring
  have hexpx : (c.x + 1) * (c.x + 1) = c.x * c.x + 2 * c.x + 1 := by ring
  refine ⟨?_, ?_, ?_, ?_, ?_, ?_, ?_⟩ <;>
    simp only [Arc.up, Arc.toRight, hexpx, hexpy] <;> omega

theorem Arc.step_up (c : Arc) : Step (c.x, c.y) (c.up.x, c.up.y) := by
  refine ⟨Or.inl rfl, Or.inr rfl, fun heq => ?_⟩
  have hsame := congrArg Prod.snd heq
  simp only [Arc.up] at hsame
  omega

theorem Arc.step_toRight (c : Arc) : Step (c.x, c.y) (c.toRight.x, c.toRight.y) := by
  refine ⟨Or.inr rfl, Or.inl rfl, fun heq => ?_⟩
  have hsame := congrArg Prod.fst heq
  simp only [Arc.toRight] at hsame
  omega

theorem Arc.step_upRight (c : Arc) : Step (c.x, c.y) (c.up.toRight.x, c.up.toRight.y) := by
  refine ⟨Or.inr rfl, Or.inr rfl, fun heq => ?_⟩
  have hsame := congrArg Prod.fst heq
  simp only [Arc.up, Arc.toRight] at hsame
  omega

/-- **A round of the loop**: before the axis it goes on along the arc, on the axis it leaves. -/
theorem OnArc.next (h : OnArc r c) (hr : r ≤ 32767) :
    ∃ c' : Arc, (∀ store, Faithful r store → arcNext store c = some c') ∧
      (c.x = 0 → c'.x = 1) ∧
      (c.x < 0 → OnArc r c' ∧ Step (c.x, c.y) (c'.x, c'.y)) := by
  have hleft := h.left
  have hx0 := h.right
  have hlower := h.lower
  obtain ⟨hlo, hhi⟩ := h.err_le
  by_cases hup : c.err ≤ c.y
  · have hlt := h.lt_of_up hup
    have hx : c.x < 0 := by
      rcases Int.lt_or_eq_of_le hx0 with hneg | hzero
      · exact hneg
      · have haxis := h.axis hzero
        omega
    have hfirst : ∀ store, Faithful r store → arcUp store c =
        some (c.up, if -c.x = c.y + 1 ∧ c.err ≤ c.x then 0 else c.err) := fun store hstore =>
      arcUp_eq hup hlower (by omega)
        (hstore _ (by simp only [Arc.up]; omega) (by simp only [Arc.up]; omega))
    by_cases hboth : c.x < c.err ∨ -c.x = c.y + 1
    · have hon := h.upRight hup hx hboth
      refine ⟨c.up.toRight, fun store hstore => ?_, by omega, fun _ => ⟨hon, c.step_upRight⟩⟩
      have herr := hon.err_le
      rw [arcNext, hfirst store hstore]
      refine arcRight_eq ?_ (by simp only [Arc.up]; omega) (by simp only [Arc.up]; omega)
        (hstore _ (by omega) (by omega))
      simp only [Arc.up]
      split <;> omega
    · refine ⟨c.up, fun store hstore => ?_, by omega, fun _ => ⟨h.up hup (by omega), c.step_up⟩⟩
      rw [arcNext, hfirst store hstore, if_neg (by omega)]
      exact if_neg (by simp only [Arc.up]; omega)
  · refine ⟨c.toRight, fun store hstore => ?_, fun hzero => ?_, fun hx =>
      ⟨h.toRight (by omega) hx, c.step_toRight⟩⟩
    · rw [arcNext, arcUp, if_neg hup]
      exact arcRight_eq (by omega) (by omega) (by omega)
        (hstore _ (by simp only [Arc.toRight]; omega) (by simp only [Arc.toRight]; omega))
    · simp only [Arc.toRight]
      omega

/-! ## The whole loop -/

/-- A walk along the arc that ends on the axis. -/
structure Walk (r : Int) (p : Int × Int) (ps : List (Int × Int)) : Prop where
  head : ps.head? = some p
  last : ps.getLast? = some (0, r)
  inside : ∀ q ∈ ps, -r ≤ q.1 ∧ q.1 ≤ 0 ∧ 0 ≤ q.2 ∧ q.2 ≤ r
  steps : ps.IsChain Step

/-- On the axis the walk is over. -/
theorem OnArc.walk_axis (h : OnArc r c) (hx : c.x = 0) : Walk r (c.x, c.y) [(c.x, c.y)] := by
  refine ⟨rfl, ?_, fun q hq => ?_, List.IsChain.singleton _⟩
  · rw [hx, h.axis hx]
    rfl
  · rw [List.mem_singleton.mp hq]
    exact ⟨h.left, h.right, h.lower, h.upper⟩

theorem OnArc.walk_step {q : Int × Int} {ps : List (Int × Int)} (h : OnArc r c)
    (hstep : Step (c.x, c.y) q) (hw : Walk r q ps) : Walk r (c.x, c.y) ((c.x, c.y) :: ps) := by
  refine ⟨rfl, ?_, fun p hp => ?_, ?_⟩
  · rw [List.getLast?_cons, hw.last]
    rfl
  · rcases List.mem_cons.mp hp with rfl | hp
    · exact ⟨h.left, h.right, h.lower, h.upper⟩
    · exact hw.inside p hp
  · cases ps with
    | nil => cases hw.head
    | cons p ps =>
      cases hw.head
      exact List.IsChain.cons_cons hstep hw.steps

/-- A step goes on towards the axis or upwards. -/
theorem Step.progress {x y x' y' : Int} (h : Step (x, y) (x', y')) : x + y + 1 ≤ x' + y' := by
  obtain ⟨hx, hy, hne⟩ := h
  have hsame : ¬ (x' = x ∧ y' = y) := fun ⟨hx', hy'⟩ => hne (by rw [hx', hy'])
  dsimp only at hx hy
  omega

/-- A round draws at the point it starts from. -/
theorem arcLoop_succ {c' : Arc} (hnext : arcNext store c = some c')
    (draw : Int → Int → σ → Option σ) (fuel : Nat) (s : σ) :
    arcLoop store draw (fuel + 1) c s = (draw c.x c.y s).bind fun s =>
      if c'.x ≤ 0 then arcLoop store draw fuel c' s else some s := by
  simp only [arcLoop, hnext, Option.bind_eq_bind, Option.bind_some]

/-- **The loop walks along the arc**, drawing at every point. -/
theorem OnArc.loop (hr : r ≤ 32767) (n : Nat) (h : OnArc r c) (hn : r - c.x - c.y ≤ n) :
    ∃ ps, Walk r (c.x, c.y) ps ∧ ∀ store, Faithful r store → ∀ fuel, n < fuel →
      ∀ {σ : Type} (draw : Int → Int → σ → Option σ) (s : σ),
        arcLoop store draw fuel c s = ps.foldlM (fun s p => draw p.1 p.2 s) s := by
  induction n using Nat.strongRecOn generalizing c with
  | ind n ih =>
    obtain ⟨c', hnext, hend, hgo⟩ := h.next hr
    by_cases hx : c.x = 0
    · -- the last point: the round leaves the loop
      refine ⟨[(c.x, c.y)], h.walk_axis hx, fun store hstore fuel hfuel σ draw s => ?_⟩
      obtain ⟨fuel, rfl⟩ : ∃ m, fuel = m + 1 := ⟨fuel - 1, by omega⟩
      rw [arcLoop_succ (hnext store hstore), hend hx]
      rfl
    · have hx0 := h.right
      obtain ⟨hon, hstep⟩ := hgo (by omega)
      have hmoved := hstep.progress
      have hright := hon.right
      have hupper := hon.upper
      obtain ⟨m, rfl⟩ : ∃ m, n = m + 1 := ⟨n - 1, by omega⟩
      obtain ⟨ps, hwalk, hrun⟩ := ih m (Nat.lt_succ_self m) hon (by omega)
      refine ⟨(c.x, c.y) :: ps, h.walk_step hstep hwalk, fun store hstore fuel hfuel σ draw s => ?_⟩
      obtain ⟨fuel, rfl⟩ : ∃ m, fuel = m + 1 := ⟨fuel - 1, by omega⟩
      rw [arcLoop_succ (hnext store hstore), List.foldlM_cons]
      refine congrArg _ (funext fun s => ?_)
      rw [if_pos hright]
      exact hrun store hstore fuel (by omega) draw s

theorem onArc_start (hr : 0 ≤ r) : OnArc r { x := -r, y := 0, err := 2 - 2 * r } := by
  have hsq : -r * -r = r * r := Int.neg_mul_neg r r
  refine ⟨?_, ?_, ?_, ?_, ?_, ?_, ?_⟩ <;> simp only [hsq] <;> omega

theorem arcStart_eq (hr : 0 ≤ r) (hhi : r ≤ 32767) (hstore : Faithful r store) :
    arcStart store r = some { x := -r, y := 0, err := 2 - 2 * r } := by
  rw [arcStart, hstore _ (by omega) (by omega), int16_eq (by omega) (by omega)]
  rfl

theorem faithful_exactErr (r : Int) : Faithful r exactErr := fun _ _ _ => rfl

theorem faithful_checkedErr (hr : r ≤ 10000) : Faithful r checkedErr := by
  intro e hlo hhi
  exact if_pos ⟨by omega, by omega⟩

theorem faithful_storedErr (hr : r ≤ 10000) : Faithful r storedErr := by
  intro e hlo hhi
  rw [storedErr, int16_eq (by omega) (by omega)]

/-- Collecting the points of a walk. -/
theorem foldlM_collect (ps qs : List (Int × Int)) :
    ps.foldlM (fun qs p => some (qs ++ [(p.1, p.2)])) qs = some (qs ++ ps) := by
  induction ps generalizing qs with
  | nil => simp
  | cons p ps ih =>
    rw [List.foldlM_cons]
    exact (ih _).trans (by rw [List.append_assoc]; rfl)

/-- **Circles are walked from axis to axis**, in at most `2 * r + 1` rounds, with `err` in exact
integers; up to a radius of 10000 no value of `err` leaves the 16 bits. -/
theorem circles_walk (r : Int16) (hr : 0 ≤ r.toInt) :
    ∃ ps, Walk r.toInt (-r.toInt, 0) ps ∧
      ∀ store, store = exactErr ∨ r.toInt ≤ 10000 ∧ (store = checkedErr ∨ store = storedErr) →
        ∀ fuel : Nat, 2 * r.toInt + 1 ≤ fuel →
          arcPoints store fuel r = some ps ∧
          ∀ {v : Screen} (s : State v) (x0 y0 : Int16) (color : UInt32),
            drawCircle32 store fuel s x0 y0 r color =
                ps.foldlM (fun s p => circlePixels x0 y0 color p.1 p.2 s) s ∧
              drawFilledCircle32 store fuel s x0 y0 r color =
                ps.foldlM (fun s p => circleLines x0 y0 color p.1 p.2 s) s := by
  have hhi : r.toInt ≤ 32767 := by
    have hlt := r.toInt_lt
    omega
  obtain ⟨ps, hwalk, hrun⟩ := (onArc_start hr).loop hhi (2 * r.toInt).toNat (by
    dsimp only
    omega)
  refine ⟨ps, hwalk, fun store hkind fuel hfuel => ?_⟩
  have hstore : Faithful r.toInt store := by
    rcases hkind with rfl | ⟨hsmall, rfl | rfl⟩
    · exact faithful_exactErr _
    · exact faithful_checkedErr hsmall
    · exact faithful_storedErr hsmall
  have harc : ∀ {σ : Type} (draw : Int → Int → σ → Option σ) (s : σ),
      arc store draw fuel r s = ps.foldlM (fun s p => draw p.1 p.2 s) s := by
    intro σ draw s
    rw [arc, arcStart_eq hr hhi hstore]
    exact hrun store hstore fuel (by omega) draw s
  refine ⟨?_, fun s x0 y0 color => ⟨harc _ s, harc _ s⟩⟩
  rw [arcPoints, harc]
  exact foldlM_collect ps []

/-- The eight points of a quarter with the radius 5. -/
theorem circles_walk_five : ∃ ps, Walk 5 (-5, 0) ps ∧ arcPoints checkedErr 11 5 = some ps := by
  obtain ⟨ps, hwalk, hrun⟩ := circles_walk 5 (by decide)
  exact ⟨ps, hwalk, (hrun checkedErr (Or.inr ⟨by decide, Or.inl rfl⟩) 11 (by decide)).1⟩

example : arcPoints storedErr 11 5 =
    some [(-5, 0), (-5, 1), (-5, 2), (-4, 3), (-3, 4), (-2, 5), (-1, 5), (0, 5)] := by
  decide

end MyLibraries.FrameBuffer
