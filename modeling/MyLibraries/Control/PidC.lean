import Mathlib.Algebra.Order.Field.Basic
import Mathlib.Algebra.Order.Ring.Rat
import Mathlib.Tactic.Ring
import MyLibraries.Core.Run

/-!
# The PID controller in C

`pid_init` writes every field that `pid_calc` reads, or the flag that guards it, except the
set point. So two controllers with different contents agree from the first `pid_set_target`
on, and before it only under limits that leave no choice. The first part holds of any
arithmetic, floating point included; where it is exact, the second is all there is.
-/

namespace MyLibraries.Control.C

open Run

variable {T : Type}

structure Pid (T : Type) where
  kp : T
  ki : T
  kd : T
  setPoint : T
  iterm : T
  lastInput : T
  min : T
  max : T
  limitsEn : Bool

/-- The calls behind `pid_init`. -/
inductive Call (T : Type)
  | pidSetLimits (min max : T)
  | pidSetTarget (v : T)
  | pidCalc (input : T)

section Model

variable [Zero T] [Add T] [Sub T] [Mul T] [LT T] [DecidableLT T]

def pidInit (p : Pid T) (kp ki kd : T) : Pid T :=
  { p with iterm := 0, lastInput := 0, kp, ki, kd, limitsEn := false }

def pidSetLimits (p : Pid T) (min max : T) : Pid T := { p with min, max, limitsEn := true }

def pidSetTarget (p : Pid T) (v : T) : Pid T := { p with setPoint := v }

/-- `if (p->limits_en)`, cut `x` down to the limits. -/
def Pid.limit (p : Pid T) (x : T) : T :=
  if p.limitsEn then
    if p.max < x then p.max else if x < p.min then p.min else x
  else x

def pidCalc (p : Pid T) (input : T) : T × Pid T :=
  let error := p.setPoint - input
  let iterm := p.limit (p.iterm + p.ki * error)
  let dInput := input - p.lastInput
  let output := p.limit (p.kp * error + iterm - p.kd * dInput)
  (output, { p with iterm, lastInput := input })

/-- A call and its output, if it has one. -/
def Pid.call (p : Pid T) : Call T → Option T × Pid T
  | .pidSetLimits min max => (none, pidSetLimits p min max)
  | .pidSetTarget v => (none, pidSetTarget p v)
  | .pidCalc input => ((pidCalc p input).1, (pidCalc p input).2)

/-- The outputs of the calls behind `pid_init`. -/
def outputs (p : Pid T) (kp ki kd : T) (calls : List (Call T)) : List (Option T) :=
  (exec Pid.call (pidInit p kp ki kd) calls).1

end Model

/-- `pid_set_target` comes before the first `pid_calc`. -/
def TargetFirst : List (Call T) → Prop
  | [] => True
  | .pidSetLimits .. :: calls => TargetFirst calls
  | .pidSetTarget _ :: _ => True
  | .pidCalc _ :: _ => False

/-- Limits that leave no choice. -/
def Tight : Option (T × T) → Prop
  | none => False
  | some (min, max) => min = max

/-- Under the given limits, if any, every `pid_calc` before the first `pid_set_target` is
under limits that leave no choice. -/
def Determined : Option (T × T) → List (Call T) → Prop
  | _, [] => True
  | _, .pidSetLimits min max :: calls => Determined (some (min, max)) calls
  | _, .pidSetTarget _ :: _ => True
  | limits, .pidCalc _ :: calls => Tight limits ∧ Determined limits calls

/-- The limits in force. -/
def Pid.limits (p : Pid T) : Option (T × T) := if p.limitsEn then some (p.min, p.max) else none

/-- Two controllers that differ in the set point at most, and in limits not in force. -/
structure Alike (p q : Pid T) : Prop where
  kp_eq : p.kp = q.kp
  ki_eq : p.ki = q.ki
  kd_eq : p.kd = q.kd
  iterm_eq : p.iterm = q.iterm
  lastInput_eq : p.lastInput = q.lastInput
  limits_eq : p.limits = q.limits

variable {p q : Pid T} {calls : List (Call T)}

/-! ## Any arithmetic -/

section Any

variable [Zero T] [Add T] [Sub T] [Mul T] [LT T] [DecidableLT T]

omit [Zero T] [Add T] [Sub T] [Mul T] in
/-- Limiting depends on the limits in force only. -/
theorem limit_eq (p : Pid T) (x : T) : p.limit x = match p.limits with
    | none => x
    | some (min, max) => if max < x then max else if x < min then min else x := by
  unfold Pid.limit Pid.limits
  cases p.limitsEn <;> rfl

omit [Zero T] [Add T] [Sub T] [Mul T] in
theorem limit_congr (h : p.limits = q.limits) (x : T) : p.limit x = q.limit x := by
  rw [limit_eq, limit_eq, h]

omit [Add T] [Sub T] [Mul T] [LT T] [DecidableLT T] in
/-- `pid_init` leaves nothing of the contents but the set point. -/
theorem alike_init (p q : Pid T) (kp ki kd : T) : Alike (pidInit p kp ki kd) (pidInit q kp ki kd) :=
  ⟨rfl, rfl, rfl, rfl, rfl, rfl⟩

omit [Zero T] [Add T] [Sub T] [Mul T] [LT T] [DecidableLT T] in
theorem Alike.setLimits (h : Alike p q) (min max : T) :
    Alike (pidSetLimits p min max) (pidSetLimits q min max) :=
  ⟨h.kp_eq, h.ki_eq, h.kd_eq, h.iterm_eq, h.lastInput_eq, rfl⟩

omit [Zero T] [Add T] [Sub T] [Mul T] [LT T] [DecidableLT T] in
theorem Alike.setTarget (h : Alike p q) (v : T) : Alike (pidSetTarget p v) (pidSetTarget q v) :=
  ⟨h.kp_eq, h.ki_eq, h.kd_eq, h.iterm_eq, h.lastInput_eq, h.limits_eq⟩

omit [Zero T] in
/-- A call of two controllers with the same set point. -/
theorem Alike.call (h : Alike p q) (hs : p.setPoint = q.setPoint) (c : Call T) :
    (p.call c).1 = (q.call c).1 ∧ Alike (p.call c).2 (q.call c).2 ∧
      (p.call c).2.setPoint = (q.call c).2.setPoint := by
  cases c with
  | pidSetLimits min max => exact ⟨rfl, h.setLimits min max, hs⟩
  | pidSetTarget v => exact ⟨rfl, h.setTarget v, rfl⟩
  | pidCalc input =>
    obtain ⟨hkp, hki, hkd, hiterm, hlast, hlimits⟩ := h
    have hi : p.limit (p.iterm + p.ki * (p.setPoint - input)) =
        q.limit (q.iterm + q.ki * (q.setPoint - input)) := by
      rw [limit_congr hlimits, hiterm, hki, hs]
    have hout : (pidCalc p input).1 = (pidCalc q input).1 := by
      unfold pidCalc
      dsimp only
      rw [limit_congr hlimits, hi, hkp, hkd, hlast, hs]
    exact ⟨congrArg some hout, ⟨hkp, hki, hkd, hi, rfl, hlimits⟩, hs⟩

omit [Zero T] in
theorem Alike.same_outputs (h : Alike p q) (hs : p.setPoint = q.setPoint)
    (calls : List (Call T)) : (exec Pid.call p calls).1 = (exec Pid.call q calls).1 := by
  induction calls generalizing p q with
  | nil => rfl
  | cons c calls ih =>
    obtain ⟨hout, halike, hset⟩ := h.call hs c
    rw [exec_cons, exec_cons, hout, ih halike hset]

omit [Zero T] in
/-- A set point of the calls' own makes up for those of the contents. -/
theorem Alike.same_outputs_of_targetFirst (h : Alike p q) (hc : TargetFirst calls) :
    (exec Pid.call p calls).1 = (exec Pid.call q calls).1 := by
  induction calls generalizing p q with
  | nil => rfl
  | cons c calls ih =>
    rw [exec_cons, exec_cons]
    cases c with
    | pidSetLimits min max => exact congrArg (none :: ·) (ih (h.setLimits min max) hc)
    | pidSetTarget v => exact congrArg (none :: ·) ((h.setTarget v).same_outputs rfl calls)
    | pidCalc input => exact absurd hc id

end Any

/-! ## Exact arithmetic -/

variable [Field T] [LinearOrder T]

omit [Field T] in
/-- Limits that leave no choice make everything the same. -/
theorem limit_of_tight (h : Tight p.limits) (x y : T) : p.limit x = p.limit y := by
  rw [limit_eq, limit_eq]
  cases hl : p.limits with
  | none =>
    rw [hl] at h
    exact absurd h id
  | some limits =>
    obtain ⟨min, max⟩ := limits
    rw [hl] at h
    obtain rfl : min = max := h
    have hmid (z : T) : (if min < z then min else if z < min then min else z) = min := by
      split_ifs with h₁ h₂
      · rfl
      · rfl
      · exact le_antisymm (not_lt.mp h₁) (not_lt.mp h₂)
    exact (hmid x).trans (hmid y).symm

/-- The calls that determine their outputs. -/
theorem Alike.same_outputs_of_determined (h : Alike p q) (hc : Determined p.limits calls) :
    (exec Pid.call p calls).1 = (exec Pid.call q calls).1 := by
  induction calls generalizing p q with
  | nil => rfl
  | cons c calls ih =>
    rw [exec_cons, exec_cons]
    cases c with
    | pidSetLimits min max => exact congrArg (none :: ·) (ih (h.setLimits min max) hc)
    | pidSetTarget v => exact congrArg (none :: ·) ((h.setTarget v).same_outputs rfl calls)
    | pidCalc input =>
      obtain ⟨hkp, hki, hkd, hiterm, hlast, hlimits⟩ := h
      have hsame (x y : T) : p.limit x = q.limit y :=
        (limit_of_tight hc.1 x y).trans (limit_congr hlimits y)
      have halike : Alike (pidCalc p input).2 (pidCalc q input).2 :=
        ⟨hkp, hki, hkd, hsame _ _, rfl, hlimits⟩
      exact congrArg₂ (· :: ·) (congrArg some (hsame _ _)) (ih halike hc.2)

variable [IsStrictOrderedRing T]

/-- Limits that leave a choice let two values through. -/
theorem limit_ne_of_not_tight (h : ¬Tight p.limits) : ∃ x y, p.limit x ≠ p.limit y := by
  cases hl : p.limits with
  | none =>
    refine ⟨0, 1, ?_⟩
    rw [limit_eq, limit_eq, hl]
    exact zero_ne_one
  | some limits =>
    obtain ⟨min, max⟩ := limits
    rw [hl] at h
    have hne : min ≠ max := h
    refine ⟨Max.max min max + 1, Min.min min max - 1, ?_⟩
    have h₁ : max < Max.max min max + 1 := (le_max_right min max).trans_lt (lt_add_one _)
    have h₂ : Min.min min max - 1 < min := (sub_one_lt _).trans_le (min_le_left min max)
    have h₃ : ¬max < Min.min min max - 1 :=
      not_lt.mpr ((sub_one_lt _).le.trans (min_le_right min max))
    rw [limit_eq, limit_eq, hl]
    dsimp only
    rw [if_pos h₁, if_neg h₃, if_pos h₂]
    exact hne.symm

omit [IsStrictOrderedRing T] in
/-- With the proportional gain alone, the set point goes into the output and nowhere else. -/
theorem pidCalc_proportional (hkp : p.kp = 1) (hki : p.ki = 0) (hkd : p.kd = 0) (a input : T) :
    pidCalc { p with setPoint := a } input =
      (p.limit (a - input + p.limit p.iterm),
        { p with setPoint := a, iterm := p.limit p.iterm, lastInput := input }) := by
  have hiterm : p.iterm + p.ki * (a - input) = p.iterm := by rw [hki, zero_mul, add_zero]
  have hsum (x : T) : p.kp * (a - input) + x - p.kd * (input - p.lastInput) = a - input + x := by
    rw [hkp, one_mul, hkd, zero_mul, sub_zero]
  have hlimit (x : T) : Pid.limit { p with setPoint := a } x = p.limit x := rfl
  unfold pidCalc
  dsimp only
  rw [hiterm, hsum, hlimit, hlimit]

/-- So calls that do not determine their outputs show the set point of the contents. -/
theorem outputs_ne_of_not_determined (hkp : p.kp = 1) (hki : p.ki = 0) (hkd : p.kd = 0)
    (hc : ¬Determined p.limits calls) :
    ∃ a b, (exec Pid.call { p with setPoint := a } calls).1 ≠
      (exec Pid.call { p with setPoint := b } calls).1 := by
  induction calls generalizing p with
  | nil => exact absurd trivial hc
  | cons c calls ih =>
    cases c with
    | pidSetLimits min max =>
      obtain ⟨a, b, hne⟩ := @ih (pidSetLimits p min max) hkp hki hkd hc
      exact ⟨a, b, fun h => hne (List.cons.inj h).2⟩
    | pidSetTarget v => exact absurd trivial hc
    | pidCalc input =>
      have hcall (a : T) : Pid.call { p with setPoint := a } (.pidCalc input) =
          (some (p.limit (a - input + p.limit p.iterm)),
            { p with setPoint := a, iterm := p.limit p.iterm, lastInput := input }) := by
        unfold Pid.call
        dsimp only
        rw [pidCalc_proportional hkp hki hkd]
      by_cases ht : Tight p.limits
      · have hrest : ¬Determined p.limits calls := fun hd => hc ⟨ht, hd⟩
        obtain ⟨a, b, hne⟩ :=
          @ih { p with iterm := p.limit p.iterm, lastInput := input } hkp hki hkd hrest
        refine ⟨a, b, fun h => hne ?_⟩
        rw [exec_cons, exec_cons, hcall, hcall] at h
        exact (List.cons.inj h).2
      · obtain ⟨x, y, hne⟩ := limit_ne_of_not_tight ht
        -- the set point that makes the output `x`, before the limits
        refine ⟨x + input - p.limit p.iterm, y + input - p.limit p.iterm, fun h => hne ?_⟩
        have htarget (x : T) : x + input - p.limit p.iterm - input + p.limit p.iterm = x := by
          ring
        rw [exec_cons, exec_cons, hcall, hcall, htarget, htarget] at h
        exact Option.some.inj (List.cons.inj h).1

/-- **`pid_init` and the history of a controller.** In any arithmetic, the outputs behind it
are the same for two controllers with the same set point, and for any two when a
`pid_set_target` comes before the first `pid_calc`. In exact arithmetic, calls that show
nothing of the contents, whatever the gains, are those that determine their outputs. -/
theorem init_history_free_iff {D : Type} [Zero D] [Add D] [Sub D] [Mul D] [LT D]
    [DecidableLT D] :
    (∀ (p q : Pid D) (kp ki kd : D) (calls : List (Call D)),
      p.setPoint = q.setPoint ∨ TargetFirst calls →
        outputs p kp ki kd calls = outputs q kp ki kd calls) ∧
    ∀ calls : List (Call T), (∀ (p q : Pid T) (kp ki kd : T),
      outputs p kp ki kd calls = outputs q kp ki kd calls) ↔ Determined none calls := by
  constructor
  · rintro p q kp ki kd calls (hset | hfirst)
    · exact (alike_init p q kp ki kd).same_outputs hset calls
    · exact (alike_init p q kp ki kd).same_outputs_of_targetFirst hfirst
  · refine fun calls => ⟨fun h => ?_, fun hc p q kp ki kd => ?_⟩
    · by_contra hc
      obtain ⟨a, b, hne⟩ := @outputs_ne_of_not_determined T
        (pidInit ⟨0, 0, 0, 0, 0, 0, 0, 0, false⟩ 1 0 0) calls _ _ _ rfl rfl rfl hc
      exact hne (h ⟨0, 0, 0, a, 0, 0, 0, 0, false⟩ ⟨0, 0, 0, b, 0, 0, 0, 0, false⟩ 1 0 0)
    · exact (alike_init p q kp ki kd).same_outputs_of_determined hc

/-- A target first, over integers, and equal limits first, over rationals. -/
theorem init_history_free_iff_small :
    outputs (⟨0, 0, 0, 7, 0, 0, 0, 0, false⟩ : Pid Int) 2 1 0 [.pidSetTarget 5, .pidCalc 1] =
        outputs ⟨1, 2, 3, 8, 4, 5, 6, 7, true⟩ 2 1 0 [.pidSetTarget 5, .pidCalc 1] ∧
      outputs (⟨0, 0, 0, 7, 0, 0, 0, 0, false⟩ : Pid ℚ) 2 1 0 [.pidSetLimits 3 3, .pidCalc 1] =
        outputs ⟨1, 2, 3, 8, 4, 5, 6, 7, true⟩ 2 1 0 [.pidSetLimits 3 3, .pidCalc 1] :=
  ⟨(@init_history_free_iff ℚ _ _ _ Int _ _ _ _ _ _).1 _ _ 2 1 0 _ (.inr trivial),
    ((@init_history_free_iff ℚ _ _ _ Int _ _ _ _ _ _).2 [.pidSetLimits 3 3, .pidCalc 1]).mpr
      ⟨rfl, trivial⟩ _ _ 2 1 0⟩

/-- A `pid_calc` before any target shows the set point from before `pid_init`. -/
theorem init_keeps_set_point :
    outputs (⟨0, 0, 0, 1, 0, 0, 0, 0, false⟩ : Pid Int) 1 0 0 [.pidCalc 0] = [some 1] ∧
      outputs (⟨0, 0, 0, 2, 0, 0, 0, 0, false⟩ : Pid Int) 1 0 0 [.pidCalc 0] = [some 2] := by
  decide

end MyLibraries.Control.C
