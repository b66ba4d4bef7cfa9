import Mathlib.Algebra.Order.Ring.Rat
import MyLibraries.Core.Run
import MyLibraries.Core.Within

/-!
# The PID controller in C++

The controller is a template over a floating point type; here `T` is any ordered field, so
the arithmetic is exact, and a call faults at a division by zero and at a `std::clamp` with
its bounds in the wrong order. The bounds of the integral are those of the output divided by
the integral gain: there are none without a gain, and a negative gain turns them around.
-/

namespace MyLibraries.Control.Cpp

open Run Within

variable {T : Type} [Field T] [LinearOrder T]

structure PID (T : Type) where
  kp : T
  ki : T
  kd : T
  maxOutput : T
  minOutput : T
  dt : T
  prevError : T
  integral : T

namespace PID

/-- `PID(kp, ki, kd, max_output, min_output, dt)`. -/
def new (kp : T := 1) (ki : T := 0) (kd : T := 0) (maxOutput minOutput : T) (dt : T := 1) :
    PID T :=
  { kp, ki, kd, maxOutput, minOutput, dt, prevError := 0, integral := 0 }

/-- The integral behind one more error, with its anti-windup clamping. -/
def integrate (pid : PID T) (error : T) : Option T := do
  let lo ← divide pid.minOutput pid.ki
  let hi ← divide pid.maxOutput pid.ki
  clamp (pid.integral + error * pid.dt) lo hi

def calculate (pid : PID T) (setpoint currentVal : T) : Option (T × PID T) := do
  let error := setpoint - currentVal
  let pTerm := pid.kp * error
  let integral ← pid.integrate error
  let iTerm := pid.ki * integral
  let derivative ← divide (error - pid.prevError) pid.dt
  let dTerm := pid.kd * derivative
  let output := pTerm + iTerm + dTerm
  let output ← clamp output pid.minOutput pid.maxOutput
  some (output, { pid with prevError := error, integral })

end PID

/-- What a call is to do: answer at all, an output within the limits, with an integral
contribution within the limits. -/
def Proper (ki maxOutput minOutput : T) (pid : PID T) (input : T × T) : Prop :=
  ∃ output pid', pid.calculate input.1 input.2 = some (output, pid') ∧
    (minOutput ≤ output ∧ output ≤ maxOutput) ∧
    minOutput ≤ ki * pid'.integral ∧ ki * pid'.integral ≤ maxOutput

/-- The settings of a controller that a call depends on. -/
structure Configured (ki maxOutput minOutput dt : T) (pid : PID T) : Prop where
  ki_eq : pid.ki = ki
  maxOutput_eq : pid.maxOutput = maxOutput
  minOutput_eq : pid.minOutput = minOutput
  dt_eq : pid.dt = dt

/-- The condition on the settings: the gain is positive, or negative with no room between
the limits. -/
def Bounded (ki maxOutput minOutput : T) : Prop := 0 < ki ∨ ki < 0 ∧ minOutput = maxOutput

variable {pid : PID T} {error : T}

/-! ## The integral -/

theorem integrate_of_zero (h : pid.ki = 0) (error : T) : pid.integrate error = none := by
  unfold PID.integrate divide
  rw [if_pos h]
  rfl

theorem integrate_of_ne (h : pid.ki ≠ 0) (error : T) : pid.integrate error =
    clamp (pid.integral + error * pid.dt) (pid.minOutput / pid.ki) (pid.maxOutput / pid.ki) := by
  unfold PID.integrate divide
  rw [if_neg h, if_neg h]
  rfl

variable [IsStrictOrderedRing T]

/-- A negative gain turns the bounds around. -/
theorem integrate_of_neg (hki : pid.ki < 0) (h : pid.minOutput < pid.maxOutput) (error : T) :
    pid.integrate error = none := by
  rw [integrate_of_ne hki.ne]
  exact clamp_of_lt (div_lt_div_of_neg_of_lt hki h) _

/-- **The integral exists** exactly under the condition. -/
theorem integrate_exists_iff (hle : pid.minOutput ≤ pid.maxOutput) (error : T) :
    (∃ integral, pid.integrate error = some integral) ↔
      Bounded pid.ki pid.maxOutput pid.minOutput := by
  constructor
  · rintro ⟨integral, h⟩
    rcases lt_trichotomy pid.ki 0 with hki | hki | hki
    · refine .inr ⟨hki, hle.eq_of_not_lt fun hlt => ?_⟩
      rw [integrate_of_neg hki hlt] at h
      cases h
    · rw [integrate_of_zero hki] at h
      cases h
    · exact .inl hki
  · rintro (hki | ⟨hki, heq⟩)
    · rw [integrate_of_ne hki.ne']
      exact ⟨_, clamp_of_le (div_le_div_of_nonneg_right hle hki.le) _⟩
    · rw [integrate_of_ne hki.ne, heq]
      exact ⟨_, clamp_of_le le_rfl _⟩

/-- The contribution of a clamped integral. -/
theorem mul_integrate {integral : T} (hb : Bounded pid.ki pid.maxOutput pid.minOutput)
    (h : pid.integrate error = some integral) :
    pid.minOutput ≤ pid.ki * integral ∧ pid.ki * integral ≤ pid.maxOutput := by
  rcases hb with hki | ⟨hki, heq⟩
  · rw [integrate_of_ne hki.ne'] at h
    obtain ⟨hlo, hhi⟩ := mem_of_clamp h
    exact ⟨(div_le_iff₀' hki).mp hlo, (le_div_iff₀' hki).mp hhi⟩
  · rw [integrate_of_ne hki.ne, heq] at h
    obtain ⟨hlo, hhi⟩ := mem_of_clamp h
    have hmul : pid.ki * integral = pid.maxOutput := by
      rw [le_antisymm hhi hlo, mul_div_cancel₀ _ hki.ne]
    rw [hmul, heq]
    exact ⟨le_rfl, le_rfl⟩

/-! ## The calls -/

omit [IsStrictOrderedRing T] in
/-- A call answers when there is an integral, within the limits, and keeps the settings. -/
theorem calculate_of_integrate {setpoint currentVal integral : T}
    (hle : pid.minOutput ≤ pid.maxOutput) (hdt : pid.dt ≠ 0)
    (h : pid.integrate (setpoint - currentVal) = some integral) :
    ∃ output, pid.calculate setpoint currentVal =
        some (output, { pid with prevError := setpoint - currentVal, integral }) ∧
      pid.minOutput ≤ output ∧ output ≤ pid.maxOutput := by
  have hclamp := clamp_of_le hle (pid.kp * (setpoint - currentVal) + pid.ki * integral +
    pid.kd * ((setpoint - currentVal - pid.prevError) / pid.dt))
  have hdivide : divide (setpoint - currentVal - pid.prevError) pid.dt = some _ := if_neg hdt
  refine ⟨_, ?_, mem_of_clamp hclamp⟩
  simp only [PID.calculate, h, hdivide, hclamp, Option.bind_eq_bind, Option.bind_some]

omit [IsStrictOrderedRing T] in
theorem integrate_of_calculate {setpoint currentVal : T} {r : T × PID T}
    (h : pid.calculate setpoint currentVal = some r) :
    ∃ integral, pid.integrate (setpoint - currentVal) = some integral := by
  obtain ⟨integral, hint, -⟩ := Option.bind_eq_some_iff.mp h
  exact ⟨integral, hint⟩

/-- Under the condition a call does what it is to do, and keeps the settings. -/
theorem calculate_of_bounded {ki maxOutput minOutput dt : T}
    (hpid : Configured ki maxOutput minOutput dt pid) (hle : minOutput ≤ maxOutput)
    (hdt : 0 < dt) (hb : Bounded ki maxOutput minOutput) (input : T × T) :
    Proper ki maxOutput minOutput pid input ∧
      ∃ output pid', pid.calculate input.1 input.2 = some (output, pid') ∧
        Configured ki maxOutput minOutput dt pid' := by
  obtain ⟨rfl, rfl, rfl, rfl⟩ := hpid
  obtain ⟨integral, hint⟩ := (integrate_exists_iff hle (input.1 - input.2)).mpr hb
  obtain ⟨output, hcalc, hout⟩ := calculate_of_integrate hle hdt.ne' hint
  exact ⟨⟨output, _, hcalc, hout, mul_integrate hb hint⟩, output, _, hcalc, rfl, rfl, rfl, rfl⟩

/-- **One call** does what it is to do exactly under the condition. -/
theorem proper_iff {ki maxOutput minOutput dt : T}
    (hpid : Configured ki maxOutput minOutput dt pid) (hle : minOutput ≤ maxOutput)
    (hdt : 0 < dt) (input : T × T) :
    Proper ki maxOutput minOutput pid input ↔ Bounded ki maxOutput minOutput := by
  refine ⟨?_, fun hb => (calculate_of_bounded hpid hle hdt hb input).1⟩
  obtain ⟨rfl, rfl, rfl, rfl⟩ := hpid
  rintro ⟨_, _, h, -⟩
  exact (integrate_exists_iff hle _).mp (integrate_of_calculate h)

/-- **`PID::Calculate` over a run**: all calls do what they are to do exactly when there are
none, or under the condition. -/
theorem calculate_proper_iff (kp ki kd maxOutput minOutput dt : T) (hle : minOutput ≤ maxOutput)
    (hdt : 0 < dt) (inputs : List (T × T)) :
    AlongRun (fun pid input => pid.calculate input.1 input.2) (Proper ki maxOutput minOutput)
        (PID.new kp ki kd maxOutput minOutput dt) inputs ↔
      inputs = [] ∨ Bounded ki maxOutput minOutput := by
  have hnew : Configured ki maxOutput minOutput dt (PID.new kp ki kd maxOutput minOutput dt) :=
    ⟨rfl, rfl, rfl, rfl⟩
  rw [alongRun_iff_forall (fun pid input _ hpid => proper_iff hpid hle hdt input)
    (fun pid input _ hpid hb => (calculate_of_bounded hpid hle hdt hb input).2) hnew]
  constructor
  · intro h
    cases inputs with
    | nil => exact .inl rfl
    | cons i is => exact .inr (h i (List.mem_cons_self ..))
  · rintro (rfl | hb) i hi
    · cases hi
    · exact hb

/-- Calls with a positive gain. -/
theorem calculate_proper_positive :
    AlongRun (fun pid input => pid.calculate input.1 input.2) (Proper 2 10 (-10))
      (PID.new (1 : ℚ) 2 0 10 (-10) 1) [(3, 0), (3, 9)] :=
  (calculate_proper_iff (1 : ℚ) 2 0 10 (-10) 1 (by norm_num) one_pos _).mpr
    (.inr (.inl two_pos))

/-- Without an integral gain, which is the default, the call divides by zero; with a negative
one the bounds of the integral are in the wrong order. -/
theorem calculate_faults :
    (PID.new (1 : ℚ) 0 0 10 (-10)).calculate 1 0 = none ∧
      (PID.new (1 : ℚ) (-2) 0 10 (-10)).calculate 1 0 = none := by
  have hzero : (PID.new (1 : ℚ) 0 0 10 (-10)).integrate (1 - 0) = none :=
    integrate_of_zero rfl _
  have hneg : (PID.new (1 : ℚ) (-2) 0 10 (-10)).integrate (1 - 0) = none :=
    integrate_of_neg (by norm_num [PID.new]) (by norm_num [PID.new]) _
  unfold PID.calculate
  exact ⟨congrArg (Option.bind · _) hzero, congrArg (Option.bind · _) hneg⟩

end MyLibraries.Control.Cpp
