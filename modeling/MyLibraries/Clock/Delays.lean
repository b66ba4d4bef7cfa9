import Mathlib.Data.List.Basic
import Mathlib.Algebra.BigOperators.Group.List.Basic
import MyLibraries.Clock.Model

/-!
# Delays

`Delays` counts the ticks of the CPU clock with the 24 bits of the SysTick timer, which
`Init` has left running: a delay is loaded, and ends when the counter has come down to 0. A
counter that is loaded with 0 stands still. The product of the microseconds and the frequency
is formed in 32 bits before it is divided, so the ticks are the right ones exactly when the
product fits (`loaded_iff`); the 1000 microseconds of which `DelayMs` puts its delay together
fit up to a frequency of about 4.29 MHz.
-/

namespace MyLibraries.Clock

/-- `Clocks::GetCPUFreqHz`. -/
def getCpuFreqHz (s : State) : UInt32 := s.freqs.cpuFreqHz

/-- What a call has waited for: the values of `LOAD`, and whether the last of the waits ends. -/
structure Waits where
  loads : List (BitVec 24)
  ended : Bool
  deriving DecidableEq, Repr

/-- What comes behind a wait. -/
def Waits.andThen (a b : Waits) : Waits :=
  if a.ended then ⟨a.loads ++ b.loads, b.ended⟩ else a

/-- The number of ticks that the waits take together. -/
def Waits.ticks (a : Waits) : Nat := (a.loads.map BitVec.toNat).sum

/-- `delay_ticks`. -/
def delayTicks (ticks : UInt32) : Waits :=
  let load := ticks.toBitVec.setWidth 24
  ⟨[load], load ≠ 0⟩

/-- `Delays::DelayUs`. -/
def delayUs (s : State) (us : UInt32) : Waits :=
  let ticks := us * getCpuFreqHz s / 1000000
  delayTicks ticks

/-- `while (ms--) DelayUs(1000)`. -/
def delayMsLoop (s : State) : Nat → Waits
  | 0 => ⟨[], true⟩
  | ms + 1 => (delayUs s 1000).andThen (delayMsLoop s ms)

/-- `Delays::DelayMs`. -/
def delayMs (s : State) (ms : UInt32) : Waits := delayMsLoop s ms.toNat

variable {s : State} {us ms : UInt32}

/-! ## One delay -/

/-- The ticks of a number of microseconds. -/
def ticksOf (f us : Nat) : Nat := us * f / 1000000

/-- The value that is loaded: no more than 4294, so that the 24 bits hold it. -/
theorem delayUs_eq (s : State) (us : UInt32) :
    ∃ load : BitVec 24, delayUs s us = ⟨[load], load ≠ 0⟩ ∧
      load.toNat = us.toNat * (getCpuFreqHz s).toNat % 2 ^ 32 / 1000000 := by
  refine ⟨_, rfl, ?_⟩
  have hticks : (us * getCpuFreqHz s / 1000000).toNat =
      us.toNat * (getCpuFreqHz s).toNat % 2 ^ 32 / 1000000 := by
    rw [UInt32.toNat_div, UInt32.toNat_mul]
    rfl
  have hlt : us.toNat * (getCpuFreqHz s).toNat % 2 ^ 32 < 2 ^ 32 := Nat.mod_lt _ (by decide)
  rw [BitVec.toNat_setWidth, UInt32.toNat_toBitVec, hticks, Nat.mod_eq_of_lt (by omega)]

/-- A product that does not fit never gives the ticks of one that does. -/
theorem wrapped_div_iff (p : Nat) : p % 2 ^ 32 / 1000000 = p / 1000000 ↔ p < 2 ^ 32 := by
  constructor
  · intro heq
    by_contra hle
    have hlt : p % 2 ^ 32 < 2 ^ 32 := Nat.mod_lt _ (by decide)
    have hsmall : p < 4295000000 := by omega
    have hmod : p % 2 ^ 32 = p - 2 ^ 32 := by omega
    omega
  · intro hlt
    rw [Nat.mod_eq_of_lt hlt]

theorem loaded_iff (s : State) (us : UInt32) :
    (delayUs s us).loads.map BitVec.toNat = [ticksOf (getCpuFreqHz s).toNat us.toNat] ↔
      us.toNat * (getCpuFreqHz s).toNat < 2 ^ 32 := by
  obtain ⟨load, hwaits, hload⟩ := delayUs_eq s us
  rw [hwaits, List.map_singleton, hload, ticksOf, List.cons.injEq, wrapped_div_iff]
  exact and_iff_left rfl

/-! ## Many of them -/

/-- The waits of the loop, unless the first of them does not end. -/
theorem delayMsLoop_eq {load : BitVec 24} (h : delayUs s 1000 = ⟨[load], load ≠ 0⟩) (ms : Nat) :
    delayMsLoop s ms =
      if ms = 0 ∨ load ≠ 0 then ⟨List.replicate ms load, true⟩ else ⟨[load], false⟩ := by
  induction ms with
  | zero => rfl
  | succ ms ih =>
      rw [delayMsLoop, h, ih, Waits.andThen]
      by_cases hne : load ≠ 0
      · rw [if_pos (Or.inr hne), if_pos (Or.inr hne), if_pos (decide_eq_true hne)]
        rfl
      · have hstuck : decide (load ≠ 0) ≠ true := by simpa using hne
        rw [if_neg hstuck, if_neg (not_or.mpr ⟨Nat.succ_ne_zero ms, hne⟩),
          Bool.eq_false_iff.mpr hstuck]

theorem delayMs_iff (s : State) (ms : UInt32) :
    ((delayMs s ms).ended = true ∧
      (delayMs s ms).ticks = ms.toNat * ticksOf (getCpuFreqHz s).toNat 1000) ↔
      ms = 0 ∨ 1000 ≤ (getCpuFreqHz s).toNat ∧ 1000 * (getCpuFreqHz s).toNat < 2 ^ 32 := by
  obtain ⟨load, hwaits, hload⟩ := delayUs_eq s 1000
  have hticks : load.toNat = ticksOf (getCpuFreqHz s).toNat 1000 ↔
      1000 * (getCpuFreqHz s).toNat < 2 ^ 32 := by
    rw [hload, ticksOf]
    exact wrapped_div_iff _
  have hne : load ≠ 0 ↔ load.toNat ≠ 0 := not_congr BitVec.toNat_inj.symm
  rw [delayMs, delayMsLoop_eq hwaits, ← UInt32.toNat_inj, UInt32.toNat_zero]
  by_cases hnone : ms.toNat = 0
  · rw [if_pos (Or.inl hnone), hnone, Nat.zero_mul]
    exact iff_of_true ⟨rfl, rfl⟩ (Or.inl rfl)
  · by_cases hstuck : load ≠ 0
    · have hsum : (List.replicate ms.toNat load |>.map BitVec.toNat).sum =
          ms.toNat * load.toNat := by
        rw [List.map_replicate, List.sum_replicate, Nat.nsmul_eq_mul]
      rw [if_pos (Or.inr hstuck), or_iff_right hnone, Waits.ticks, hsum,
        Nat.mul_left_cancel_iff (Nat.pos_of_ne_zero hnone), hticks]
      refine ⟨fun h => ⟨?_, h.2⟩, fun h => ⟨rfl, h.2⟩⟩
      have hload := hticks.mpr h.2
      have hpos := hne.mp hstuck
      rw [hload, ticksOf] at hpos
      omega
    · rw [if_neg (not_or.mpr ⟨hnone, hstuck⟩), or_iff_right hnone]
      have hzero : load.toNat = 0 := not_not.mp (mt hne.mpr hstuck)
      refine iff_of_false (fun h => absurd h.1 Bool.false_ne_true) fun h => ?_
      have hlow := hticks.mpr h.2
      rw [hzero, ticksOf] at hlow
      omega

/-- **When a delay has the ticks that it is asked for.** -/
theorem delays_exact_iff (s : State) :
    (∀ us, (delayUs s us).loads.map BitVec.toNat = [ticksOf (getCpuFreqHz s).toNat us.toNat] ↔
      us.toNat * (getCpuFreqHz s).toNat < 2 ^ 32) ∧
    ∀ ms, ((delayMs s ms).ended = true ∧
      (delayMs s ms).ticks = ms.toNat * ticksOf (getCpuFreqHz s).toNat 1000) ↔
      ms = 0 ∨ 1000 ≤ (getCpuFreqHz s).toNat ∧ 1000 * (getCpuFreqHz s).toNat < 2 ^ 32 :=
  ⟨loaded_iff s, delayMs_iff s⟩

/-- At 72 MHz a millisecond takes 3280 ticks in place of 72000. -/
theorem millisecond_shortened :
    let s : State := { start ⟨0, 0⟩ with freqs := ⟨72000000, 72000000, 36000000, 72000000⟩ }
    ((delayUs s 1000).loads = [3280] ∧ (delayMs s 1).ticks = 3280 ∧
      ticksOf (getCpuFreqHz s).toNat 1000 = 72000) ∧
    ¬ ∀ (s : State) (us : UInt32), (getCpuFreqHz s).toNat ≤ 72000000 →
      ticksOf (getCpuFreqHz s).toNat us.toNat < 2 ^ 24 →
        (delayUs s us).loads.map BitVec.toNat = [ticksOf (getCpuFreqHz s).toNat us.toNat] := by
  intro s
  have hwaits : (delayUs s 1000).loads = [3280] ∧ (delayMs s 1).ticks = 3280 ∧
      ticksOf (getCpuFreqHz s).toNat 1000 = 72000 := by decide
  refine ⟨hwaits, fun hall => ?_⟩
  have hright := hall s 1000 (by decide) (by decide)
  rw [hwaits.1] at hright
  exact absurd hright (by decide)

end MyLibraries.Clock
