import Mathlib.Data.Fintype.EquivFin
import Mathlib.Data.FinEnum
import MyLibraries.Core.Mixing
import MyLibraries.Core.Orbit

/-!
# `ranq1`

The state goes through three xors with shifts of itself, and its product with an odd number is
the output. Each of the four can be taken back, so the state of a run that did not start from 0
never gets there, its output is never 0, and two runs never meet.
-/

namespace MyLibraries.Rand

open Mixing

/-- The factor of `ranq1`. -/
def ranqFactor : BitVec 64 := 2685821657736338717#64

/-- `ranq1`: its result, and `*state`. -/
def ranq1 (state : BitVec 64) : BitVec 64 × BitVec 64 :=
  let state := state ^^^ (state >>> 21)
  let state := state ^^^ (state <<< 35)
  let state := state ^^^ (state >>> 4)
  (state * ranqFactor, state)

/-- What a call does to the state. -/
def ranqNext (state : BitVec 64) : BitVec 64 := (ranq1 state).2

variable {seed : BitVec 64}

theorem ranqNext_eq (state : BitVec 64) :
    ranqNext state = xorShift 4 (xorShiftLeft 35 (xorShift 21 state)) := rfl

theorem ranqNext_injective : Function.Injective ranqNext := by
  have hcomp : ranqNext = xorShift 4 ∘ xorShiftLeft 35 ∘ xorShift 21 := funext ranqNext_eq
  rw [hcomp]
  apply (xorShift_injective (by decide)).comp
  exact (xorShiftLeft_injective (by decide)).comp (xorShift_injective (by decide))

theorem ranqNext_zero : ranqNext 0#64 = 0#64 := rfl

/-- A product with the factor is 0 only for the state 0. -/
theorem mul_ranqFactor_ne (h : seed ≠ 0#64) : seed * ranqFactor ≠ 0#64 := by
  have hinv : ranqFactor * 6415128727920758069#64 = 1#64 := by decide
  intro hzero
  exact h (mul_injective hinv (hzero.trans (BitVec.zero_mul ..).symm))

/-- **`ranq1` never dies.** -/
theorem ranq1_alive :
    Function.Bijective ranqNext ∧ ranqNext 0#64 = 0#64 ∧
    (∀ seed : BitVec 64, seed ≠ 0#64 → ∀ n,
      ranqNext^[n] seed ≠ 0#64 ∧ (ranq1 (ranqNext^[n] seed)).1 ≠ 0#64) ∧
    ∀ seed seed' : BitVec 64, seed ≠ seed' → ∀ n, ranqNext^[n] seed ≠ ranqNext^[n] seed' := by
  refine ⟨Finite.injective_iff_bijective.mp ranqNext_injective, ranqNext_zero, ?_, ?_⟩
  · intro seed hseed n
    have hstate := Orbit.iterate_ne_fixed ranqNext_injective ranqNext_zero hseed
    have hnext := hstate (n + 1)
    rw [Function.iterate_succ_apply'] at hnext
    exact ⟨hstate n, mul_ranqFactor_ne hnext⟩
  · intro seed seed' hne n
    exact Orbit.iterate_ne ranqNext_injective hne n

/-- The seeds 1 and 2. -/
theorem ranq1_alive_one : (ranq1 (ranqNext^[1000] 1#64)).1 ≠ 0#64 ∧
    ranqNext^[1000] 1#64 ≠ ranqNext^[1000] 2#64 :=
  ⟨(ranq1_alive.2.2.1 1#64 (by decide) 1000).2, ranq1_alive.2.2.2 1#64 2#64 (by decide) 1000⟩

example : ranq1 1#64 = (5216096389853666589#64, 36507222017#64) := by decide

end MyLibraries.Rand
