import Mathlib.Data.FinEnum
import MyLibraries.Core.Orbit

/-!
# `micro_rand` and `mulberry32`

The state of `micro_rand` is its output; that of `mulberry32` counts in steps of an odd
constant, and a mixer that is not injective makes the output. Both states go through all
their values in one cycle. The output of `mulberry32` misses some values, but it repeats after the
whole cycle only.
-/

namespace MyLibraries.Rand

open Congruential Function

/-- `micro_rand`: its result, and `*state`. The product is an `int`, and the state keeps its
low byte. -/
def microRand (state : BitVec 8) : BitVec 8 × BitVec 8 :=
  let state := 29#8 * state + 217#8
  (state, state)

/-- `mulberry32`: its result, and `*state`. -/
def mulberry32 (state : BitVec 32) : BitVec 32 × BitVec 32 :=
  let state := state + 0x6D2B79F5#32
  let z := state
  let z := (z ^^^ (z >>> 15)) * (z ||| 1#32)
  let z := z ^^^ (z + (z ^^^ (z >>> 7)) * (z ||| 1#32))
  (z ^^^ (z >>> 14), state)

/-- The state before a call, and the result of the call, in a run from a seed. -/
def microState (seed : BitVec 8) (n : Nat) : BitVec 8 := (fun s => (microRand s).2)^[n] seed

def microOutput (seed : BitVec 8) (n : Nat) : BitVec 8 := (microRand (microState seed n)).1

def mulberryState (seed : BitVec 32) (n : Nat) : BitVec 32 :=
  (fun s => (mulberry32 s).2)^[n] seed

def mulberryOutput (seed : BitVec 32) (n : Nat) : BitVec 32 :=
  (mulberry32 (mulberryState seed n)).1

theorem mulberry32_eq : (fun s => (mulberry32 s).2) = next 1#32 0x6D2B79F5#32 := by
  funext s
  rw [next, BitVec.one_mul]
  rfl

theorem full_micro : Full 29#8 217#8 := by decide

theorem full_mulberry : Full 1#32 0x6D2B79F5#32 := by decide

theorem microOutput_eq (seed : BitVec 8) (n : Nat) :
    microOutput seed n = (next 29#8 217#8)^[n + 1] seed := by
  rw [iterate_succ_apply']
  rfl

/-- **`micro_rand` deals out all bytes**: from every seed, any 256 calls in a row give each
byte exactly once, and the outputs repeat after multiples of 256 calls only. -/
theorem micro_rand_deals (seed : BitVec 8) :
    (∀ m byte, ∃! n, (m ≤ n ∧ n < m + 256) ∧ microOutput seed n = byte) ∧
    ∀ p, Periodic (microOutput seed) p ↔ 256 ∣ p := by
  constructor
  · intro m byte
    have hturn := visits_once full_micro ((next 29#8 217#8) seed) byte m
    simp only [microOutput_eq, iterate_succ_apply]
    exact hturn
  · intro p
    have hhalf : ∃ y, id ((next 29#8 217#8)^[2 ^ (8 - 1)] y) ≠ id y :=
      ⟨0#8, fun heq => absurd ((iterate_eq_self_iff full_micro _).mp heq) (by decide)⟩
    have hperiod := periodic_iff full_micro (by decide) hhalf ((next 29#8 217#8) seed) p
    simp only [id_eq, ← iterate_succ_apply, ← microOutput_eq] at hperiod
    exact hperiod

theorem mulberryState_eq (seed : BitVec 32) (n : Nat) :
    mulberryState seed n = (next 1#32 0x6D2B79F5#32)^[n] seed := by
  rw [mulberryState, mulberry32_eq]

/-- Half a turn changes the highest bit. -/
theorem half_turn (y : BitVec 32) :
    (next 1#32 0x6D2B79F5#32)^[2 ^ 31] y = y + 0x80000000#32 := by
  have hsteps : ∀ n, (next 1#32 0x6D2B79F5#32)^[n] y = y + BitVec.ofNat 32 n * 0x6D2B79F5#32 := by
    intro n
    induction n with
    | zero => simp
    | succ n ih =>
      rw [iterate_succ_apply', ih, next, BitVec.one_mul, BitVec.ofNat_add, BitVec.add_mul,
        BitVec.one_mul, BitVec.add_assoc]
  rw [hsteps]
  rfl

/-- Two states give the same result, so some word is the result of none. -/
theorem mulberry32_misses : ∃ word, ∀ state, (mulberry32 state).1 ≠ word := by
  have hsame : (mulberry32 (0x10001#32 - 0x6D2B79F5#32)).1 =
      (mulberry32 (0x10003#32 - 0x6D2B79F5#32)).1 := by decide
  have hinj : ¬Injective fun s => (mulberry32 s).1 := fun hinj => absurd (hinj hsame) (by decide)
  have hsurj : ¬Surjective fun s => (mulberry32 s).1 :=
    fun hsurj => hinj (Finite.injective_iff_surjective.mpr hsurj)
  simpa only [Surjective, not_forall, not_exists] using hsurj

/-- **The period of `mulberry32`**: from every seed, any `2 ^ 32` calls in a row begin in each
state exactly once, and the outputs repeat after multiples of `2 ^ 32` calls only; but there
is a word that is never the output of any run. -/
theorem mulberry32_period :
    (∀ seed, (∀ m state, ∃! n, (m ≤ n ∧ n < m + 2 ^ 32) ∧ mulberryState seed n = state) ∧
      ∀ p, Periodic (mulberryOutput seed) p ↔ 2 ^ 32 ∣ p) ∧
    ∃ word, ∀ seed n, mulberryOutput seed n ≠ word := by
  obtain ⟨word, hword⟩ := mulberry32_misses
  refine ⟨fun seed => ⟨?_, ?_⟩, word, fun seed n => hword _⟩
  · intro m state
    simp only [mulberryState_eq]
    exact visits_once full_mulberry seed state m
  · intro p
    have hhalf : ∃ y, (mulberry32 ((next 1#32 0x6D2B79F5#32)^[2 ^ (32 - 1)] y)).1 ≠
        (mulberry32 y).1 := by
      refine ⟨0#32, ?_⟩
      rw [half_turn]
      decide
    have hperiod := periodic_iff (g := fun s => (mulberry32 s).1) full_mulberry (by decide) hhalf
      seed p
    simp only [← mulberryState_eq] at hperiod
    exact hperiod

end MyLibraries.Rand
