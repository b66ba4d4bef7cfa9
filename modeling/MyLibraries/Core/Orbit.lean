import Mathlib.Algebra.BigOperators.Intervals
import Mathlib.Algebra.BigOperators.Ring.Finset
import Mathlib.Algebra.Ring.Periodic
import Mathlib.Data.Fintype.EquivFin
import Mathlib.Data.Nat.Factorization.Basic
import Mathlib.Dynamics.PeriodicPts.Lemmas
import Mathlib.Tactic.Ring

/-!
# Orbits of generators

A generator applies one map to its state again and again. When the map is injective, two
runs never meet and a fixed point is not reached from outside; on finitely many states every
run comes back to where it started, so there is no tail.

The map of a congruential generator takes a state `x` of `w` bits to `a * x + c`. With `a` one
more than a multiple of 4 and `c` odd, every run is one cycle through all the states
(`iterate_eq_self_iff`, `visits_once`). An output that tells some state from the one half a turn
away repeats with that period and no shorter one (`periodic_iff`).
-/

namespace MyLibraries.Orbit

open Function

variable {α β : Type} {f : α → α} {s t : α} {n : Nat}

theorem iterate_ne (hf : Injective f) (hne : s ≠ t) (n : Nat) : f^[n] s ≠ f^[n] t :=
  (hf.iterate n).ne hne

theorem iterate_ne_fixed (hf : Injective f) (hfix : f t = t) (hne : s ≠ t) (n : Nat) :
    f^[n] s ≠ t := by
  have hmeet := iterate_ne hf hne n
  rwa [iterate_fixed hfix] at hmeet

/-- **No tail**: the whole run repeats itself. -/
theorem exists_period [Finite α] (hf : Injective f) (s : α) :
    ∃ p, 0 < p ∧ ∀ n, f^[n + p] s = f^[n] s := by
  obtain ⟨p, hp, hback⟩ := mem_periodicPts.mp (hf.mem_periodicPts s)
  refine ⟨p, hp, fun n => ?_⟩
  rw [iterate_add_apply, hback.eq]

end MyLibraries.Orbit

namespace MyLibraries.Congruential

open Finset Function

variable {w : Nat}

/-- One step of the generator. -/
def next (a c x : BitVec w) : BitVec w := a * x + c

/-- What makes a generator go through all its states. -/
structure Full (a c : BitVec w) : Prop where
  factor : a.toNat % 4 = 1
  increment : c.toNat % 2 = 1

instance (a c : BitVec w) : Decidable (Full a c) :=
  decidable_of_iff (a.toNat % 4 = 1 ∧ c.toNat % 2 = 1)
    ⟨fun h => ⟨h.1, h.2⟩, fun h => ⟨h.factor, h.increment⟩⟩

/-- `1 + a + .. + a ^ (n - 1)`. -/
def powers (a n : Nat) : Nat := ∑ i ∈ range n, a ^ i

variable {a n m k : Nat}

/-! ## Sums of powers -/

theorem powers_succ (a n : Nat) : powers a (n + 1) = powers a n + a ^ n := sum_range_succ _ _

theorem powers_double (a m : Nat) : powers a (m + m) = (1 + a ^ m) * powers a m := by
  have hupper : ∑ i ∈ range m, a ^ (m + i) = a ^ m * powers a m := by
    rw [powers, mul_sum]
    exact sum_congr rfl fun i _ => pow_add a m i
  rw [powers, sum_range_add, hupper, ← powers]
  ring

/-- The sum times one less than the base is one less than the next power. -/
theorem pow_eq (b n : Nat) : (b + 1) ^ n = 1 + b * powers (b + 1) n := by
  induction n with
  | zero => simp [powers]
  | succ n ih =>
    rw [powers_succ, pow_succ]
    calc (b + 1) ^ n * (b + 1) = (b + 1) ^ n + b * (b + 1) ^ n := by ring
      _ = 1 + b * powers (b + 1) n + b * (b + 1) ^ n := by rw [← ih]
      _ = 1 + b * (powers (b + 1) n + (b + 1) ^ n) := by ring

theorem pow_mod_four (ha : a % 4 = 1) (n : Nat) : a ^ n % 4 = 1 := by
  rw [Nat.pow_mod, ha, one_pow, Nat.one_mod]

theorem powers_mod_two (ha : a % 4 = 1) (n : Nat) : powers a n % 2 = n % 2 := by
  induction n with
  | zero => rfl
  | succ n ih =>
    have := pow_mod_four ha n
    rw [powers_succ]
    omega

/-- **The sum of `n` powers has exactly the factors two of `n`.** -/
theorem two_pow_dvd_powers (ha : a % 4 = 1) (k n : Nat) : 2 ^ k ∣ powers a n ↔ 2 ^ k ∣ n := by
  induction k generalizing n with
  | zero => simp
  | succ k ih =>
    have hparity := powers_mod_two ha n
    rcases Nat.even_or_odd' n with ⟨m, rfl | rfl⟩
    · -- twice the sum of half as many, and an odd factor
      obtain ⟨u, hu⟩ : ∃ u, 1 + a ^ m = 2 * (2 * u + 1) := by
        have := pow_mod_four ha m
        exact ⟨(1 + a ^ m) / 4, by omega⟩
      have hcoprime : Nat.Coprime (2 ^ k) (2 * u + 1) :=
        Nat.Coprime.pow_left k (by simp)
      rw [Nat.two_mul m, powers_double, hu, ← Nat.two_mul, Nat.pow_succ', Nat.mul_assoc,
        Nat.mul_dvd_mul_iff_left Nat.two_pos, Nat.mul_dvd_mul_iff_left Nat.two_pos, ← ih m]
      exact hcoprime.dvd_mul_left
    · have hodd : ∀ r, r % 2 = 1 → ¬2 ^ (k + 1) ∣ r := fun r hr hdvd => by
        have := (Nat.dvd_of_pow_dvd (Nat.succ_le_succ (Nat.zero_le k)) hdvd)
        omega
      exact iff_of_false (hodd _ (by omega)) (hodd _ (by omega))

/-! ## The cycle -/

section Full

variable {a c x y : BitVec w} (h : Full a c)

theorem toNat_iterate (a c x : BitVec w) (n : Nat) :
    ((next a c)^[n] x).toNat = (a.toNat ^ n * x.toNat + c.toNat * powers a.toNat n) % 2 ^ w := by
  induction n with
  | zero => simp [powers, Nat.mod_eq_of_lt x.isLt]
  | succ n ih =>
    have hpowers : powers a.toNat (n + 1) = a.toNat * powers a.toNat n + 1 := by
      rw [powers, sum_range_succ', powers, mul_sum, pow_zero]
      exact congrArg (· + 1) (sum_congr rfl fun i _ => pow_succ' _ i)
    rw [iterate_succ_apply', next, BitVec.toNat_add, BitVec.toNat_mul, ih, hpowers,
      Nat.mod_add_mod, Nat.add_mod, Nat.mul_mod_mod, ← Nat.add_mod, pow_succ']
    congr 1
    ring

include h

/-- **A run is back at its state exactly after whole turns.** -/
theorem iterate_eq_self_iff (n : Nat) : (next a c)^[n] y = y ↔ 2 ^ w ∣ n := by
  obtain ⟨b, hb⟩ : ∃ b, a.toNat = b + 1 := ⟨a.toNat - 1, by have := h.factor; omega⟩
  have hodd : Nat.Coprime (2 ^ w) (b * y.toNat + c.toNat) := by
    apply Nat.Coprime.pow_left
    rw [Nat.coprime_comm, Nat.coprime_two_right, Nat.odd_iff]
    have hbeven : b % 2 = 0 := by
      have := h.factor
      omega
    have hc := h.increment
    rw [Nat.add_mod, Nat.mul_mod, hbeven, Nat.zero_mul, hc]
  have hvalue : a.toNat ^ n * y.toNat + c.toNat * powers a.toNat n =
      y.toNat + powers a.toNat n * (b * y.toNat + c.toNat) := by
    rw [hb, pow_eq]
    ring
  rw [← two_pow_dvd_powers h.factor, BitVec.toNat_eq, toNat_iterate, hvalue]
  have hself : y.toNat = y.toNat % 2 ^ w := (Nat.mod_eq_of_lt y.isLt).symm
  rw [← hodd.dvd_mul_right]
  constructor
  · intro heq
    rw [← Nat.modEq_zero_iff_dvd]
    exact Nat.ModEq.add_left_cancel' y.toNat (heq.trans hself)
  · intro hdvd
    rw [Nat.add_mod, Nat.mod_eq_zero_of_dvd hdvd, Nat.add_zero, Nat.mod_mod, ← hself]

theorem iterate_add_period (x : BitVec w) (n : Nat) :
    (next a c)^[n + 2 ^ w] x = (next a c)^[n] x := by
  rw [Nat.add_comm, iterate_add_apply]
  exact (iterate_eq_self_iff h _).mpr (Nat.dvd_refl _)

/-- Within a turn no state comes twice. -/
theorem iterate_inj (m : Nat) {i j : Nat} (hi : i < 2 ^ w) (hj : j < 2 ^ w)
    (heq : (next a c)^[m + i] x = (next a c)^[m + j] x) : i = j := by
  wlog hle : i ≤ j generalizing i j
  · exact (this hj hi heq.symm (Nat.le_of_not_le hle)).symm
  obtain ⟨d, rfl⟩ := Nat.exists_eq_add_of_le hle
  rw [← Nat.add_assoc, Nat.add_comm (m + i) d, iterate_add_apply _ d] at heq
  obtain ⟨q, rfl⟩ := (iterate_eq_self_iff h d).mp heq.symm
  rcases Nat.eq_zero_or_pos q with rfl | hq
  · rfl
  · have := Nat.le_mul_of_pos_right (2 ^ w) hq
    omega

/-- **Every turn visits each state exactly once**, from wherever it starts. -/
theorem visits_once (x y : BitVec w) (m : Nat) :
    ∃! n, (m ≤ n ∧ n < m + 2 ^ w) ∧ (next a c)^[n] x = y := by
  have hinj : Injective fun i : Fin (2 ^ w) => ((next a c)^[m + i.val] x).toFin :=
    fun i j heq => Fin.ext (iterate_inj h m i.isLt j.isLt (BitVec.toFin_inj.mp heq))
  obtain ⟨i, hi⟩ := Finite.surjective_of_injective hinj y.toFin
  have hi := BitVec.toFin_inj.mp hi
  refine ⟨m + i.val, ⟨⟨Nat.le_add_right .., Nat.add_lt_add_left i.isLt m⟩, hi⟩, ?_⟩
  rintro n ⟨⟨hm, hn⟩, heq⟩
  obtain ⟨j, rfl⟩ := Nat.exists_eq_add_of_le hm
  rw [iterate_inj h m (Nat.lt_of_add_lt_add_left hn) i.isLt (heq.trans hi.symm)]

/-! ## The period of an output -/

/-- **The least period**: an output that is not the same half a turn later repeats after
whole turns only. -/
theorem periodic_iff {β : Type} {g : BitVec w → β} (hw : 0 < w)
    (hg : ∃ y, g ((next a c)^[2 ^ (w - 1)] y) ≠ g y) (x : BitVec w) (p : Nat) :
    Periodic (fun n => g ((next a c)^[n] x)) p ↔ 2 ^ w ∣ p := by
  have hturn : Periodic (fun n => g ((next a c)^[n] x)) (2 ^ w) :=
    fun n => congrArg g (iterate_add_period h x n)
  constructor
  · intro hp
    by_contra hndvd
    obtain ⟨y, hy⟩ := hg
    -- a multiple of the period is half a turn, and whole turns
    obtain ⟨j, o, ho, rfl⟩ : ∃ j o, Odd o ∧ p = 2 ^ j * o :=
      Nat.exists_eq_two_pow_mul_odd fun hzero => hndvd (hzero ▸ Nat.dvd_zero _)
    have hj : j < w := by
      by_contra hge
      exact hndvd (Dvd.dvd.mul_right (Nat.pow_dvd_pow 2 (Nat.le_of_not_lt hge)) o)
    obtain ⟨q, rfl⟩ := ho
    have hmultiple : 2 ^ (w - 1 - j) * (2 ^ j * (2 * q + 1)) = 2 ^ (w - 1) + q * 2 ^ w := by
      rw [← Nat.mul_assoc, ← Nat.pow_add, show w - 1 - j + j = w - 1 by omega,
        show 2 ^ w = 2 * 2 ^ (w - 1) by rw [← Nat.pow_succ']; congr 1; omega]
      ring
    have hhalf : Periodic (fun n => g ((next a c)^[n] x)) (2 ^ (w - 1)) := by
      intro n
      have hlong := hp.nat_mul (2 ^ (w - 1 - j)) n
      simp only [Nat.cast_id] at hlong
      rw [hmultiple, ← Nat.add_assoc] at hlong
      have hturns := hturn.nat_mul q (n + 2 ^ (w - 1))
      simp only [Nat.cast_id] at hturns
      exact hturns.symm.trans hlong
    obtain ⟨n, ⟨-, hn⟩, -⟩ := visits_once h x y 0
    apply hy
    have hat := hhalf n
    simp only [Nat.add_comm n, iterate_add_apply, hn] at hat
    exact hat
  · rintro ⟨q, rfl⟩
    have hturns := hturn.nat_mul q
    rwa [Nat.cast_id, Nat.mul_comm] at hturns

end Full

end MyLibraries.Congruential
