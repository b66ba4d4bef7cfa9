import Mathlib.Algebra.Order.Ring.Int
import Mathlib.Tactic.Linarith
import Mathlib.Tactic.Ring

/-!
# Integers in two's complement

`signed w x` and `unsigned w x` are what a type of `w` bits holds of `x`. A value with room is
left as it is (`signed_eq`), and the residue is that of `x` (`signed_emod`). What is shifted
to the right behind that is a floor: it is `-m` exactly when a residue is small
(`shiftRight_add_eq_zero_iff`).
-/

namespace MyLibraries.TwosComplement

/-- A value in a signed type of `w` bits. -/
def signed (w : Nat) (x : Int) : Int := x.bmod (2 ^ w)

/-- A value in an unsigned type of `w` bits. -/
def unsigned (w : Nat) (x : Int) : Int := x % 2 ^ w

variable {w n : Nat} {x m : Int}

theorem signed_eq (hlow : -2 ^ w ≤ 2 * x) (hhigh : 2 * x < 2 ^ w) : signed w x = x := by
  have hcast : ((2 ^ w : Nat) : Int) = 2 ^ w := by norm_cast
  rw [← hcast] at hlow hhigh
  exact Int.bmod_eq_of_le (by omega) (by omega)

theorem signed_emod (w : Nat) (x : Int) : signed w x % 2 ^ w = x % 2 ^ w := by
  have hcast : ((2 ^ w : Nat) : Int) = 2 ^ w := by norm_cast
  have hmod := Int.bmod_emod (x := x) (m := 2 ^ w)
  rwa [hcast] at hmod

/-- A signed value is in the range of its type. -/
theorem signed_bounds (hw : 0 < w) (x : Int) :
    -2 ^ w ≤ 2 * signed w x ∧ 2 * signed w x < 2 ^ w := by
  obtain ⟨v, rfl⟩ : ∃ v, w = v + 1 := ⟨w - 1, by omega⟩
  have hpos : 0 < 2 ^ (v + 1) := Nat.two_pow_pos _
  have hlow := Int.le_bmod (x := x) hpos
  have hhigh := Int.bmod_lt (x := x) hpos
  have hcast : ((2 ^ (v + 1) : Nat) : Int) = 2 * 2 ^ v := by push_cast; ring
  rw [hcast] at hlow hhigh
  rw [pow_succ, signed]
  constructor <;> omega

/-- A value comes no further away from 0. -/
theorem signed_within (hw : 0 < w) {b : Int} (hlow : -b ≤ x) (hhigh : x ≤ b) :
    -b ≤ signed w x ∧ signed w x ≤ b := by
  obtain ⟨hleast, hmost⟩ := signed_bounds hw x
  by_cases hfits : -2 ^ w ≤ 2 * x ∧ 2 * x < 2 ^ w
  · rw [signed_eq hfits.1 hfits.2]
    exact ⟨hlow, hhigh⟩
  · omega

/-- Where a sum of a shifted value and a small number is zero. -/
theorem shiftRight_add_eq_zero_iff (hn : 4 * 2 ^ n ≤ (2 : Int) ^ w)
    (hlow : -2 ^ w ≤ 4 * (m * 2 ^ n)) (hhigh : 4 * (m * 2 ^ n) ≤ 2 ^ w) :
    signed w x >>> n + m = 0 ↔ (x + m * 2 ^ n) % 2 ^ w < 2 ^ n := by
  have hw : 0 < w := by
    rcases Nat.eq_zero_or_pos w with rfl | hw
    · have : (0 : Int) < 2 ^ n := by positivity
      rw [pow_zero] at hn
      omega
    · exact hw
  obtain ⟨hleast, hmost⟩ := signed_bounds hw x
  have hmod : (x + m * 2 ^ n) % 2 ^ w = (signed w x + m * 2 ^ n) % 2 ^ w := by
    rw [Int.add_emod x, ← signed_emod w x, ← Int.add_emod]
  have hpow : (0 : Int) < 2 ^ n := by positivity
  have hfloor : signed w x >>> n + m = (signed w x + m * 2 ^ n) / 2 ^ n := by
    have hcast : ((2 ^ n : Nat) : Int) = 2 ^ n := by norm_cast
    rw [Int.add_mul_ediv_right _ _ (ne_of_gt hpow), Int.shiftRight_eq_div_pow, hcast]
  have hbelow : -(3 * 2 ^ w) ≤ 4 * (signed w x + m * 2 ^ n) := by linarith
  have habove : 4 * (signed w x + m * 2 ^ n) < 3 * 2 ^ w := by linarith
  rw [hmod, hfloor]
  generalize signed w x + m * 2 ^ n = y at hbelow habove ⊢
  constructor
  · intro hzero
    have hsplit := Int.mul_ediv_add_emod y (2 ^ n)
    have hrest := Int.emod_lt_of_pos y hpow
    have hnonneg := Int.emod_nonneg y (ne_of_gt hpow)
    rw [hzero, mul_zero, zero_add] at hsplit
    rw [← hsplit, Int.emod_eq_of_lt hnonneg (by linarith)]
    exact hrest
  · intro hsmall
    rcases lt_or_ge y 0 with hneg | hnonneg
    · have hwrap : y % 2 ^ w = y + 2 ^ w := by
        rw [← Int.add_emod_right, Int.emod_eq_of_lt (by linarith) (by linarith)]
      linarith
    · rw [Int.emod_eq_of_lt hnonneg (by linarith)] at hsmall
      exact Int.ediv_eq_zero_of_lt hnonneg hsmall

end MyLibraries.TwosComplement
