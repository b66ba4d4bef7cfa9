import Mathlib.Algebra.Order.Field.Basic
import Mathlib.Data.List.MinMax
import Mathlib.Tactic.Linarith

/-!
# Values within bounds

Division and clamping fault where they have no meaning: at a zero divisor, at bounds in the
wrong order. `Between` says that a value lies between the least and the greatest of some
samples; a step from such a value towards a sample does not leave them.
-/

namespace MyLibraries.Within

variable {T : Type} [LinearOrder T]

/-- `a / b`. -/
def divide [Field T] (a b : T) : Option T := if b = 0 then none else some (a / b)

/-- `v` within `lo` and `hi`, as `std::clamp` has it. -/
def clamp (v lo hi : T) : Option T :=
  if hi < lo then none else some (if v < lo then lo else if hi < v then hi else v)

/-- Between the minimum and the maximum of `xs`. -/
def Between (xs : List T) (y : T) : Prop :=
  xs.minimum ≤ (y : WithTop T) ∧ (y : WithBot T) ≤ xs.maximum

variable {xs ys : List T} {v lo hi x y : T}

/-! ## Clamping -/

/-- What clamping to bounds in the right order does. -/
theorem clamp_of_le (h : lo ≤ hi) (v : T) :
    clamp v lo hi = some (if v < lo then lo else if hi < v then hi else v) :=
  if_neg (not_lt.mpr h)

theorem clamp_of_lt (h : hi < lo) (v : T) : clamp v lo hi = none := if_pos h

theorem mem_of_clamp (h : clamp v lo hi = some y) : lo ≤ y ∧ y ≤ hi := by
  unfold clamp at h
  split at h
  · cases h
  · rename_i hle
    cases h
    have := not_lt.mp hle
    split_ifs with h₁ h₂
    · exact ⟨le_rfl, this⟩
    · exact ⟨this, le_rfl⟩
    · exact ⟨not_lt.mp h₁, not_lt.mp h₂⟩

/-! ## Samples -/

theorem between_iff : Between xs y ↔ (∃ a ∈ xs, a ≤ y) ∧ ∃ b ∈ xs, y ≤ b := by
  refine and_congr ?_ ?_
  · constructor
    · intro h
      obtain ⟨a, ha⟩ := WithTop.ne_top_iff_exists.mp (ne_top_of_le_ne_top WithTop.coe_ne_top h)
      exact ⟨a, List.minimum_mem ha.symm, by rwa [← ha, WithTop.coe_le_coe] at h⟩
    · rintro ⟨a, ha, hle⟩
      exact (List.minimum_le_of_mem' ha).trans (WithTop.coe_le_coe.mpr hle)
  · constructor
    · intro h
      obtain ⟨b, hb⟩ := WithBot.ne_bot_iff_exists.mp (ne_bot_of_le_ne_bot WithBot.coe_ne_bot h)
      exact ⟨b, List.maximum_mem hb.symm, by rwa [← hb, WithBot.coe_le_coe] at h⟩
    · rintro ⟨b, hb, hle⟩
      exact (WithBot.coe_le_coe.mpr hle).trans (List.le_maximum_of_mem' hb)

theorem between_of_mem (h : y ∈ xs) : Between xs y :=
  between_iff.mpr ⟨⟨y, h, le_rfl⟩, ⟨y, h, le_rfl⟩⟩

/-- More samples leave more room. -/
theorem Between.mono (h : Between xs y) (hsub : xs ⊆ ys) : Between ys y := by
  obtain ⟨⟨a, ha, hay⟩, b, hb, hyb⟩ := between_iff.mp h
  exact between_iff.mpr ⟨⟨a, hsub ha, hay⟩, ⟨b, hsub hb, hyb⟩⟩

/-- **A step towards a sample**, not beyond it, stays between the samples. -/
theorem Between.step [Field T] [IsStrictOrderedRing T] {a : T} (h : Between xs y) (hx : x ∈ xs)
    (ha₀ : 0 ≤ a) (ha₁ : a ≤ 1) : Between xs (y + a * (x - y)) := by
  obtain ⟨⟨lo, hlo, hlow⟩, hi, hhi, hhigh⟩ := between_iff.mp h
  rcases le_total x y with hxy | hxy
  · have hdown : a * (x - y) ≤ 0 := mul_nonpos_of_nonneg_of_nonpos ha₀ (by linarith)
    have hmost : x - y ≤ a * (x - y) := by
      have := mul_le_mul_of_nonneg_right ha₁ (show 0 ≤ y - x by linarith)
      linarith
    exact between_iff.mpr ⟨⟨x, hx, by linarith⟩, hi, hhi, by linarith⟩
  · have hup : 0 ≤ a * (x - y) := mul_nonneg ha₀ (by linarith)
    have hmost : a * (x - y) ≤ x - y := by
      have := mul_le_mul_of_nonneg_right ha₁ (show 0 ≤ x - y by linarith)
      linarith
    exact between_iff.mpr ⟨⟨lo, hlo, by linarith⟩, x, hx, by linarith⟩

end MyLibraries.Within
