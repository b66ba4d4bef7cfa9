import Mathlib.Algebra.Order.Ring.Rat
import Mathlib.Tactic.FieldSimp
import Mathlib.Tactic.Linarith
import Mathlib.Tactic.Positivity
import Mathlib.Tactic.Ring
import MyLibraries.Filters.Model

/-!
# The low pass and the high pass are complementary

The two filters keep different states: the low pass its last output, the high pass its last
output and its last sample. As long as they see the same samples the last output of the
low pass is what the high pass took away from the last sample, and the outputs of every
valid update add up to the sample.
-/

namespace MyLibraries.Filters

variable {T : Type} [Field T] [LinearOrder T] [IsStrictOrderedRing T]

/-- What happens to both filters: an update, or a reset of each to a value of its own. -/
inductive Call (T : Type)
  | update (sample dt : T)
  | reset (low high : T)

/-- A call, on both filters. -/
def both (fs : FirstOrderLowPass T × FirstOrderHighPass T) :
    Call T → FirstOrderLowPass T × FirstOrderHighPass T
  | .update sample dt => ((fs.1.update sample dt).2, (fs.2.update sample dt).2)
  | .reset low high => (fs.1.reset low, fs.2.reset high)

/-- What relates the two filters. -/
structure Complementary (cutoff : T) (low : FirstOrderLowPass T) (high : FirstOrderHighPass T) :
    Prop where
  low_cutoff : low.cutoffHz = cutoff
  high_cutoff : high.cutoffHz = cutoff
  initialized_eq : low.initialized = high.initialized
  last_add : low.initialized = true → low.last + high.lastY = high.lastX

variable {cutoff sample dt : T} {low : FirstOrderLowPass T} {high : FirstOrderHighPass T}

theorem tau_pos (hc : 0 < cutoff) : 0 < tau cutoff := by
  unfold tau pi
  positivity

omit [IsStrictOrderedRing T] in
/-- An update without a positive time step changes nothing. -/
theorem update_of_nonpos (hdt : dt ≤ 0) (low : FirstOrderLowPass T)
    (high : FirstOrderHighPass T) (sample : T) :
    (low.update sample dt).2 = low ∧ (high.update sample dt).2 = high := by
  unfold FirstOrderLowPass.update FirstOrderHighPass.update
  rw [if_pos hdt, if_pos hdt]
  exact ⟨rfl, rfl⟩

omit [IsStrictOrderedRing T] in
/-- What a valid update of the low pass does. -/
theorem low_update (hdt : 0 < dt) (low : FirstOrderLowPass T) (sample : T) :
    low.update sample dt =
      let last := if low.initialized then
        low.last + dt / (tau low.cutoffHz + dt) * (sample - low.last) else sample
      (last, { low with last, initialized := true }) := by
  unfold FirstOrderLowPass.update
  rw [if_neg (not_le.mpr hdt)]
  cases low with
  | mk cutoff last initialized => cases initialized <;> rfl

omit [IsStrictOrderedRing T] in
/-- What a valid update of the high pass does. -/
theorem high_update (hdt : 0 < dt) (high : FirstOrderHighPass T) (sample : T) :
    high.update sample dt =
      let y := if high.initialized then
        tau high.cutoffHz / (tau high.cutoffHz + dt) * (high.lastY + sample - high.lastX) else 0
      (y, { high with lastX := sample, lastY := y, initialized := true }) := by
  unfold FirstOrderHighPass.update
  rw [if_neg (not_le.mpr hdt)]
  cases high with
  | mk cutoff lastY lastX initialized =>
    cases initialized with
    | false => simp
    | true => rfl

/-- **The outputs of a valid update add up to the sample**, and go on being complementary. -/
theorem Complementary.update (h : Complementary cutoff low high) (hc : 0 < cutoff)
    (hdt : 0 < dt) (sample : T) :
    (low.update sample dt).1 + (high.update sample dt).1 = sample ∧
      Complementary cutoff (low.update sample dt).2 (high.update sample dt).2 := by
  have hsum : tau cutoff + dt ≠ 0 := (add_pos (tau_pos hc) hdt).ne'
  have hout : (low.update sample dt).1 + (high.update sample dt).1 = sample := by
    rw [low_update hdt, high_update hdt, h.low_cutoff, h.high_cutoff, ← h.initialized_eq]
    dsimp only
    split
    · rename_i hi
      rw [← h.last_add hi]
      field_simp
      ring
    · rw [add_zero]
  refine ⟨hout, ?_⟩
  rw [low_update hdt, high_update hdt] at hout ⊢
  exact ⟨h.low_cutoff, h.high_cutoff, rfl, fun _ => hout⟩

theorem Complementary.both (h : Complementary cutoff low high) (hc : 0 < cutoff) (c : Call T) :
    Complementary cutoff (both (low, high) c).1 (both (low, high) c).2 := by
  cases c with
  | update sample dt =>
    by_cases hdt : 0 < dt
    · exact (h.update hc hdt sample).2
    · obtain ⟨hl, hh⟩ := update_of_nonpos (not_lt.mp hdt) low high sample
      show Complementary cutoff (low.update sample dt).2 (high.update sample dt).2
      rw [hl, hh]
      exact h
  | reset l r => exact ⟨h.low_cutoff, h.high_cutoff, rfl, fun hi => by cases hi⟩

/-- The filters after any calls. -/
theorem Complementary.calls (h : Complementary cutoff low high) (hc : 0 < cutoff)
    (cs : List (Call T)) :
    Complementary cutoff (cs.foldl Filters.both (low, high)).1
      (cs.foldl Filters.both (low, high)).2 := by
  induction cs generalizing low high with
  | nil => exact h
  | cons c cs ih => exact ih (h.both hc c)

/-- **Complementary filters.** After any updates and resets of both, the outputs of an
update with a positive time step add up to the sample, and one without changes nothing. -/
theorem low_add_high (cutoff : T) (hc : 0 < cutoff) (initialLow initialHigh : T)
    (cs : List (Call T)) (sample dt : T) :
    let fs := cs.foldl both (.new cutoff initialLow, .new cutoff initialHigh)
    (0 < dt → (fs.1.update sample dt).1 + (fs.2.update sample dt).1 = sample) ∧
      (dt ≤ 0 → (fs.1.update sample dt).2 = fs.1 ∧ (fs.2.update sample dt).2 = fs.2) := by
  intro fs
  have hnew : Complementary cutoff (.new cutoff initialLow) (.new cutoff initialHigh) :=
    ⟨rfl, rfl, rfl, fun hi => by cases hi⟩
  have hfs := hnew.calls hc cs
  exact ⟨fun hdt => (hfs.update hc hdt sample).1,
    fun hdt => update_of_nonpos hdt fs.1 fs.2 sample⟩

/-- The first valid update behind a reset to different values. -/
theorem low_add_high_reset :
    ((([.update 3 1, .update 8 0, .reset 2 9] : List (Call ℚ)).foldl both
        (.new 1 5, .new 1 7)).1.update 4 (1 / 2)).1 +
      ((([.update 3 1, .update 8 0, .reset 2 9] : List (Call ℚ)).foldl both
        (.new 1 5, .new 1 7)).2.update 4 (1 / 2)).1 = 4 :=
  (low_add_high 1 one_pos 5 7 [.update 3 1, .update 8 0, .reset 2 9] 4 (1 / 2)).1 (by norm_num)

end MyLibraries.Filters
