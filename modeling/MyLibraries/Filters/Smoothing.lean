import Mathlib.Algebra.Order.Ring.Rat
import Mathlib.Tactic.FieldSimp
import Mathlib.Tactic.Ring
import MyLibraries.Core.Run
import MyLibraries.Filters.Complementary

/-!
# Smoothing never overshoots

Each of the three filters answers its last output moved towards the new sample, by a part of
the way between none and all of it. For the Kalman filter the part is the gain, and what
keeps it there is the bound of the error; the others start over at the first sample behind a
reset.
-/

namespace MyLibraries.Filters

open Within Run

variable {T : Type} [Field T] [LinearOrder T]

/-! ## Kalman -/

/-- What an update with the given gain does. -/
theorem kalman_update {f : KalmanFilter T} {gain : T} (h : f.predict.kalmanGain = some gain)
    (measurement : T) : f.update measurement =
      let lastEstimate := f.lastEstimate + gain * (measurement - f.lastEstimate)
      some (lastEstimate, { f with
        estimationError := (1 - gain) * f.predict.estimationError, lastEstimate }) := by
  show (f.predict.kalmanGain.bind fun gain => some (_, _)) = _
  rw [h]
  rfl

/-- What holds of the filter between two updates: its noises are those it was made with, and
its last estimate is between 0 and the samples. -/
structure KalmanFilter.Bounded (processNoise measurementNoise : T) (samples : List T)
    (f : KalmanFilter T) : Prop where
  processNoise_eq : f.processNoise = processNoise
  measurementNoise_eq : f.measurementNoise = measurementNoise
  error_nonneg : 0 ≤ f.estimationError
  between : Between (0 :: samples) f.lastEstimate

variable [IsStrictOrderedRing T]

/-- The gain behind a nonnegative error, and the error it leaves. -/
theorem kalmanGain_spec {f : KalmanFilter T} (he : 0 ≤ f.estimationError)
    (hm : 0 < f.measurementNoise) :
    ∃ gain, f.kalmanGain = some gain ∧ 0 ≤ gain ∧ gain < 1 ∧
      0 ≤ (1 - gain) * f.estimationError ∧
      (1 - gain) * f.estimationError < f.measurementNoise := by
  have hsum : 0 < f.estimationError + f.measurementNoise := by linarith
  have hlt : f.estimationError / (f.estimationError + f.measurementNoise) < 1 := by
    rw [div_lt_one hsum]
    linarith
  refine ⟨_, if_neg hsum.ne', div_nonneg he hsum.le, hlt, ?_, ?_⟩
  · exact mul_nonneg (by linarith) he
  · have hleft : (1 - f.estimationError / (f.estimationError + f.measurementNoise)) *
        f.estimationError =
        f.measurementNoise * (f.estimationError / (f.estimationError + f.measurementNoise)) := by
      field_simp
      ring
    rw [hleft]
    exact mul_lt_of_lt_one_right hm hlt

/-- **One update of the Kalman filter.** -/
theorem KalmanFilter.Bounded.update {processNoise measurementNoise : T} {samples : List T}
    {f : KalmanFilter T} (h : f.Bounded processNoise measurementNoise samples)
    (hp : 0 ≤ processNoise) (hm : 0 < measurementNoise) (measurement : T) :
    ∃ gain out f', f.predict.kalmanGain = some gain ∧ 0 ≤ gain ∧ gain < 1 ∧
      f.update measurement = some (out, f') ∧
      0 ≤ f'.estimationError ∧ f'.estimationError < measurementNoise ∧
      out = f'.lastEstimate ∧
      f'.Bounded processNoise measurementNoise (samples ++ [measurement]) := by
  have hpredict : 0 ≤ f.predict.estimationError := by
    have := h.error_nonneg
    show 0 ≤ f.estimationError + f.processNoise
    rw [h.processNoise_eq]
    linarith
  have hnoise : 0 < f.predict.measurementNoise := by
    show 0 < f.measurementNoise
    rwa [h.measurementNoise_eq]
  obtain ⟨gain, hgain, hg₀, hg₁, he₀, he₁⟩ := kalmanGain_spec hpredict hnoise
  refine ⟨gain, _, _, hgain, hg₀, hg₁, kalman_update hgain measurement, he₀, ?_, rfl, ?_⟩
  · rwa [← h.measurementNoise_eq]
  · refine ⟨h.processNoise_eq, h.measurementNoise_eq, he₀, ?_⟩
    have hlast : Between (0 :: (samples ++ [measurement])) f.lastEstimate :=
      h.between.mono (List.cons_subset_cons 0 (List.subset_append_left ..))
    exact hlast.step (by simp) hg₀ hg₁.le

/-- **The Kalman filter** after any samples. -/
theorem kalman_steady {processNoise measurementNoise error : T} (hp : 0 ≤ processNoise)
    (hm : 0 < measurementNoise) (he : 0 ≤ error) (samples : List T) :
    ∃ outputs f, run KalmanFilter.update (.new processNoise measurementNoise error) samples =
        some (outputs, f) ∧
      ∀ measurement, ∃ gain out f', f.predict.kalmanGain = some gain ∧ 0 ≤ gain ∧ gain < 1 ∧
        f.update measurement = some (out, f') ∧
        0 ≤ f'.estimationError ∧ f'.estimationError < measurementNoise ∧
        Between (0 :: (samples ++ [measurement])) out := by
  have hnew : (KalmanFilter.new processNoise measurementNoise error).Bounded
      processNoise measurementNoise [] :=
    ⟨rfl, rfl, he, between_of_mem (List.mem_singleton_self 0)⟩
  obtain ⟨outputs, f, hrun, hf⟩ : ∃ outputs f,
      run KalmanFilter.update (.new processNoise measurementNoise error) samples =
        some (outputs, f) ∧ f.Bounded processNoise measurementNoise ([] ++ samples) := by
    refine run_exists_after (fun samples f measurement hf => ?_) hnew
    obtain ⟨_, out, f', -, -, -, hupdate, -, -, -, hf'⟩ := hf.update hp hm measurement
    exact ⟨out, f', hupdate, hf'⟩
  refine ⟨outputs, f, hrun, fun measurement => ?_⟩
  obtain ⟨gain, out, f', hgain, hg₀, hg₁, hupdate, he₀, he₁, hout, hf'⟩ :=
    hf.update hp hm measurement
  exact ⟨gain, out, f', hgain, hg₀, hg₁, hupdate, he₀, he₁, hout ▸ hf'.between⟩

/-! ## The filters with a reset -/

/-- What happens to a filter that can be reset. -/
inductive Use (ι T : Type)
  | update (input : ι)
  | reset (v : T)

section Use

variable {ι φ : Type} (update : φ → ι → T × φ) (reset : φ → T → φ) (sample : ι → Option T)

def Use.apply (f : φ) : Use ι T → φ
  | .update input => (update f input).2
  | .reset v => reset f v

/-- The samples accepted since construction or the last reset. -/
def accepted : List (Use ι T) → List T :=
  List.foldl (fun acc u => match u with
    | .update input => acc ++ (sample input).toList
    | .reset _ => []) []

/-- After any use of the filter, an update answers a value between the samples accepted so
far, its own included, when there are any. -/
def Smooths (f : φ) : Prop :=
  ∀ uses input, accepted sample (uses ++ [.update input]) ≠ [] →
    Between (accepted sample (uses ++ [.update input]))
      (update (uses.foldl (Use.apply update reset) f) input).1

variable {update reset sample}

omit [Field T] [LinearOrder T] [IsStrictOrderedRing T] in
theorem accepted_update (uses : List (Use ι T)) (input : ι) :
    accepted sample (uses ++ [.update input]) = accepted sample uses ++ (sample input).toList := by
  unfold accepted
  rw [List.foldl_append]
  rfl

omit [Field T] [LinearOrder T] [IsStrictOrderedRing T] in
theorem accepted_reset (uses : List (Use ι T)) (v : T) :
    accepted sample (uses ++ [.reset v]) = [] := by
  unfold accepted
  rw [List.foldl_append]
  rfl

omit [Field T] [IsStrictOrderedRing T] in
/-- The invariant rule: what speaks of the accepted samples and the filter, is kept by an
update and by a reset, and bounds the answer of every update. -/
theorem smooths_of_inv (Inv : List T → φ → Prop) {f : φ} (hnew : Inv [] f)
    (hupdate : ∀ acc f input, Inv acc f →
      Inv (acc ++ (sample input).toList) (update f input).2 ∧
        (acc ++ (sample input).toList ≠ [] →
          Between (acc ++ (sample input).toList) (update f input).1))
    (hreset : ∀ acc f v, Inv acc f → Inv [] (reset f v)) : Smooths update reset sample f := by
  have hinv (uses : List (Use ι T)) :
      Inv (accepted sample uses) (uses.foldl (Use.apply update reset) f) := by
    induction uses using List.reverseRecOn with
    | nil => exact hnew
    | append_singleton uses u ih =>
      rw [List.foldl_append]
      cases u with
      | update input =>
        rw [accepted_update]
        exact (hupdate _ _ input ih).1
      | reset v =>
        rw [accepted_reset]
        exact hreset _ _ v ih
  intro uses input hne
  rw [accepted_update] at hne ⊢
  exact (hupdate _ _ input (hinv uses)).2 hne

end Use

/-- The part of a filter that the accepted samples decide: it is initialized behind the
first of them, and then its last output is between them. -/
structure Follows (acc : List T) (initialized : Bool) (last : T) : Prop where
  initialized_iff : initialized = true ↔ acc ≠ []
  between : acc ≠ [] → Between acc last

omit [IsStrictOrderedRing T] [Field T] in
theorem follows_nil (last : T) : Follows [] false last :=
  ⟨iff_of_false Bool.false_ne_true fun h => h rfl, fun h => absurd rfl h⟩

/-- **One accepted sample**: the filter takes the first one as it is and moves part of the
way towards every other. -/
theorem Follows.accept {acc : List T} {initialized : Bool} {last a : T}
    (h : Follows acc initialized last) (ha₀ : 0 ≤ a) (ha₁ : a ≤ 1) (sample : T) :
    Follows (acc ++ [sample]) true
      (if initialized then last + a * (sample - last) else sample) := by
  have hmem : sample ∈ acc ++ [sample] := List.mem_append_right acc (List.mem_singleton_self _)
  refine ⟨iff_of_true rfl (by simp), fun _ => ?_⟩
  cases initialized with
  | false => exact between_of_mem hmem
  | true =>
    have hlast := h.between (h.initialized_iff.mp rfl)
    exact (hlast.mono (List.subset_append_left ..)).step hmem ha₀ ha₁

/-! ## Exponential moving average -/

omit [LinearOrder T] [IsStrictOrderedRing T] in
/-- What an update of the average does. -/
theorem average_update (f : ExponentialMovingAverage T) (value : T) :
    f.update value =
      let last := if f.initialized then f.last + f.alpha * (value - f.last) else value
      (last, { f with last, initialized := true }) := by
  cases f with
  | mk alpha initialized last =>
    cases initialized with
    | false => rfl
    | true =>
      have hmove : alpha * value + (1 - alpha) * last = last + alpha * (value - last) := by ring
      simp [ExponentialMovingAverage.update, hmove]

/-- What holds of the average between two calls. -/
structure ExponentialMovingAverage.Tracks (alpha : T) (acc : List T)
    (f : ExponentialMovingAverage T) : Prop extends Follows acc f.initialized f.last where
  alpha_eq : f.alpha = alpha

theorem ExponentialMovingAverage.Tracks.update {alpha : T} {acc : List T}
    {f : ExponentialMovingAverage T} (h : f.Tracks alpha acc) (ha₀ : 0 ≤ alpha)
    (ha₁ : alpha ≤ 1) (value : T) :
    (f.update value).2.Tracks alpha (acc ++ [value]) ∧
      (acc ++ [value] ≠ [] → Between (acc ++ [value]) (f.update value).1) := by
  have hnext := h.accept ha₀ ha₁ value
  rw [average_update, h.alpha_eq]
  exact ⟨⟨hnext, rfl⟩, hnext.between⟩

/-- **The exponential moving average** accepts every sample. -/
theorem average_smooths {alpha : T} (ha₀ : 0 ≤ alpha) (ha₁ : alpha ≤ 1) :
    Smooths ExponentialMovingAverage.update (fun f v => f.reset v) some
      (ExponentialMovingAverage.new alpha) := by
  apply smooths_of_inv (fun acc f => f.Tracks alpha acc)
  · exact ⟨follows_nil 0, rfl⟩
  · exact fun acc f value h => h.update ha₀ ha₁ value
  · exact fun acc f v h => ⟨follows_nil v, h.alpha_eq⟩

/-! ## First-order low pass -/

/-- The sample of an update with a positive time step. -/
def validSample (input : T × T) : Option T := if 0 < input.2 then some input.1 else none

/-- What holds of the low pass between two calls. -/
structure FirstOrderLowPass.Tracks (cutoff : T) (acc : List T) (f : FirstOrderLowPass T) :
    Prop extends Follows acc f.initialized f.last where
  cutoff_eq : f.cutoffHz = cutoff

theorem FirstOrderLowPass.Tracks.update {cutoff : T} {acc : List T} {f : FirstOrderLowPass T}
    (h : f.Tracks cutoff acc) (hc : 0 < cutoff) (input : T × T) :
    (f.update input.1 input.2).2.Tracks cutoff (acc ++ (validSample input).toList) ∧
      (acc ++ (validSample input).toList ≠ [] →
        Between (acc ++ (validSample input).toList) (f.update input.1 input.2).1) := by
  obtain ⟨sample, dt⟩ := input
  by_cases hdt : 0 < dt
  · have hsum : 0 < tau cutoff + dt := add_pos (tau_pos hc) hdt
    have ha₀ : 0 ≤ dt / (tau cutoff + dt) := div_nonneg hdt.le hsum.le
    have ha₁ : dt / (tau cutoff + dt) ≤ 1 := by
      rw [div_le_one hsum]
      exact le_add_of_nonneg_left (tau_pos hc).le
    have hnext := h.accept ha₀ ha₁ sample
    rw [show validSample (sample, dt) = some sample from if_pos hdt]
    dsimp only
    rw [low_update hdt, h.cutoff_eq]
    exact ⟨⟨hnext, rfl⟩, hnext.between⟩
  · have hskip : f.update sample dt = (f.last, f) := if_pos (not_lt.mp hdt)
    rw [show validSample (sample, dt) = none from if_neg hdt, Option.toList_none,
      List.append_nil]
    dsimp only
    rw [hskip]
    exact ⟨h, h.between⟩

/-- **The low pass** accepts the samples with a positive time step. -/
theorem low_pass_smooths {cutoff : T} (hc : 0 < cutoff) (initial : T) :
    Smooths (fun f input => f.update input.1 input.2) (fun f v => f.reset v) validSample
      (FirstOrderLowPass.new cutoff initial) := by
  apply smooths_of_inv (fun acc f => f.Tracks cutoff acc)
  · exact ⟨follows_nil initial, rfl⟩
  · exact fun acc f input h => h.update hc input
  · exact fun acc f v h => ⟨follows_nil v, h.cutoff_eq⟩

/-! ## The three of them -/

/-- **Smoothing filters are stable and never overshoot.** -/
theorem smoothing_never_overshoots (processNoise measurementNoise error : T)
    (hp : 0 ≤ processNoise) (hm : 0 < measurementNoise) (he : 0 ≤ error) (alpha : T)
    (ha₀ : 0 ≤ alpha) (ha₁ : alpha ≤ 1) (cutoff : T) (hc : 0 < cutoff) (initial : T) :
    (∀ samples, ∃ outputs f,
      run KalmanFilter.update (.new processNoise measurementNoise error) samples =
        some (outputs, f) ∧
      ∀ measurement, ∃ gain out f', f.predict.kalmanGain = some gain ∧ 0 ≤ gain ∧ gain < 1 ∧
        f.update measurement = some (out, f') ∧
        0 ≤ f'.estimationError ∧ f'.estimationError < measurementNoise ∧
        Between (0 :: (samples ++ [measurement])) out) ∧
    Smooths ExponentialMovingAverage.update (fun f v => f.reset v) some
      (ExponentialMovingAverage.new alpha) ∧
    Smooths (fun f input => f.update input.1 input.2) (fun f v => f.reset v) validSample
      (FirstOrderLowPass.new cutoff initial) :=
  ⟨kalman_steady hp hm he, average_smooths ha₀ ha₁, low_pass_smooths hc initial⟩

/-- The second sample of each filter, behind a reset where there is one and, for the low
pass, behind a sample without a time step. -/
theorem smoothing_never_overshoots_rat :
    (∃ outputs f, run KalmanFilter.update (.new 1 2 0) [(4 : ℚ)] = some (outputs, f) ∧
      ∃ out f', f.update 1 = some (out, f') ∧ Between [0, 4, 1] out) ∧
    Between [4, 1] ((([.update 8, .reset 2, .update 4] : List (Use ℚ ℚ)).foldl
      (Use.apply ExponentialMovingAverage.update fun f v => f.reset v) (.new (1 / 2))).update
        1).1 ∧
    Between [4, 1] ((([.update (8, 1), .reset 2, .update (4, 1), .update (7, 0)] :
      List (Use (ℚ × ℚ) ℚ)).foldl (Use.apply (fun f input => f.update input.1 input.2)
        fun f v => f.reset v) (FirstOrderLowPass.new 1 5)).update 1 (1 / 2)).1 := by
  obtain ⟨hkalman, haverage, hlow⟩ := smoothing_never_overshoots (1 : ℚ) 2 0 (by norm_num)
    (by norm_num) le_rfl (1 / 2) (by norm_num) (by norm_num) 1 one_pos 5
  have hvalid : accepted validSample ([.update (8, 1), .reset 2, .update (4, 1),
      .update (7, 0)] ++ [.update ((1 : ℚ), 1 / 2)]) = [4, 1] := by
    norm_num [accepted, validSample]
  refine ⟨?_, ?_, ?_⟩
  · obtain ⟨outputs, f, hrun, hnext⟩ := hkalman [4]
    obtain ⟨_, out, f', -, -, -, hupdate, -, -, hout⟩ := hnext 1
    exact ⟨outputs, f, hrun, out, f', hupdate, hout⟩
  · exact haverage [.update 8, .reset 2, .update 4] 1 (List.cons_ne_nil 4 [1])
  · have := hlow [.update (8, 1), .reset 2, .update (4, 1), .update (7, 0)] (1, 1 / 2)
    rw [hvalid] at this
    exact this (List.cons_ne_nil 4 [1])

end MyLibraries.Filters
