import MyLibraries.Apds9960.Direction

/-!
# The divisions of `apds9960_gesture`

`proccess_gesture` divides by the sums of channels and checks none of them. It is given the
samples that the loop has kept, and the loop keeps valid ones only, whose channels are not 0;
that both are kept is what the two flags say. So whatever the FIFO holds a call comes to its
end, its ratios are below 100 percent, and it takes two valid samples to find a direction
(`gesture_safe`).
-/

namespace MyLibraries.Apds9960

open Device

/-- The byte that an access reads from `GFLVL`. -/
def levelOf : Access Port (List UInt8) → Option UInt8
  | .read (.reg addr 1) [byte] => if addr = gflvlReg then some byte else none
  | _ => none

/-- The level that a call was told; 0 where it did not ask. -/
def levelRead (t : List (Access Port (List UInt8))) : Nat := ((t.findSome? levelOf).getD 0).toNat

/-- The accesses of `sleep_mode`. -/
def sleepAccesses : List (Access Port (List UInt8)) :=
  [enableReg, piclearReg, ciclearReg, aiclearReg].map fun reg => .write (.reg reg 1) [0]

/-- All four channels are strictly between 10 and 240. -/
def GestureData.Inside (s : GestureData) : Prop := ∀ c ∈ s.bytes, 10 < c ∧ c < 240

instance (s : GestureData) : Decidable s.Inside := inferInstanceAs (Decidable (∀ c ∈ s.bytes, _))

/-- `UP`, `DOWN`, `LEFT` or `RIGHT`. -/
def Gesture.IsDirection (g : Gesture) : Prop :=
  g = .dirUp ∨ g = .dirDown ∨ g = .dirLeft ∨ g = .dirRight

/-- The ratios that `proccess_gesture` computes. -/
def ratios (min max : GestureData) : List (Option Int) :=
  [ratio min.up min.down, ratio min.left min.right, ratio max.up max.down,
    ratio max.left max.right]

variable {dev : Apds} {polls : Nat} {t before after : List (Access Port (List UInt8))}
  {g res : Gesture} {gs : List GestureData} {first last s : GestureData} {level : UInt8}

/-! ## The ratios -/

theorem validateGestData_iff : validateGestData s = true ↔ s.Inside := by
  simp only [validateGestData, GestureData.Inside, GestureData.bytes, List.forall_mem_cons,
    List.not_mem_nil, false_imp_iff, implies_true, Bool.and_eq_true, decide_eq_true_eq, gt_iff_lt,
    UInt8.lt_iff_toNat_lt, and_true]
  constructor
  · rintro ⟨⟨⟨⟨⟨⟨⟨hup, hdown⟩, hleft⟩, hright⟩, hup'⟩, hdown'⟩, hleft'⟩, hright'⟩
    exact ⟨⟨hup, hup'⟩, ⟨hdown, hdown'⟩, ⟨hleft, hleft'⟩, hright, hright'⟩
  · rintro ⟨⟨hup, hup'⟩, ⟨hdown, hdown'⟩, ⟨hleft, hleft'⟩, hright, hright'⟩
    exact ⟨⟨⟨⟨⟨⟨⟨hup, hdown⟩, hleft⟩, hright⟩, hup'⟩, hdown'⟩, hleft'⟩, hright'⟩

/-- Where both channels count the difference is less than the sum. -/
theorem ratio_bounds {a b : UInt8} (ha : 0 < a.toNat) (hb : 0 < b.toNat) :
    ∃ v, ratio a b = some v ∧ -100 < v ∧ v < 100 := by
  have hdiff : (((a.toNat : Int) - b.toNat) * 100).natAbs < (a.toNat + b.toNat) * 100 := by omega
  have hsum : ((a.toNat : Int) + b.toNat).natAbs = a.toNat + b.toNat := by omega
  have habs : (percent a b).natAbs < 100 := by
    rw [percent, Int.natAbs_tdiv, hsum]
    exact Nat.div_lt_of_lt_mul hdiff
  exact ⟨percent a b, ratio_pos (by omega), by omega, by omega⟩

theorem ratios_bounds (hfirst : first.Inside) (hlast : last.Inside) :
    ∀ r ∈ ratios first last, ∃ v, r = some v ∧ -100 < v ∧ v < 100 := by
  have hpos : ∀ s : GestureData, s.Inside → ∀ c ∈ s.bytes, 0 < c.toNat := by
    intro s hs c hc
    exact Nat.zero_lt_of_lt (UInt8.lt_iff_toNat_lt.mp (hs c hc).1)
  have hf := hpos first hfirst
  have hl := hpos last hlast
  simp only [GestureData.bytes, List.forall_mem_cons] at hf hl
  obtain ⟨hup, hdown, hleft, hright, -⟩ := hf
  obtain ⟨hup', hdown', hleft', hright', -⟩ := hl
  simp only [ratios, List.forall_mem_cons]
  exact ⟨ratio_bounds hup hdown, ratio_bounds hleft hright, ratio_bounds hup' hdown',
    ratio_bounds hleft' hright', by simp⟩

/-! ## The level -/

/-- A program that does not ask for the level is not told one. -/
theorem level_quiet {α : Type} {p : Io α} {a : α} (hp : Reads (· ≠ .reg gflvlReg 1) p)
    (hd : Does p t a) : t.findSome? levelOf = none := by
  refine List.findSome?_eq_none_iff.mpr fun x hx => ?_
  unfold levelOf
  split
  · rename_i addr byte
    exact if_neg fun heq => hd.reads hp _ _ hx (by rw [heq])
  · rfl

theorem does_readReg {reg b : UInt8} : Does (readReg reg) t b ↔ t = [.read (.reg reg 1) [b]] := by
  unfold readReg readByte
  constructor
  · rintro ⟨val, t', rfl, hd⟩
    dsimp only at hd
    split at hd
    · obtain ⟨rfl, rfl⟩ := hd
      rfl
    · cases hd
  · rintro rfl
    exact ⟨[b], [], rfl, rfl, rfl⟩

/-- As many samples are to be read as the sensor said there are. -/
theorem awaitFifo_level (hd : Does (awaitFifo dev polls) t (res, level)) :
    levelRead t = level.toNat := by
  unfold awaitFifo at hd
  obtain ⟨t₁, t₂, _, rfl, hwrite, hd⟩ := does_bind.mp hd
  obtain ⟨t₃, t₄, ret, rfl, hwait, hd⟩ := does_bind.mp hd
  have hwrite := level_quiet (by unfold writeReg; trivial) hwrite
  have hwait := level_quiet (reads_waitForIrq (by decide) (by decide) (by decide) _ _) hwait
  simp only [levelRead, List.findSome?_append, hwrite, hwait, Option.none_or]
  split at hd
  · cases hd.2
    rw [hd.1]
    rfl
  · obtain ⟨t₅, t₆, gvalid, rfl, hstatus, hd⟩ := does_bind.mp hd
    rw [does_readReg.mp hstatus]
    split at hd
    · cases hd.2
      rw [hd.1]
      rfl
    · obtain ⟨t₇, t₈, fifoLevel, rfl, hlevel, hd⟩ := does_bind.mp hd
      rw [does_readReg.mp hlevel]
      split at hd
      · rename_i hzero
        cases hd.2
        rw [hzero]
        rfl
      · cases hd.2
        rfl

theorem levelRead_call (hawait : Does (awaitFifo dev polls) before (res, level))
    (hsleep : Does sleepMode after ()) (hlen : gs.length = level.toNat) :
    levelRead (before ++ (gs.map sampleAccess ++ after)) = gs.length := by
  have hsamples : (gs.map sampleAccess).findSome? levelOf = none := by
    rw [List.findSome?_map]
    exact List.findSome?_eq_none_iff.mpr fun s _ => rfl
  have hafter := level_quiet (by unfold sleepMode writeReg; trivial) hsleep
  rw [hlen, ← awaitFifo_level hawait, levelRead, levelRead, List.findSome?_append,
    List.findSome?_append, hsamples, hafter, Option.or_none, Option.or_none]

/-! ## The direction -/

theorem two_of_ends {l : List GestureData} (hfirst : first ∈ l.head?)
    (hlast : last ∈ l.tail.getLast?) : 2 ≤ l.length := by
  cases l with
  | nil => cases hfirst
  | cons x l =>
    cases l with
    | nil => cases hlast
    | cons y l => simp

/-- A direction comes of two samples. -/
theorem outcome_isDirection (hres : res = .noActivity ∨ res = .errDataInvalid ∨ res = .errFifoEmpty)
    (hdir : (outcome res gs).IsDirection) : 2 ≤ (gs.filter (·.Inside)).length := by
  have hfilter : gs.filter (·.Inside) = gs.filter validateGestData := by
    refine List.filter_congr fun s _ => ?_
    rw [Bool.eq_iff_iff, decide_eq_true_iff, validateGestData_iff]
  rw [hfilter]
  unfold outcome at hdir
  rw [foldl_keep] at hdir
  split at hdir
  · rename_i first last hkept
    obtain ⟨hfirst, hlast⟩ := Prod.mk.inj hkept
    exact two_of_ends hfirst hlast
  · rcases hres with rfl | rfl | rfl <;> rcases hdir with h | h | h | h <;> cases h

/-- **Any FIFO is safe.** Whatever the samples are, a call that was told their number ends
with a result. Every call that ends has read that many samples, its ratios are strictly
between -100 and 100, and it found no direction with less than two valid samples. -/
theorem gesture_safe (dev : Apds) (polls : Nat) :
    (∀ before res level, Does (awaitFifo dev polls) before (res, level) →
      ∀ gs : List GestureData, gs.length = level.toNat → ∃ g,
        Does (apds9960Gesture dev polls) (before ++ (gs.map sampleAccess ++ sleepAccesses)) g) ∧
    ∀ t g, Does (apds9960Gesture dev polls) t g →
      (samples t).length = levelRead t ∧
      OfEnds (fun first last => ∀ r ∈ ratios first last, ∃ v, r = some v ∧ -100 < v ∧ v < 100)
        (samples t) ∧
      (g.IsDirection → 2 ≤ ((samples t).filter (·.Inside)).length) := by
  have hsleep : Does sleepMode sleepAccesses () := ⟨_, rfl, _, rfl, _, rfl, _, rfl, rfl, rfl⟩
  constructor
  · intro before res level hawait gs hlen
    exact ⟨_, does_gesture.mpr
      ⟨before, sleepAccesses, res, level, gs, rfl, hawait, hlen, hsleep, rfl⟩⟩
  · intro t g hd
    obtain ⟨before, after, res, level, gs, rfl, hawait, hlen, hsleep, rfl⟩ := does_gesture.mp hd
    rw [samples_call hawait hsleep, levelRead_call hawait hsleep hlen]
    refine ⟨rfl, ofEnds_iff.mpr fun first hfirst last hlast => ?_,
      outcome_isDirection (awaitFifo_res hawait)⟩
    exact ratios_bounds (validateGestData_iff.mp (valid_of_kept (Or.inl hfirst)))
      (validateGestData_iff.mp (valid_of_kept (Or.inr hlast)))

/-- The theorem for a hand that moves up, and for a FIFO that has nothing but zeros. -/
theorem gesture_safe_handUp :
    (∃ t, Does (apds9960Gesture ⟨false, false⟩ 1) t .dirUp ∧
      (samples t).length = 2 ∧ 2 ≤ ((samples t).filter (·.Inside)).length) ∧
    ∃ before g, Does (apds9960Gesture ⟨false, false⟩ 1)
      (before ++ ([⟨0, 0, 0, 0⟩, ⟨0, 0, 0, 0⟩].map sampleAccess ++ sleepAccesses)) g := by
  have hrun : run handUp (apds9960Gesture ⟨false, false⟩ 1) 0 = some (_, .dirUp) := rfl
  have hawait : run handUp (awaitFifo ⟨false, false⟩ 1) 0 = some (_, .noActivity, 2) := rfl
  obtain ⟨hends, hsafe⟩ := gesture_safe ⟨false, false⟩ 1
  obtain ⟨hsamples, -, hdir⟩ := hsafe _ _ (does_of_run hrun)
  exact ⟨⟨_, does_of_run hrun, hsamples, hdir (Or.inl rfl)⟩,
    ⟨_, hends _ _ _ (does_of_run hawait) [⟨0, 0, 0, 0⟩, ⟨0, 0, 0, 0⟩] rfl⟩⟩

end MyLibraries.Apds9960
