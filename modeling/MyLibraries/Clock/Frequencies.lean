import MyLibraries.Clock.Model
import MyLibraries.Core.Run

/-!
# The frequencies behind `EnablePLL`

`EnablePLL` computes the frequency of the CPU as crystal times multiplier, whatever the
input of the PLL is; `Update` reads the input and the multiplier from `CFGR`, where
multipliers below four read as one. After any calls `EnablePLL` ends with the PLL selected
and its multiplier in `CFGR` (`enablePll_spec`), so the two agree, with the true output of
the PLL, exactly as `enablePll_correct_iff` says. The bit `PLLSRC`, which `EnablePLL` does
not clear for the internal oscillator, makes no difference there: the frequency of the
crystal has to be half of the internal one in any case.
-/

namespace MyLibraries.Clock

open BitField Run

/-- What the PLL makes of its input, in Hz. -/
def pllOutput (s : State) (mult : Nat) : Nat :=
  if s.currentSource = .hseClock then s.hseFreq.toNat * mult else 8000000 / 2 * mult

/-- The sources that the calls leave. -/
def Settled (s : State) : Prop :=
  s.currentSource = .hsiClock ∨ s.currentSource = .hseClock ∨ s.currentSource = .pllClock

variable {s s' : State} {rcc : Rcc} {v m : BitVec 32} {mult : UInt8} {source : ClockSource}

/-! ## Writing the registers -/

/-- A write of `CFGR` shows in every field but that of the clock in use. -/
theorem writeCfgr_and (h : cfgrSws &&& m = 0#32) :
    (rcc.writeCfgr v).cfgr &&& m = v &&& m := mirror_keeps (by decide) h

theorem writeCfgr_sws : (rcc.writeCfgr v).cfgr &&& cfgrSws = (v &&& cfgrSw) <<< 2 :=
  mirror_and cfgrSw (by decide) (by decide)

/-- An oscillator that is on is ready. -/
theorem writeCr_ready (on : BitVec 32) {ready : BitVec 32}
    (hpart : (crHsion ||| crHseon ||| crPllon) &&& on = on)
    (hready : on <<< 1 = ready) (hne : ready ≠ 0) (hv : v &&& on = on) :
    (rcc.writeCr v).cr &&& ready ≠ 0 := by
  rw [← hready]
  show mirror _ _ 1 v &&& on <<< 1 ≠ 0
  rw [mirror_and on (by decide) hpart, hv, hready]
  exact hne

/-- The switch ends, and leaves the fields but the selection alone. -/
theorem switchTo_spec (sw sws : BitVec 32) (hsw : sw &&& cfgrSw = sw) (hsws : sw <<< 2 = sws)
    (s : State) (source : ClockSource) :
    ∃ s', switchTo s sw sws source = some s' ∧ s'.currentSource = source ∧
      s'.hseFreq = s.hseFreq ∧ s'.rcc.cfgr &&& cfgrSws = sws ∧
      ∀ m, (cfgrSw ||| cfgrSws) &&& m = 0#32 → s'.rcc.cfgr &&& m = s.rcc.cfgr &&& m := by
  have hshown : ((s.rcc.writeCfgr (s.rcc.cfgr &&& ~~~cfgrSw)).writeCfgr
      ((s.rcc.writeCfgr (s.rcc.cfgr &&& ~~~cfgrSw)).cfgr ||| sw)).cfgr &&& cfgrSws = sws := by
    have hclear : (s.rcc.cfgr &&& ~~~cfgrSw) &&& cfgrSw = 0#32 := by
      rw [BitVec.and_assoc]
      exact BitVec.and_zero
    rw [writeCfgr_sws, BitVec.and_or_distrib_right, writeCfgr_and (by decide), hclear, hsw,
      BitVec.zero_or, hsws]
  refine ⟨_, if_pos hshown, rfl, rfl, hshown, fun m hm => ?_⟩
  rw [BitVec.and_or_distrib_right] at hm
  obtain ⟨hm₁, hm₂⟩ := BitVec.or_eq_zero_iff.mp hm
  have hset : sw &&& m = 0#32 := by
    rw [← hsw, BitVec.and_assoc, hm₁, BitVec.and_zero]
  show ((s.rcc.writeCfgr _).writeCfgr _).cfgr &&& m = _
  rw [writeCfgr_and hm₂, set_and hset, writeCfgr_and hm₂, clear_and hm₁]

/-! ## The calls -/

theorem runFromHsi_spec (s : State) :
    ∃ s', runFromHsi s = some s' ∧ s'.currentSource = .hsiClock := by
  have hready : waitReady { s with rcc := s.rcc.writeCr (s.rcc.cr ||| crHsion) } crHsirdy =
      some _ :=
    if_pos (writeCr_ready crHsion (by decide) rfl (by decide) (set_all (by decide)))
  obtain ⟨s', hs', hsource, -⟩ := switchTo_spec cfgrSwHsi cfgrSwsHsi
    (by decide) (by decide) { s with rcc := s.rcc.writeCr (s.rcc.cr ||| crHsion) } .hsiClock
  refine ⟨s', ?_, hsource⟩
  simp only [runFromHsi, hready, Option.bind_eq_bind, Option.bind_some, hs']

theorem runFromHse_spec (s : State) (crystalFreqHz : UInt32) :
    ∃ s', runFromHse s crystalFreqHz = some s' ∧ s'.currentSource = .hseClock := by
  have hready : waitReady { s with
      rcc := s.rcc.writeCr (s.rcc.cr ||| (crCsson ||| crHseon)), hseFreq := crystalFreqHz }
      crHserdy = some _ :=
    if_pos (writeCr_ready crHseon (by decide) rfl (by decide) (set_all (by decide)))
  obtain ⟨s', hs', hsource, -⟩ := switchTo_spec cfgrSwHse cfgrSwsHse
    (by decide) (by decide) { s with
      rcc := s.rcc.writeCr (s.rcc.cr ||| (crCsson ||| crHseon)), hseFreq := crystalFreqHz }
    .hseClock
  refine ⟨s', ?_, hsource⟩
  simp only [runFromHse, hready, Option.bind_eq_bind, Option.bind_some, hs']

/-- The input of the PLL is the crystal when the system runs from it. -/
theorem selectInput_spec (rcc : Rcc) (h : source = .hsiClock ∨ source = .hseClock) :
    ∃ rcc', selectInput rcc source = some rcc' ∧
      (source = .hseClock → rcc'.cfgr &&& cfgrPllsrc = cfgrPllsrc) := by
  rcases h with rfl | rfl
  · exact ⟨_, rfl, fun h => by cases h⟩
  · refine ⟨_, rfl, fun _ => ?_⟩
    rw [writeCfgr_and (by decide)]
    exact set_all (by decide)

/-- **`EnablePLL`** from one of the oscillators ends with the PLL in use and its multiplier
in `CFGR`. -/
theorem enablePll_spec (h2 : 2 ≤ mult.toNat) (h16 : mult.toNat ≤ 16)
    (hsource : s.currentSource = .hsiClock ∨ s.currentSource = .hseClock) :
    ∃ s', enablePll s mult = some s' ∧ s'.currentSource = .pllClock ∧ s'.hseFreq = s.hseFreq ∧
      s'.freqs = divide s'.rcc (s.hseFreq * mult.toUInt32) ∧
      s'.rcc.cfgr &&& cfgrSws = cfgrSwsPll ∧
      s'.rcc.cfgr &&& cfgrPllmull = BitVec.ofNat 32 (mult.toNat - 2) <<< 18 ∧
      (s.currentSource = .hseClock → s'.rcc.cfgr &&& cfgrPllsrc = cfgrPllsrc) := by
  obtain ⟨rcc₁, hselect, hinput⟩ := selectInput_spec s.rcc hsource
  have hvalid : ¬(mult < 2 ∨ mult > 16) := by
    rw [UInt8.lt_iff_toNat_lt, gt_iff_lt, UInt8.lt_iff_toNat_lt]
    show ¬(mult.toNat < 2 ∨ 16 < mult.toNat)
    omega
  have hfield : BitVec.ofNat 32 (mult.toNat - 2) <<< 18 &&& cfgrPllmull =
      BitVec.ofNat 32 (mult.toNat - 2) <<< 18 := by
    obtain ⟨k, hk, hk14⟩ : ∃ k, mult.toNat - 2 = k ∧ k ≤ 14 := ⟨_, rfl, by omega⟩
    rw [hk]
    clear hk
    revert k
    decide
  let rcc₂ := rcc₁.writeCfgr (rcc₁.cfgr &&& ~~~cfgrPllmull)
  let rcc₃ := rcc₂.writeCfgr (rcc₂.cfgr ||| BitVec.ofNat 32 (mult.toNat - 2) <<< 18)
  have hmul : rcc₃.cfgr &&& cfgrPllmull = BitVec.ofNat 32 (mult.toNat - 2) <<< 18 := by
    have hclear : rcc₂.cfgr &&& cfgrPllmull = 0#32 := by
      rw [writeCfgr_and (by decide), BitVec.and_assoc]
      exact BitVec.and_zero
    rw [writeCfgr_and (by decide), BitVec.and_or_distrib_right, hclear, hfield, BitVec.zero_or]
  have hsrc : rcc₃.cfgr &&& cfgrPllsrc = rcc₁.cfgr &&& cfgrPllsrc := by
    have hset : BitVec.ofNat 32 (mult.toNat - 2) <<< 18 &&& cfgrPllsrc = 0#32 := by
      rw [← hfield, BitVec.and_assoc]
      exact BitVec.and_zero
    rw [writeCfgr_and (by decide), set_and hset, writeCfgr_and (by decide),
      clear_and (by decide)]
  have hready : waitReady { s with rcc := rcc₃.writeCr (rcc₃.cr ||| (crCsson ||| crPllon)) }
      crPllrdy = some _ :=
    if_pos (writeCr_ready crPllon (by decide) rfl (by decide) (set_all (by decide)))
  obtain ⟨s₄, hswitch, hsource₄, hhse, hsws, hkeep⟩ := switchTo_spec cfgrSwPll cfgrSwsPll
    (by decide) (by decide)
    { s with rcc := rcc₃.writeCr (rcc₃.cr ||| (crCsson ||| crPllon)) } .pllClock
  refine ⟨{ s₄ with freqs := divide s₄.rcc (s₄.hseFreq * mult.toUInt32) }, ?_, hsource₄, hhse, ?_,
    hsws, (hkeep _ (by decide)).trans hmul, fun h => ?_⟩
  · rw [enablePll, if_neg hvalid, hselect]
    simp only [rcc₃, rcc₂] at hready hswitch
    simp only [hready, Option.bind_eq_bind, Option.bind_some, hswitch]
  · show divide s₄.rcc (s₄.hseFreq * _) = _
    rw [hhse]
  · exact (hkeep _ (by decide)).trans (hsrc.trans (hinput h))

/-! ## Reading back -/

/-- The multiplier that is read back. -/
theorem getPllMult_eq {k : Nat} (hk : k ≤ 14)
    (h : rcc.cfgr &&& cfgrPllmull = BitVec.ofNat 32 k <<< 18) :
    (getPllMult rcc).toNat = if 2 ≤ k then k + 2 else 1 := by
  unfold getPllMult Rcc.field
  rw [h]
  clear h
  revert k
  decide

/-- With the PLL in use, `Update` multiplies the input that `PLLSRC` says. -/
theorem update_pll (h : s.rcc.cfgr &&& cfgrSws = cfgrSwsPll) :
    update s = divide s.rcc (if getPllSource s.rcc = .hsiClock
      then hsiClockFreq / 2 * (getPllMult s.rcc).toUInt32
      else s.hseFreq * (getPllMult s.rcc).toUInt32) := by
  have hsource : getClockSource s.rcc = .pllClock := by
    unfold getClockSource
    rw [h]
    rfl
  rw [update, hsource]

theorem divide_inj {a b : UInt32} : divide rcc a = divide rcc b ↔ a = b :=
  ⟨fun h => congrArg Freqs.cpuFreqHz h, fun h => h ▸ rfl⟩

theorem toNat_mul {a : UInt32} {b : UInt8} (h : a.toNat * b.toNat < 2 ^ 32) :
    (a * b.toUInt32).toNat = a.toNat * b.toNat := by
  rw [UInt32.toNat_mul, UInt8.toNat_toUInt32, Nat.mod_eq_of_lt h]

/-- What `Update` makes of the multiplier is at most what `EnablePLL` does. -/
theorem getPllMult_toNat (h2 : 2 ≤ mult.toNat) (h16 : mult.toNat ≤ 16)
    (h : rcc.cfgr &&& cfgrPllmull = BitVec.ofNat 32 (mult.toNat - 2) <<< 18) :
    (getPllMult rcc).toNat = if 4 ≤ mult.toNat then mult.toNat else 1 := by
  rw [getPllMult_eq (by omega) h]
  split <;> split <;> omega

/-- Multiplying by what is read back makes a difference for small multipliers. -/
theorem mul_readBack_iff {a m n : Nat} (h2 : 2 ≤ m) (hn : n = if 4 ≤ m then m else 1) :
    a * m = a * n ↔ 4 ≤ m ∨ a = 0 := by
  rw [hn]
  split
  · rename_i h4
    exact ⟨fun _ => Or.inl h4, fun _ => rfl⟩
  · rename_i h4
    obtain rfl | rfl : m = 2 ∨ m = 3 := by omega
    · omega
    · omega

/-! ## After any calls -/

/-- On the internal oscillator, whichever of the two inputs the product read back is made of. -/
theorem mul_readBack_internal {a m n r : Nat} (h2 : 2 ≤ m) (hn : n = if 4 ≤ m then m else 1)
    (hr : r = 4000000 * n ∨ r = a * n) : a * m = r ∧ a = 4000000 ↔ 4 ≤ m ∧ a = 4000000 := by
  refine and_congr_left fun ha => ?_
  have hread : r = 4000000 * n := by
    rcases hr with hr | hr
    · exact hr
    · rw [hr, ha]
  rw [hread, ha, mul_readBack_iff h2 hn]
  exact or_iff_left (by decide)

theorem Settled.oscillator (h : Settled s) (hne : s.currentSource ≠ .pllClock) :
    s.currentSource = .hsiClock ∨ s.currentSource = .hseClock := by
  rcases h with h | h | h
  · exact Or.inl h
  · exact Or.inr h
  · exact absurd h hne

theorem step_settled (s : State) (op : Op) (h : Settled s) :
    ∃ r s', step s op = some (r, s') ∧ Settled s' := by
  cases op with
  | runFromHsi =>
    obtain ⟨s', hs', hsource⟩ := runFromHsi_spec s
    exact ⟨(), s', by rw [step, hs', Option.map_some], Or.inl hsource⟩
  | runFromHse crystalFreqHz =>
    obtain ⟨s', hs', hsource⟩ := runFromHse_spec s crystalFreqHz
    exact ⟨(), s', by rw [step, hs', Option.map_some], Or.inr (Or.inl hsource)⟩
  | setPrescalers hpre ppre1 ppre2 => exact ⟨(), _, rfl, h⟩
  | enablePll mult =>
    by_cases hvalid : mult < 2 ∨ mult > 16
    · exact ⟨(), s, by rw [step, enablePll, if_pos hvalid, Option.map_some], h⟩
    · rw [UInt8.lt_iff_toNat_lt, gt_iff_lt, UInt8.lt_iff_toNat_lt] at hvalid
      have hrange : ¬(mult.toNat < 2 ∨ 16 < mult.toNat) := hvalid
      by_cases hsource : s.currentSource = .pllClock
      · refine ⟨(), s, ?_, h⟩
        rw [step, enablePll, hsource]
        split <;> rfl
      · obtain ⟨s', hs', hpll, -⟩ := @enablePll_spec s mult (by omega) (by omega)
          (h.oscillator hsource)
        exact ⟨(), s', by rw [step, hs', Option.map_some], Or.inr (Or.inr hpll)⟩

/-- **One `EnablePLL`** from an oscillator. -/
theorem enablePll_correct (h2 : 2 ≤ mult.toNat) (h16 : mult.toNat ≤ 16)
    (hsource : s.currentSource = .hsiClock ∨ s.currentSource = .hseClock)
    (hover : s.hseFreq.toNat * mult.toNat < 2 ^ 32) :
    ∃ s', enablePll s mult = some s' ∧ s'.currentSource = .pllClock ∧
      ((s'.freqs = update s' ∧ s'.freqs.cpuFreqHz.toNat = pllOutput s mult.toNat) ↔
        (s.currentSource = .hseClock ∧ (4 ≤ mult.toNat ∨ s.hseFreq = 0)) ∨
          (s.currentSource = .hsiClock ∧ 4 ≤ mult.toNat ∧ s.hseFreq = 4000000)) := by
  obtain ⟨s', hs', hpll, hhse, hfreqs, hsws, hmul, hsrc⟩ := enablePll_spec h2 h16 hsource
  refine ⟨s', hs', hpll, ?_⟩
  have hn := getPllMult_toNat h2 h16 hmul
  have hle : (getPllMult s'.rcc).toNat ≤ mult.toNat := by
    rw [hn]
    split <;> omega
  have hcached : (s.hseFreq * mult.toUInt32).toNat = s.hseFreq.toNat * mult.toNat :=
    toNat_mul hover
  have hcrystal : (s.hseFreq * (getPllMult s'.rcc).toUInt32).toNat =
      s.hseFreq.toNat * (getPllMult s'.rcc).toNat :=
    toNat_mul (Nat.lt_of_le_of_lt (Nat.mul_le_mul_left _ hle) hover)
  have hinternal : (hsiClockFreq / 2 * (getPllMult s'.rcc).toUInt32).toNat =
      4000000 * (getPllMult s'.rcc).toNat := by
    rw [toNat_mul]
    · rfl
    · show 4000000 * (getPllMult s'.rcc).toNat < 2 ^ 32
      omega
  have hzero : s.hseFreq = 0 ↔ s.hseFreq.toNat = 0 := UInt32.toNat_inj.symm
  have hhalf : s.hseFreq = 4000000 ↔ s.hseFreq.toNat = 4000000 := UInt32.toNat_inj.symm
  have hcpu : s'.freqs.cpuFreqHz = s.hseFreq * mult.toUInt32 := by rw [hfreqs, divide]
  rw [update_pll hsws, hfreqs, divide_inj, hhse, ← hfreqs, hcpu, hcached, hzero, hhalf]
  rcases hsource with hsource | hsource
  · have hout : pllOutput s mult.toNat = 4000000 * mult.toNat := by
      rw [pllOutput, hsource]
      rfl
    have hcancel : s.hseFreq.toNat * mult.toNat = 4000000 * mult.toNat ↔
        s.hseFreq.toNat = 4000000 := Nat.mul_left_inj (by omega)
    rw [hsource, hout, hcancel, ← UInt32.toNat_inj, hcached]
    simp only [reduceCtorEq, false_and, true_and, false_or]
    refine mul_readBack_internal h2 hn ?_
    split
    · exact Or.inl hinternal
    · exact Or.inr hcrystal
  · have hout : pllOutput s mult.toNat = s.hseFreq.toNat * mult.toNat := by
      rw [pllOutput, if_pos hsource]
    have hselected : getPllSource s'.rcc ≠ .hsiClock := by
      unfold getPllSource
      rw [hsrc hsource, if_pos (by decide)]
      decide
    rw [hsource, hout, if_neg hselected, ← UInt32.toNat_inj, hcached, hcrystal,
      mul_readBack_iff h2 hn]
    simp

/-- **When the cached frequencies are right.** After any calls, with any prescalers, every
`EnablePLL` that switches to the PLL ends, and what it caches agrees with `Update` and with
the true output of the PLL exactly in these cases. -/
theorem enablePll_correct_iff (rcc : Rcc) (ops : List Op) :
    ∃ rs s, run step (start rcc) ops = some (rs, s) ∧
      ∀ mult : UInt8, 2 ≤ mult.toNat → mult.toNat ≤ 16 → s.currentSource ≠ .pllClock →
        s.hseFreq.toNat * mult.toNat < 2 ^ 32 →
        ∃ s', enablePll s mult = some s' ∧ s'.currentSource = .pllClock ∧
          ((s'.freqs = update s' ∧ s'.freqs.cpuFreqHz.toNat = pllOutput s mult.toNat) ↔
            (s.currentSource = .hseClock ∧ (4 ≤ mult.toNat ∨ s.hseFreq = 0)) ∨
              (s.currentSource = .hsiClock ∧ 4 ≤ mult.toNat ∧ s.hseFreq = 4000000)) := by
  have hstart : Settled (start rcc) := Or.inl rfl
  obtain ⟨rs, s, hrun, hs⟩ : ∃ rs s, run step (start rcc) ops = some (rs, s) ∧ Settled s :=
    run_exists step_settled hstart
  exact ⟨rs, s, hrun, fun mult h2 h16 hsource hover =>
    enablePll_correct h2 h16 (hs.oscillator hsource) hover⟩

/-- A crystal of 8 MHz, multiplied by nine. -/
theorem enablePll_correct_72mhz : ∃ rs s,
    run step (start ⟨0x83, 0⟩) [.runFromHse 8000000, .setPrescalers 0 4 0] = some (rs, s) ∧
      ∃ s', enablePll s 9 = some s' ∧ s'.freqs = update s' ∧
        s'.freqs.cpuFreqHz.toNat = pllOutput s 9 := by
  obtain ⟨rs, s, hrun, hs⟩ :=
    enablePll_correct_iff ⟨0x83, 0⟩ [.runFromHse 8000000, .setPrescalers 0 4 0]
  refine ⟨rs, s, hrun, ?_⟩
  cases hrun
  obtain ⟨s', hs', -, hiff⟩ := hs 9 (by decide) (by decide) (by decide) (by decide)
  exact ⟨s', hs', hiff.mpr (Or.inl ⟨by decide, by decide⟩)⟩

/-- The same multiplier for the internal oscillator, after a reset. -/
theorem internal_pll_doubled : ∃ s', enablePll (start ⟨0x83, 0⟩) 9 = some s' ∧
    s'.currentSource = .pllClock ∧ s'.freqs.cpuFreqHz = 72000000 ∧
    (update s').cpuFreqHz = 36000000 ∧ pllOutput (start ⟨0x83, 0⟩) 9 = 36000000 ∧
    ¬(s'.freqs = update s' ∧ s'.freqs.cpuFreqHz.toNat = pllOutput (start ⟨0x83, 0⟩) 9) := by
  refine ⟨_, rfl, by decide, by decide, by decide, by decide, ?_⟩
  rintro ⟨-, hcpu⟩
  revert hcpu
  decide

end MyLibraries.Clock
