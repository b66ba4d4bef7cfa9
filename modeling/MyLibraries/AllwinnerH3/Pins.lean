import Mathlib.Data.Nat.Find
import MyLibraries.AllwinnerH3.Model

/-!
# What `GPIO_Init` does to the pins

A register holds eight pins in fields of four bits, of which three are used. The loop shifts
by the number of the pin and not by four times that, so the three bits it writes for a pin
lie across the fields of the first three pins of the register. A bit ends up with what the
highest pin that reaches it has put there (`getLsbD_gpioInit`), and the call is right exactly
when all these bits happen to be the right ones (`gpioInit_pins_iff`).
-/

namespace MyLibraries.AllwinnerH3

/-- The register `CFGn`. -/
def Gpio.cfg (s : Gpio) : Nat → BitVec 32
  | 0 => s.cfg0
  | 1 => s.cfg1
  | _ => s.cfg2

/-- The place of the bit `k` of a pin in its register. -/
def place (i k : Nat) : Nat := 4 * (i % 8) + k

/-- What a pin is configured for. -/
def config (s : Gpio) (i : Nat) : BitVec 32 := s.cfg (i / 8) >>> place i 0 &&& 7#32

/-- What a call is for: the pins of the set have the function, the others keep theirs. -/
def Local (s : Gpio) (pins : BitVec 32) (func : Func) (s' : Gpio) : Prop :=
  ∀ i < gpioPinMax, config s' i = if pins.getLsbD i then func.toBits else config s i

/-- The three bits from `i % 8` on reach the bit `b` of the register `n`, for a pin of the set. -/
structure Reaches (pins : BitVec 32) (n b i : Nat) : Prop where
  pin : i < gpioPinMax
  mem : pins.getLsbD i = true
  reg : i / 8 = n
  low : i % 8 ≤ b
  high : b < i % 8 + 3

/-- The highest pin of the set that reaches the bit `b` of the register `n`. -/
structure Last (pins : BitVec 32) (n b p : Nat) : Prop where
  reaches : Reaches pins n b p
  highest : ∀ i, Reaches pins n b i → i ≤ p

/-- What the bits of a pin have to be. -/
def wanted (s : Gpio) (pins : BitVec 32) (func : Func) (i k : Nat) : Bool :=
  if pins.getLsbD i then func.toBits.getLsbD k else (s.cfg (i / 8)).getLsbD (place i k)

/-- The bits that a pin of the set reaches get what they have to be by accident, and those of
the set that none reaches have been right before. -/
structure Fits (s : Gpio) (pins : BitVec 32) (func : Func) : Prop where
  reached : ∀ i < gpioPinMax, ∀ k < 3, ∀ p, Last pins (i / 8) (place i k) p →
    func.toBits.getLsbD (place i k - p % 8) = wanted s pins func i k
  missed : ∀ i < gpioPinMax, pins.getLsbD i = true → ∀ k < 3,
    (∀ p, ¬ Reaches pins (i / 8) (place i k) p) →
      (s.cfg (i / 8)).getLsbD (place i k) = func.toBits.getLsbD k

variable {s : Gpio} {pins : BitVec 32} {func : Func} {n b i m p : Nat}

/-! ## One pin -/

/-- The bits that the body of the loop writes to a register. -/
def put (func : Func) (i : Nat) (r : BitVec 32) : BitVec 32 :=
  r &&& ~~~(7#32 <<< i) ||| func.toBits <<< i

theorem getLsbD_seven (k : Nat) : (7#32).getLsbD k = decide (k < 3) := by
  have hseven : Nat.testBit 7 k = decide (k < 3) := Nat.testBit_two_pow_sub_one 3 k
  rw [BitVec.getLsbD_ofNat, hseven]
  by_cases hk : k < 3
  · rw [decide_eq_true hk, decide_eq_true (by omega : k < 32), Bool.true_and]
  · rw [decide_eq_false hk, Bool.and_false]

theorem toBits_low (func : Func) : func.toBits &&& 7#32 = func.toBits := by
  cases func <;> rfl

theorem getLsbD_put (func : Func) (i : Nat) (r : BitVec 32) (hb : b < 32) :
    (put func i r).getLsbD b =
      if i ≤ b ∧ b < i + 3 then func.toBits.getLsbD (b - i) else r.getLsbD b := by
  rw [put, BitVec.getLsbD_or, BitVec.getLsbD_and, BitVec.getLsbD_not, BitVec.getLsbD_shiftLeft,
    BitVec.getLsbD_shiftLeft, ← toBits_low, BitVec.getLsbD_and, getLsbD_seven,
    decide_eq_true hb]
  by_cases hlow : i ≤ b
  · by_cases hhigh : b < i + 3
    · have hoff : b - i < 3 := by omega
      rw [if_pos ⟨hlow, hhigh⟩]
      simp [Nat.not_lt.mpr hlow, hoff]
    · have hoff : ¬ b - i < 3 := by omega
      rw [if_neg fun h => hhigh h.2]
      simp [hoff]
  · rw [if_neg fun h => hlow h.1]
    simp [Nat.not_le.mp hlow]

theorem and_bit_ne_zero_iff (hi : i < 32) : pins &&& 1#32 <<< i ≠ 0#32 ↔ pins.getLsbD i = true := by
  have hbit (k : Nat) : (pins &&& 1#32 <<< i).getLsbD k = (pins.getLsbD i && decide (k = i)) := by
    rw [BitVec.getLsbD_and, BitVec.getLsbD_shiftLeft, BitVec.getLsbD_one]
    by_cases hk : k = i
    · subst hk
      simp [hi]
    · by_cases hlt : k < i
      · simp [hk, hlt]
      · have hoff : k - i ≠ 0 := by omega
        simp [hk, hoff]
  constructor
  · intro hne
    by_contra hclear
    refine hne (BitVec.eq_of_getLsbD_eq fun k _ => ?_)
    rw [hbit, Bool.eq_false_iff.mpr hclear]
    simp
  · intro hset heq
    have hone := hbit i
    rw [heq, hset] at hone
    simp at hone

/-- A pin of the set puts its bits into the register it belongs to. -/
theorem cfg_initPin (hi : i < gpioPinMax) (hn : n < 3) :
    (initPin pins func s i).cfg n =
      if pins.getLsbD i = true ∧ i / 8 = n then put func (i % 8) (s.cfg n) else s.cfg n := by
  have h32 : i < 32 := Nat.lt_trans hi (by decide)
  rw [gpioPinMax] at hi
  unfold initPin
  by_cases hset : pins.getLsbD i = true
  · rw [if_pos ((and_bit_ne_zero_iff h32).mpr hset)]
    rcases (by omega : i ≤ 7 ∨ (¬ i ≤ 7 ∧ i ≤ 15) ∨ (¬ i ≤ 7 ∧ ¬ i ≤ 15)) with
      h0 | ⟨h0, h1⟩ | ⟨h0, h1⟩
    · have hplace : i / 8 = 0 ∧ i % 8 = i := by omega
      rw [if_pos h0, hplace.1, hplace.2]
      rcases n with _ | _ | n <;> simp [hset, Gpio.cfg, put]
    · have hplace : i / 8 = 1 ∧ i % 8 = i - 8 := by omega
      rw [if_neg h0, if_pos h1, hplace.1, hplace.2]
      rcases n with _ | _ | n <;> simp [hset, Gpio.cfg, put]
    · have hplace : i / 8 = 2 ∧ i % 8 = i - 16 := by omega
      rw [if_neg h0, if_neg h1, hplace.1, hplace.2]
      rcases n with _ | _ | n
      · simp [Gpio.cfg]
      · simp [Gpio.cfg]
      · have hzero : n = 0 := by omega
        simp [hset, hzero, Gpio.cfg, put]
  · rw [if_neg (mt (and_bit_ne_zero_iff h32).mp hset), if_neg fun h => hset h.1]

theorem initPin_reached (h : Reaches pins n b i) (hb : b < 32) :
    ((initPin pins func s i).cfg n).getLsbD b = func.toBits.getLsbD (b - i % 8) := by
  have hn : n < 3 := by
    have hpin := h.pin
    have hreg := h.reg
    rw [gpioPinMax] at hpin
    omega
  rw [cfg_initPin h.pin hn, if_pos ⟨h.mem, h.reg⟩, getLsbD_put _ _ _ hb, if_pos ⟨h.low, h.high⟩]

theorem initPin_missed (h : ¬ Reaches pins n b i) (hi : i < gpioPinMax) (hn : n < 3)
    (hb : b < 32) :
    ((initPin pins func s i).cfg n).getLsbD b = (s.cfg n).getLsbD b := by
  rw [cfg_initPin hi hn]
  split
  · rename_i hreg
    rw [getLsbD_put _ _ _ hb, if_neg fun hin => h ⟨hi, hreg.1, hreg.2, hin.1, hin.2⟩]
  · rfl

/-! ## The loop -/

theorem loop_missed (hm : m ≤ gpioPinMax) (hn : n < 3) (hb : b < 32)
    (h : ∀ i < m, ¬ Reaches pins n b i) :
    (((List.range m).foldl (initPin pins func) s).cfg n).getLsbD b = (s.cfg n).getLsbD b := by
  induction m with
  | zero => rfl
  | succ m ih =>
      rw [List.range_succ, List.foldl_append, List.foldl_cons, List.foldl_nil,
        initPin_missed (h m (Nat.lt_succ_self m)) hm hn hb]
      exact ih (Nat.le_of_succ_le hm) fun i hi => h i (Nat.lt_succ_of_lt hi)

/-- Later pins overwrite what earlier ones have put into a bit. -/
theorem loop_reached (hm : m ≤ gpioPinMax) (hn : n < 3) (hb : b < 32) (hp : p < m)
    (h : Last pins n b p) :
    (((List.range m).foldl (initPin pins func) s).cfg n).getLsbD b =
      func.toBits.getLsbD (b - p % 8) := by
  induction m with
  | zero => exact absurd hp (Nat.not_lt_zero p)
  | succ m ih =>
      rw [List.range_succ, List.foldl_append, List.foldl_cons, List.foldl_nil]
      by_cases hlast : p = m
      · subst hlast
        exact initPin_reached h.reaches hb
      · have hlater : ¬ Reaches pins n b m := fun hreach => by
          have hle := h.highest m hreach
          omega
        rw [initPin_missed hlater hm hn hb]
        exact ih (Nat.le_of_succ_le hm) (by omega)

/-- A bit that is reached at all is reached last by some pin. -/
theorem exists_last (h : Reaches pins n b i) : ∃ p, Last pins n b p := by
  classical
  have hspec := Nat.findGreatest_spec (P := Reaches pins n b) (Nat.le_of_lt h.pin) h
  exact ⟨_, hspec, fun j hj => Nat.le_findGreatest (Nat.le_of_lt hj.pin) hj⟩

/-- What a bit of a register is after the call. -/
theorem getLsbD_gpioInit (s : Gpio) (pins : BitVec 32) (func : Func) (hn : n < 3) (hb : b < 32) :
    (∀ p, Last pins n b p →
      ((gpioInit s pins func).cfg n).getLsbD b = func.toBits.getLsbD (b - p % 8)) ∧
    ((∀ p, ¬ Reaches pins n b p) →
      ((gpioInit s pins func).cfg n).getLsbD b = (s.cfg n).getLsbD b) :=
  ⟨fun _ hp => loop_reached (Nat.le_refl _) hn hb hp.reaches.pin hp,
    fun hnone => loop_missed (Nat.le_refl _) hn hb fun i _ => hnone i⟩

/-! ## The fields of the pins -/

theorem place_lt (i : Nat) {k : Nat} (hk : k < 3) : place i k < 32 := by
  rw [place]
  omega

theorem reg_lt (hi : i < gpioPinMax) : i / 8 < 3 := by
  rw [gpioPinMax] at hi
  omega

/-- Three bits are compared one by one. -/
theorem field_eq_iff (i : Nat) (x : BitVec 32) {y : BitVec 32} (hy : y &&& 7#32 = y) :
    x >>> place i 0 &&& 7#32 = y ↔ ∀ k < 3, x.getLsbD (place i k) = y.getLsbD k := by
  have hbit {k : Nat} (hk : k < 3) :
      (x >>> place i 0 &&& 7#32).getLsbD k = x.getLsbD (place i k) := by
    rw [BitVec.getLsbD_and, BitVec.getLsbD_ushiftRight, getLsbD_seven, decide_eq_true hk,
      Bool.and_true, place, place, Nat.add_zero]
  constructor
  · intro heq k hk
    rw [← heq, hbit hk]
  · intro hall
    apply BitVec.eq_of_getLsbD_eq
    intro k _
    by_cases hk : k < 3
    · rw [hbit hk, hall k hk]
    · rw [← hy, BitVec.getLsbD_and, BitVec.getLsbD_and, getLsbD_seven, decide_eq_false hk,
        Bool.and_false, Bool.and_false]

theorem config_low (s : Gpio) (i : Nat) : config s i &&& 7#32 = config s i := by
  rw [config, BitVec.and_assoc, BitVec.and_self]

theorem local_iff_bits (s s' : Gpio) (pins : BitVec 32) (func : Func) :
    Local s pins func s' ↔ ∀ i < gpioPinMax, ∀ k < 3,
      (s'.cfg (i / 8)).getLsbD (place i k) = wanted s pins func i k := by
  refine forall₂_congr fun i _ => ?_
  unfold wanted
  by_cases hset : pins.getLsbD i = true
  · simp only [if_pos hset]
    exact field_eq_iff i _ (toBits_low func)
  · simp only [if_neg hset]
    have hold := (field_eq_iff i (s.cfg (i / 8)) (config_low s i)).mp rfl
    rw [config, field_eq_iff i _ (config_low s i)]
    exact forall₂_congr fun k hk => by rw [hold k hk]

/-- **When `GPIO_Init` sets up the pins of the set and no others.** -/
theorem gpioInit_pins_iff (s : Gpio) (pins : BitVec 32) (func : Func) :
    Local s pins func (gpioInit s pins func) ↔ Fits s pins func := by
  rw [local_iff_bits]
  constructor
  · intro hall
    constructor
    · intro i hi k hk p hp
      have hbits := getLsbD_gpioInit s pins func (reg_lt hi) (place_lt i hk)
      rw [← hbits.1 p hp]
      exact hall i hi k hk
    · intro i hi hset k hk hnone
      have hbits := getLsbD_gpioInit s pins func (reg_lt hi) (place_lt i hk)
      rw [← hbits.2 hnone, hall i hi k hk, wanted, if_pos hset]
  · intro hfits i hi k hk
    have hbits := getLsbD_gpioInit s pins func (reg_lt hi) (place_lt i hk)
    by_cases hreach : ∃ p, Reaches pins (i / 8) (place i k) p
    · obtain ⟨j, hj⟩ := hreach
      obtain ⟨p, hp⟩ := exists_last hj
      rw [hbits.1 p hp]
      exact hfits.reached i hi k hk p hp
    · have hnone : ∀ p, ¬ Reaches pins (i / 8) (place i k) p := not_exists.mp hreach
      rw [hbits.2 hnone, wanted]
      split
      · rename_i hset
        exact hfits.missed i hi hset k hk hnone
      · rfl

/-- Pin 1 as an output, in a port that is all zeros: its field stays as it is, and pin 0
has another function. -/
theorem gpioInit_pin_one :
    let s : Gpio := ⟨0, 0, 0, 0, 0, 0, 0, 0, 0⟩
    let s' := gpioInit s 2#32 .output
    (config s' 1 = Func.input.toBits ∧ config s' 0 = Func.fucn1.toBits) ∧
      ¬ ∀ s pins func, Local s pins func (gpioInit s pins func) := by
  intro s s'
  have hfields : config s' 1 = Func.input.toBits ∧ config s' 0 = Func.fucn1.toBits := by decide
  refine ⟨hfields, fun hall => ?_⟩
  have hone : config s' 1 = Func.output.toBits := hall s 2#32 .output 1 (by decide)
  rw [hfields.1] at hone
  exact absurd hone (by decide)

/-! ## Which sets fit -/

/-- The first pin of a register is the only one that is written to its field. -/
theorem fits_first (s : Gpio) (func : Func)
    (h : ∀ i < gpioPinMax, pins.getLsbD i = true → i % 8 = 0) : Fits s pins func := by
  constructor
  · intro i hi k hk p hp
    have hfirst := h p hp.reaches.pin hp.reaches.mem
    have hhigh := hp.reaches.high
    have hreg := hp.reaches.reg
    rw [place] at hhigh
    obtain rfl : p = i := by omega
    rw [wanted, if_pos hp.reaches.mem, place, hfirst, Nat.mul_zero, Nat.zero_add, Nat.sub_zero]
  · intro i hi hset k hk hnone
    have hfirst := h i hi hset
    refine absurd ⟨hi, hset, rfl, ?_, ?_⟩ (hnone i) <;> rw [place] <;> omega

/-- From the fourth pin of a register on, no field is ever written. -/
theorem config_of_fits (hfits : Fits s pins func) (hi : i < gpioPinMax)
    (hset : pins.getLsbD i = true) (hhigh : 3 ≤ i % 8) : config s i = func.toBits := by
  refine (field_eq_iff i _ (toBits_low func)).mpr fun k hk => ?_
  refine hfits.missed i hi hset k hk fun p hp => ?_
  have hreach := hp.high
  rw [place] at hreach
  omega

end MyLibraries.AllwinnerH3
