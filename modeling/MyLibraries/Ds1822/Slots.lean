import MyLibraries.Core.SlotBus
import MyLibraries.Ds1822.Model
import MyLibraries.OneWire.Word

/-!
# The time slots of `1-Wire.c`

The functions of `1-Wire.c` over the macros that drive the pin of the bus and read it, which
are not part of the repository, with one pin for both (`DoubleWire` is not defined). On a bus
whose stations keep the times of `Fits` a slot passes one bit: `writeBit_rests` and
`readBit_rests` are the rules of the single slots, `writeByte_rests` and `readByte_rests` those
of bytes, and `reset_rests` is that of the reset. `understands_iff` says with which times a
station understands the driver.
-/

namespace MyLibraries.Ds1822

open SlotBus

/-- `PIN_OFF`, `PIN_ON`, `PIN_SYG` and `Delay_Func`. -/
structure Pins (β : Type) where
  pinOff : β → β
  pinOn : β → β
  pinSyg : β → Bool
  delayFunc : Nat → β → β

def timePulseDelayLow : Nat := 10

def timePulseDelayHigh : Nat := 40

def timeResetLow : Nat := 500

def timeBeforeReset : Nat := 500

def timeAfterReset : Nat := 350

def timeHoldDown : Nat := 10

section Functions

variable {β : Type} (pins : Pins β)

/-- `One_Wire_Reset`. -/
def oneWireReset (bus : β) : Error × β :=
  let bus := pins.delayFunc timeBeforeReset bus
  let bus := pins.pinOn bus
  if !pins.pinSyg bus then (.busLowError, bus)
  else
    let bus := pins.pinOff bus
    let bus := pins.delayFunc timeResetLow bus
    let bus := pins.pinOn bus
    let bus := pins.delayFunc timePulseDelayHigh bus
    let result := if pins.pinSyg bus then .errorNoEcho else .success
    (result, pins.delayFunc timeAfterReset bus)

/-- `One_Wire_Write_Bit`. -/
def oneWireWriteBit (bit : UInt8) (bus : β) : β :=
  let bus := pins.pinOff bus
  if bit ≠ 0 then
    let bus := pins.delayFunc timePulseDelayLow bus
    let bus := pins.pinOn bus
    pins.delayFunc timePulseDelayHigh bus
  else
    let bus := pins.delayFunc timePulseDelayHigh bus
    let bus := pins.pinOn bus
    pins.delayFunc timePulseDelayLow bus

/-- `One_Wire_Write_Byte`. -/
def oneWireWriteByte (byte : UInt8) (bus : β) : β :=
  (List.range 8).foldl
    (fun bus cnt => oneWireWriteBit pins (byte &&& (1 <<< UInt8.ofNat cnt)) bus) bus

/-- `One_Wire_Read_Bit`. -/
def oneWireReadBit (bus : β) : UInt8 × β :=
  let bus := pins.pinOff bus
  let bus := pins.delayFunc timeHoldDown bus
  let bus := pins.pinOn bus
  let bus := pins.delayFunc timePulseDelayLow bus
  let tmp := if !pins.pinSyg bus then 0 else 1
  (tmp, pins.delayFunc timePulseDelayHigh bus)

/-- The body of the loop of `One_Wire_Read_Byte`. -/
def readStep (acc : UInt8 × β) (cnt : Nat) : UInt8 × β :=
  let (bit, bus) := oneWireReadBit pins acc.2
  (if bit ≠ 0 then acc.1 ||| (1 <<< UInt8.ofNat cnt) else acc.1, bus)

/-- `One_Wire_Read_Byte`. -/
def oneWireReadByte (bus : β) : UInt8 × β :=
  let (tmp, bus) := (List.range 8).foldl (readStep pins) (0, bus)
  (tmp, pins.delayFunc timePulseDelayHigh bus)

end Functions

/-- The pin of a bus with these stations. -/
def busPins {σ : Type} (logic : Logic σ) : Pins (Bus σ) where
  pinOff := Bus.drive logic
  pinOn := Bus.release logic
  pinSyg := Bus.level
  delayFunc := Bus.wait logic

/-- A station looks at the line between the ends of the low of a one and of that of a zero, it
holds a zero until the master has looked but not into the next slot, and it knows the reset
and has answered it in time. -/
structure Fits (t : Timing) : Prop where
  one_le : timePulseDelayLow ≤ t.sample
  lt_zero : t.sample < timePulseDelayHigh
  lt_hold : timeHoldDown + timePulseDelayLow < t.hold
  hold_le : t.hold ≤ timePulseDelayLow + timePulseDelayHigh
  lt_reset : timePulseDelayHigh < t.resetLow
  reset_le : t.resetLow ≤ timeResetLow
  presence_le : t.presenceAfter + t.presenceFor ≤ timePulseDelayHigh + timeAfterReset

/-- The answer of some station is on the line when the master looks for it. -/
def heard (ts : List Timing) : Bool :=
  ts.any fun t => decide (t.presenceAfter ≤ timePulseDelayHigh ∧
    timePulseDelayHigh < t.presenceAfter + t.presenceFor)

section Link

variable {σ : Type} {logic : Logic σ} {ts : List Timing} {bus : Bus σ} {states : List σ}

/-- Between two slots: nobody holds the line low, and the stations are in these states. -/
structure Resting (ts : List Timing) (bus : Bus σ) (states : List σ) : Prop where
  low : bus.low = false
  timings : bus.stations.map Station.timing = ts
  states : bus.stations.map Station.state = states
  fallen : timePulseDelayLow + timePulseDelayHigh ≤ bus.fallen
  answered : ∀ s ∈ bus.stations, s.driving = .presence →
    s.timing.presenceAfter + s.timing.presenceFor ≤ bus.risen

variable (hts : ∀ t ∈ ts, Fits t) (h : Resting ts bus states)
include h

/-- What a slot leaves in which all stations have seen `v`, or do not care. -/
theorem rests_slot {a c : Nat} {v : Bool} (hac : timePulseDelayLow + timePulseDelayHigh ≤ a + c)
    (hseen : ∀ s ∈ bus.stations,
      logic.slot (decide (a ≤ s.timing.sample) && !held logic bus.stations s.timing.sample)
        s.state = logic.slot v s.state) :
    Resting ts ⟨bus.stations.map (Station.slot logic bus.stations a), false, a + c, c⟩
      (states.map (logic.slot v)) := by
  refine ⟨rfl, ?_, ?_, hac, ?_⟩
  · rw [← h.timings, List.map_map]
    rfl
  · rw [← h.states, List.map_map, List.map_map]
    exact List.map_congr_left hseen
  · intro s hs hd
    obtain ⟨s', -, rfl⟩ := List.mem_map.mp hs
    exact absurd hd fall_driving

include hts

theorem Resting.fits {s : Station σ} (hs : s ∈ bus.stations) : Fits s.timing := by
  apply hts
  rw [← h.timings]
  exact List.mem_map_of_mem hs

theorem Resting.level : bus.level = true := by
  rw [Bus.level, h.low, Bool.not_false, Bool.true_and, List.all_eq_true]
  intro s hs
  have hf := h.fits hts hs
  have hfallen := h.fallen
  have hanswered := h.answered s hs
  unfold Station.holds
  cases hd : s.driving with
  | released => rfl
  | slot =>
    have := hf.hold_le
    simp only [decide_eq_false (show ¬bus.fallen < s.timing.hold by omega), Bool.not_false]
  | presence =>
    have := hanswered hd
    simp only [decide_eq_false (show ¬(s.timing.presenceAfter ≤ bus.risen ∧
      bus.risen < s.timing.presenceAfter + s.timing.presenceFor) by omega), Bool.not_false]

/-- Nothing happens while the master waits. -/
theorem Resting.wait (d : Nat) : Resting ts (bus.wait logic d) states := by
  have hsame : bus.wait logic d =
      { bus with fallen := bus.fallen + d, risen := bus.risen + d } := by
    refine wait_eq fun s hs => Or.inr (Or.inl ?_)
    have hlt := (h.fits hts hs).lt_zero
    have hfallen := h.fallen
    omega
  rw [hsame]
  exact ⟨h.low, h.timings, h.states, Nat.le_add_right_of_le h.fallen,
    fun s hs hd => Nat.le_add_right_of_le (h.answered s hs hd)⟩

/-! ## Single slots -/

/-- **A written bit** reaches every station, unless one holds the line. -/
theorem writeBit_rests (hsilent : ∀ x ∈ states, logic.pulls x = false) (bit : UInt8) :
    Resting ts (oneWireWriteBit (busPins logic) bit bus)
      (states.map (logic.slot (decide (bit ≠ 0)))) := by
  rw [← h.states] at hsilent
  have hlevel := h.level hts
  unfold oneWireWriteBit busPins
  dsimp only
  by_cases hbit : bit ≠ 0
  · rw [if_pos hbit, decide_eq_true hbit, slot_eq hlevel]
    · refine rests_slot h (Nat.le_refl _) fun s hs => ?_
      rw [held_silent hsilent, decide_eq_true (h.fits hts hs).one_le]
      rfl
    · intro s hs
      have := (h.fits hts hs).lt_reset
      unfold timePulseDelayHigh at this
      unfold timePulseDelayLow
      omega
    · intro s hs
      have := (h.fits hts hs).lt_zero
      omega
  · rw [if_neg hbit, decide_eq_false hbit, slot_eq hlevel]
    · refine rests_slot h (Nat.le_refl _) fun s hs => ?_
      rw [decide_eq_false (Nat.not_le.mpr (h.fits hts hs).lt_zero), Bool.false_and]
    · exact fun s hs => (h.fits hts hs).lt_reset
    · intro s hs
      have := (h.fits hts hs).lt_zero
      omega

/-- **A bit is read** as a one unless some station holds the line, if no station has to see it. -/
theorem readBit_rests (hdeaf : ∀ x ∈ states, logic.slot true x = logic.slot false x) :
    ∃ bus', oneWireReadBit (busPins logic) bus =
        (if states.any logic.pulls then 0 else 1, bus') ∧
      Resting ts bus' (states.map (logic.slot true)) := by
  have hlevel := h.level hts
  have hlong : ∀ s ∈ bus.stations, timeHoldDown < s.timing.resetLow := by
    intro s hs
    have := (h.fits hts hs).lt_reset
    unfold timePulseDelayHigh at this
    unfold timeHoldDown
    omega
  have hseen : held logic bus.stations (timeHoldDown + timePulseDelayLow) =
      states.any logic.pulls := by
    rw [held_eq fun s hs => (h.fits hts hs).lt_hold, h.states]
  refine ⟨Bus.wait logic timePulseDelayHigh (Bus.wait logic timePulseDelayLow
      (Bus.release logic (Bus.wait logic timeHoldDown (bus.drive logic)))), ?_, ?_⟩
  · unfold oneWireReadBit busPins
    simp only [slot_level hlevel hlong, hseen, Bool.not_not]
  · rw [← wait_add, slot_eq hlevel hlong]
    · refine rests_slot h (by decide) fun s hs => ?_
      have hs' := hdeaf s.state (by rw [← h.states]; exact List.mem_map_of_mem hs)
      cases decide (timeHoldDown ≤ s.timing.sample) && !held logic bus.stations s.timing.sample
      · exact hs'.symm
      · rfl
    · intro s hs
      have := (h.fits hts hs).lt_zero
      omega

/-- **The reset** is seen by every station, and answered if one of the answers is heard. -/
theorem reset_rests : ∃ bus', oneWireReset (busPins logic) bus =
      (if heard ts then .success else .errorNoEcho, bus') ∧
    Resting ts bus' (states.map fun x => logic.reset (logic.slot false x)) := by
  obtain ⟨bus₀, hbus₀⟩ : ∃ bus₀, bus.wait logic timeBeforeReset = bus₀ := ⟨_, rfl⟩
  have hwait : Resting ts bus₀ states := hbus₀ ▸ h.wait hts timeBeforeReset
  have hlevel := hwait.level hts
  have hrest : bus₀.release logic = bus₀ := if_neg (by rw [hwait.low]; exact Bool.false_ne_true)
  have hsample : ∀ s ∈ bus₀.stations, s.timing.sample < timeResetLow :=
    fun s hs => Nat.lt_trans (hwait.fits hts hs).lt_zero (by decide)
  have hreset : Bus.release logic (Bus.wait logic timeResetLow (bus₀.drive logic)) = _ :=
    reset_eq hlevel (fun s hs => (hwait.fits hts hs).reset_le) hsample
  refine ⟨⟨bus₀.stations.map (Station.restart logic), false,
    timeResetLow + timePulseDelayHigh + timeAfterReset, 0 + timePulseDelayHigh + timeAfterReset⟩,
    ?_, ?_⟩
  · have hanswer : Bus.level ⟨bus₀.stations.map (Station.restart logic), false,
        timeResetLow + timePulseDelayHigh, 0 + timePulseDelayHigh⟩ = !heard ts := by
      rw [presence_level, heard, ← hwait.timings, List.any_map, List.not_any_eq_all_not,
        Nat.zero_add]
      rfl
    unfold oneWireReset busPins
    simp only [hbus₀, hrest, hlevel, hreset, wait_restart, hanswer]
    cases heard ts <;> rfl
  · have hafter : timePulseDelayLow + timePulseDelayHigh ≤
        timeResetLow + timePulseDelayHigh + timeAfterReset := by decide
    refine ⟨rfl, ?_, ?_, hafter, ?_⟩
    · rw [← hwait.timings, List.map_map]
      rfl
    · rw [← hwait.states, List.map_map, List.map_map]
      rfl
    · intro s hs _
      obtain ⟨s', hs', rfl⟩ := List.mem_map.mp hs
      rw [Nat.zero_add]
      exact (hwait.fits hts hs').presence_le

/-! ## Bytes -/

/-- The bits of a byte in the order in which they are sent. -/
def byteBits (byte : UInt8) : List Bool := (List.range 8).map byte.toNat.testBit

/-- The station does not hold the line in slots with these bits. -/
def Hears (logic : Logic σ) : List Bool → σ → Prop
  | [], _ => True
  | bit :: bits, x => logic.pulls x = false ∧ Hears logic bits (logic.slot bit x)

/-- The stations show these bits in slots in which the master reads, and see none. -/
def Shows (logic : Logic σ) : List Bool → List σ → Prop
  | [], _ => True
  | bit :: bits, states => (∀ x ∈ states, logic.slot true x = logic.slot false x) ∧
      (!states.any logic.pulls) = bit ∧ Shows logic bits (states.map (logic.slot true))

/-- The state after slots with these bits. -/
def after (logic : Logic σ) (bits : List Bool) (x : σ) : σ :=
  bits.foldl (fun x bit => logic.slot bit x) x

theorem writeBits_rests (bits : List UInt8)
    (hhears : ∀ x ∈ states, Hears logic (bits.map fun bit => decide (bit ≠ 0)) x) :
    Resting ts (bits.foldl (fun bus bit => oneWireWriteBit (busPins logic) bit bus) bus)
      (states.map (after logic (bits.map fun bit => decide (bit ≠ 0)))) := by
  induction bits generalizing bus states with
  | nil =>
    have hid : states.map (after logic []) = states := List.map_id _
    rw [List.map_nil, hid]
    exact h
  | cons bit bits ih =>
    have hbit := writeBit_rests hts h (fun x hx => (hhears x hx).1) bit
    have hrest := ih hbit fun x hx => by
      obtain ⟨y, hy, rfl⟩ := List.mem_map.mp hx
      exact (hhears y hy).2
    rw [List.map_map] at hrest
    exact hrest

omit hts h in
theorem bit_ne_zero (byte : UInt8) {cnt : Nat} (hcnt : cnt < 8) :
    decide (byte &&& (1 <<< UInt8.ofNat cnt) ≠ 0) = byte.toNat.testBit cnt := by
  have hmask := OneWire.toNat_mask ⟨cnt, hcnt⟩
  rw [Bool.eq_iff_iff, decide_eq_true_iff, ne_eq, ← UInt8.toNat_inj, UInt8.toNat_and, hmask,
    Nat.and_two_pow, UInt8.toNat_zero]
  cases byte.toNat.testBit cnt
  · simp
  · simp

/-- **A written byte** is sent lowest bit first. -/
theorem writeByte_rests (byte : UInt8) (hhears : ∀ x ∈ states, Hears logic (byteBits byte) x) :
    Resting ts (oneWireWriteByte (busPins logic) byte bus)
      (states.map (after logic (byteBits byte))) := by
  have hbits : ((List.range 8).map fun cnt => byte &&& (1 <<< UInt8.ofNat cnt)).map
      (fun bit => decide (bit ≠ 0)) = byteBits byte := by
    rw [List.map_map]
    exact List.map_congr_left fun cnt hcnt => bit_ne_zero byte (List.mem_range.mp hcnt)
  have hrest := writeBits_rests hts h
    ((List.range 8).map fun cnt => byte &&& (1 <<< UInt8.ofNat cnt)) (by rw [hbits]; exact hhears)
  rw [hbits, List.foldl_map] at hrest
  exact hrest

omit hts h in
theorem after_append (bits bits' : List Bool) (x : σ) :
    after logic (bits ++ bits') x = after logic bits' (after logic bits x) := List.foldl_append

omit hts h in
theorem hears_append {bits bits' : List Bool} {x : σ} :
    Hears logic (bits ++ bits') x ↔
      Hears logic bits x ∧ Hears logic bits' (after logic bits x) := by
  induction bits generalizing x with
  | nil => exact (and_iff_right trivial).symm
  | cons bit bits ih => exact (and_congr_right fun _ => ih).trans and_assoc.symm

/-- Bytes one after the other. -/
theorem writeBytes_rests (bytes : List UInt8)
    (hhears : ∀ x ∈ states, Hears logic (bytes.flatMap byteBits) x) :
    Resting ts (bytes.foldl (fun bus byte => oneWireWriteByte (busPins logic) byte bus) bus)
      (states.map (after logic (bytes.flatMap byteBits))) := by
  induction bytes generalizing bus states with
  | nil =>
    have hid : states.map (after logic []) = states := List.map_id _
    rw [List.flatMap_nil, hid]
    exact h
  | cons byte bytes ih =>
    have hbyte := writeByte_rests hts h byte fun x hx => (hears_append.mp (hhears x hx)).1
    have hrest := ih hbyte fun x hx => by
      obtain ⟨y, hy, rfl⟩ := List.mem_map.mp hx
      exact (hears_append.mp (hhears y hy)).2
    have hafter : after logic ((byte :: bytes).flatMap byteBits) =
        after logic (bytes.flatMap byteBits) ∘ after logic (byteBits byte) :=
      funext fun x => after_append _ _ x
    rw [List.map_map, ← hafter] at hrest
    exact hrest

omit h in
/-- Bytes that take each station from one known state to another. -/
theorem writeBytes_map {ρ : Type} {rs : List ρ} {f g : ρ → σ} (hrest : Resting ts bus (rs.map f))
    (bytes : List UInt8) (hrun : ∀ r, Hears logic (bytes.flatMap byteBits) (f r) ∧
      after logic (bytes.flatMap byteBits) (f r) = g r) :
    Resting ts (bytes.foldl (fun bus byte => oneWireWriteByte (busPins logic) byte bus) bus)
      (rs.map g) := by
  have hwrite := writeBytes_rests hts hrest bytes fun x hx => by
    obtain ⟨r, -, rfl⟩ := List.mem_map.mp hx
    exact (hrun r).1
  have hafter : after logic (bytes.flatMap byteBits) ∘ f = g := funext fun r => (hrun r).2
  rwa [List.map_map, hafter] at hwrite

/-- The first `n` bits of a byte have been read. -/
def Read (byte : UInt8) (n : Nat) (tmp : UInt8) : Prop :=
  ∀ j, tmp.toNat.testBit j = (decide (j < n) && byte.toNat.testBit j)

omit hts h in
theorem read_set {byte tmp : UInt8} {n : Nat} (hn : n < 8) (hread : Read byte n tmp) :
    Read byte (n + 1) (if byte.toNat.testBit n then tmp ||| (1 <<< UInt8.ofNat n) else tmp) := by
  have hmask := OneWire.toNat_mask ⟨n, hn⟩
  intro j
  have hj := hread j
  by_cases hjn : j = n
  · subst hjn
    rw [decide_eq_false (Nat.lt_irrefl j), Bool.false_and] at hj
    rw [decide_eq_true (Nat.lt_succ_self j), Bool.true_and]
    cases hbit : byte.toNat.testBit j
    · rw [if_neg Bool.false_ne_true, hj]
    · rw [if_pos rfl, UInt8.toNat_or, hmask, Nat.testBit_or, Nat.testBit_two_pow_self,
        Bool.or_true]
  · have hlt : decide (j < n + 1) = decide (j < n) := decide_eq_decide.mpr (by omega)
    rw [hlt, ← hj]
    split
    · rw [UInt8.toNat_or, hmask, Nat.testBit_or, Nat.testBit_two_pow_of_ne (Ne.symm hjn),
        Bool.or_false]
    · rfl

/-- The loop of `One_Wire_Read_Byte` from the bit `k` on. -/
theorem readBits_rests {byte tmp : UInt8} {k m : Nat} (hkm : k + m ≤ 8) (hread : Read byte k tmp)
    (hshows : Shows logic ((List.range' k m).map byte.toNat.testBit) states) :
    ∃ tmp' bus', (List.range' k m).foldl (readStep (busPins logic)) (tmp, bus) = (tmp', bus') ∧
      Read byte (k + m) tmp' ∧
      Resting ts bus' (states.map (after logic (List.replicate m true))) := by
  induction m generalizing k tmp bus states with
  | zero =>
    have hid : states.map (after logic []) = states := List.map_id _
    exact ⟨tmp, bus, rfl, hread, by rw [List.replicate_zero, hid]; exact h⟩
  | succ m ih =>
    rw [List.range'_succ, List.map_cons] at hshows
    obtain ⟨hdeaf, hbit, hrest⟩ := hshows
    obtain ⟨bus₁, hread₁, hrests₁⟩ := readBit_rests hts h hdeaf
    obtain ⟨tmp', bus', hloop, htmp, hrests⟩ :=
      ih hrests₁ (by omega) (read_set (by omega) hread) hrest
    refine ⟨tmp', bus', ?_, by rw [show k + (m + 1) = k + 1 + m by omega]; exact htmp, ?_⟩
    · rw [List.range'_succ, List.foldl_cons, ← hloop, readStep, hread₁, ← hbit]
      cases states.any logic.pulls <;> rfl
    · rw [List.map_map] at hrests
      exact hrests

/-- **A byte is read** as the bits that the stations show. -/
theorem readByte_rests {byte : UInt8} (hshows : Shows logic (byteBits byte) states) :
    ∃ bus', oneWireReadByte (busPins logic) bus = (byte, bus') ∧
      Resting ts bus' (states.map (after logic (List.replicate 8 true))) := by
  have hstart : Read byte 0 0 := by
    intro j
    rw [decide_eq_false (Nat.not_lt_zero j), Bool.false_and, UInt8.toNat_zero, Nat.zero_testBit]
  rw [byteBits, List.range_eq_range'] at hshows
  obtain ⟨tmp, bus', hloop, htmp, hrests⟩ := readBits_rests hts h (Nat.le_refl 8) hstart hshows
  have hbyte : tmp = byte := by
    apply UInt8.toNat_inj.mp
    apply Nat.eq_of_testBit_eq
    intro j
    rw [htmp j]
    by_cases hj : j < 8
    · rw [Nat.zero_add, decide_eq_true hj, Bool.true_and]
    · rw [Nat.zero_add, decide_eq_false hj, Bool.false_and, Nat.testBit_lt_two_pow]
      exact byte.toNat_lt.trans_le (Nat.pow_le_pow_right (by decide) (Nat.not_lt.mp hj))
  refine ⟨Bus.wait logic timePulseDelayHigh bus', ?_, hrests.wait hts timePulseDelayHigh⟩
  rw [oneWireReadByte, List.range_eq_range', hloop, hbyte]
  rfl

end Link

/-! ## The times that the driver needs -/

section Alone

variable {σ : Type} {logic : Logic σ} {t : Timing} {x : σ}

/-- A bus with one station, at rest. -/
def alone (t : Timing) (x : σ) : Bus σ :=
  ⟨[⟨t, x, .released⟩], false, timePulseDelayLow + timePulseDelayHigh, 0⟩

/-- The station takes every bit that is written for what it is, and every bit that it sends is
read for what it is. -/
structure Understands (logic : Logic σ) (t : Timing) : Prop where
  written : ∀ x bit, logic.pulls x = false →
    (oneWireWriteBit (busPins logic) bit (alone t x)).stations.map Station.state =
      [logic.slot (decide (bit ≠ 0)) x]
  read : ∀ x, (oneWireReadBit (busPins logic) (alone t x)).1 = if logic.pulls x then 0 else 1

theorem alone_level : (alone t x).level = true := rfl

/-- A slot with one station, which does not hold the line. -/
theorem slot_alone {a c : Nat} (hpulls : logic.pulls x = false) (hlong : a < t.resetLow)
    (hsample : t.sample < a + c) :
    (Bus.wait logic c (Bus.release logic (Bus.wait logic a
      ((alone t x).drive logic)))).stations.map Station.state =
        [logic.slot (decide (a ≤ t.sample)) x] := by
  have hheld : ∀ time, held logic (alone t x).stations time = false := by
    refine fun time => held_silent fun y hy => ?_
    rw [List.mem_singleton.mp hy]
    exact hpulls
  rw [slot_eq alone_level (fun s hs => by rw [List.mem_singleton.mp hs]; exact hlong)
    (fun s hs => by rw [List.mem_singleton.mp hs]; exact hsample)]
  show [logic.slot (decide (a ≤ t.sample) && !held logic (alone t x).stations t.sample) x] = _
  rw [hheld, Bool.not_false, Bool.and_true]

theorem writeBit_alone (hpulls : logic.pulls x = false) (bit : UInt8)
    (hsample : t.sample < timePulseDelayLow + timePulseDelayHigh)
    (hreset : timePulseDelayHigh < t.resetLow) :
    (oneWireWriteBit (busPins logic) bit (alone t x)).stations.map Station.state =
      [logic.slot (decide ((if bit ≠ 0 then timePulseDelayLow else timePulseDelayHigh) ≤
        t.sample)) x] := by
  have hshort : timePulseDelayLow < t.resetLow := Nat.lt_trans (by decide) hreset
  unfold oneWireWriteBit busPins
  by_cases hbit : bit ≠ 0
  · simp only [if_pos hbit]
    exact slot_alone hpulls hshort hsample
  · simp only [if_neg hbit]
    exact slot_alone hpulls hreset (Nat.add_comm _ _ ▸ hsample)

theorem readBit_alone (hreset : timePulseDelayHigh < t.resetLow) :
    (oneWireReadBit (busPins logic) (alone t x)).1 =
      if logic.pulls x && decide (timeHoldDown + timePulseDelayLow < t.hold) then 0 else 1 := by
  have hshort : timeHoldDown < t.resetLow := Nat.lt_trans (by decide) hreset
  have hlevel : (Bus.wait logic timePulseDelayLow (Bus.release logic (Bus.wait logic timeHoldDown
      ((alone t x).drive logic)))).level = _ :=
    slot_level alone_level fun s hs => by rw [List.mem_singleton.mp hs]; exact hshort
  have hheld : held logic (alone t x).stations (timeHoldDown + timePulseDelayLow) =
      (logic.pulls x && decide (timeHoldDown + timePulseDelayLow < t.hold)) := Bool.or_false _
  unfold oneWireReadBit busPins
  simp only [hlevel, hheld, Bool.not_not]

/-- **The times that the driver needs.** A station that looks at the line within a slot, does
not take the low of a zero for a reset, tells the two bits apart and sends zeros understands the
driver exactly when it looks after the low of a one and before the end of that of a zero, and
holds its own zeros until the driver has looked. -/
theorem understands_iff (logic : Logic σ) (t : Timing)
    (hsample : t.sample < timePulseDelayLow + timePulseDelayHigh)
    (hreset : timePulseDelayHigh < t.resetLow)
    (hhears : ∃ x, logic.pulls x = false ∧ logic.slot true x ≠ logic.slot false x)
    (hsends : ∃ x, logic.pulls x = true) :
    Understands logic t ↔ timePulseDelayLow ≤ t.sample ∧ t.sample < timePulseDelayHigh ∧
      timeHoldDown + timePulseDelayLow < t.hold := by
  constructor
  · rintro ⟨hwritten, hread⟩
    obtain ⟨x, hpulls, hne⟩ := hhears
    obtain ⟨y, hy⟩ := hsends
    have hone := hwritten x 1 hpulls
    have hzero := hwritten x 0 hpulls
    rw [writeBit_alone hpulls _ hsample hreset, List.singleton_inj] at hone hzero
    have hlow := hread y
    rw [readBit_alone hreset, hy, if_pos rfl, Bool.true_and] at hlow
    refine ⟨?_, ?_, ?_⟩
    · by_contra hlt
      rw [if_pos (by decide), decide_eq_false hlt] at hone
      exact hne hone.symm
    · by_contra hge
      rw [if_neg (by decide), decide_eq_true (Nat.not_lt.mp hge)] at hzero
      exact hne hzero
    · by_contra hle
      rw [decide_eq_false hle] at hlow
      cases hlow
  · rintro ⟨hone, hzero, hhold⟩
    refine ⟨fun x bit hpulls => ?_, fun x => ?_⟩
    · rw [writeBit_alone hpulls bit hsample hreset]
      by_cases hbit : bit ≠ 0
      · rw [if_pos hbit, decide_eq_true hone, decide_eq_true hbit]
      · rw [if_neg hbit, decide_eq_false (Nat.not_le.mpr hzero), decide_eq_false hbit]
    · rw [readBit_alone hreset, decide_eq_true hhold, Bool.and_true]

end Alone

/-- A station that tells what it has heard understands the driver if it looks after 30 µs, and
does not if it looks after 45. -/
theorem understands_iff_echo :
    let echo : Logic (Option Bool) := ⟨fun _ => none, (· == some false), fun bit _ => some bit⟩
    Understands echo ⟨30, 30, 480, 30, 120⟩ ∧ ¬Understands echo ⟨45, 30, 480, 30, 120⟩ := by
  intro echo
  have hhears : ∃ x, echo.pulls x = false ∧ echo.slot true x ≠ echo.slot false x :=
    ⟨none, rfl, by decide⟩
  have hsends : ∃ x, echo.pulls x = true := ⟨some false, rfl⟩
  refine ⟨(understands_iff echo _ (by decide) (by decide) hhears hsends).mpr (by decide), ?_⟩
  rw [understands_iff echo _ (by decide) (by decide) hhears hsends]
  decide

end MyLibraries.Ds1822
