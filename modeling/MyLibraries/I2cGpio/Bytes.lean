import MyLibraries.I2cGpio.Lines

/-!
# What the pulses carry

The samples of the clock pulses since an idle bus. Only a falling clock adds one, and what
the master gets from the data line just before is the line in it. So every byte written or
read is one frame, and the master returns the answer or the byte that was on the line.
-/

namespace MyLibraries.I2cGpio

open TwoWire

variable {past : List Event} {ss : List Symbol} {m : Monitor} {b : Bus} {a level : Bool}

/-- The samples of the pulses since `past`. -/
def sampled (others : Others) (past : List Event) (b : Bus) : List (Bool × Bool) :=
  pulses others.sda .idle past (b.trace.drop past.length)

variable (others : Others)

theorem At.sampled_snoc (h : At past ss m b) (b' : Bus) (e : Event)
    (htrace : b'.trace = b.trace ++ [e]) : sampled others past b' =
      sampled others past b ++ sample others.sda b.trace (m.step e).1 := by
  obtain ⟨-, -, es, hes, -, hafter⟩ := h
  rw [sampled, sampled, htrace, hes, List.append_assoc, List.drop_left, List.drop_left,
    pulses_snoc, hafter]

/-! ## Pins -/

theorem At.sampled_delay (h : At past ss m b) :
    sampled others past b.delayFunc = sampled others past b := by
  have hsnoc := h.sampled_snoc others b.delayFunc .delay rfl
  rw [hsnoc, step_delay]
  exact List.append_nil _

theorem At.sampled_place (h : At past ss ⟨a, .low⟩ b) (level : Bool) :
    sampled others past (b.setSda level) = sampled others past b := by
  have hsnoc := h.sampled_snoc others (b.setSda level) (.sda level) rfl
  rw [hsnoc, step_sda_low]
  exact List.append_nil _

theorem At.sampled_rise (h : At past ss ⟨a, .low⟩ b) :
    sampled others past (b.setScl true) = sampled others past b := by
  have hsnoc := h.sampled_snoc others (b.setScl true) (.scl true) rfl
  rw [hsnoc, step_rise]
  exact List.append_nil _

theorem At.sampled_fall (h : At past ss ⟨a, .pulse⟩ b) :
    sampled others past (b.setScl false) =
      sampled others past b ++ [(a, b.getSda others)] := by
  have hsnoc := h.sampled_snoc others (b.setScl false) (.scl false) rfl
  rw [hsnoc, step_fall, Bus.getSda, h.sda]
  rfl

/-- A pulse is sampled as the master gets the data line at its end. -/
theorem At.sampled_pulse (h : At past ss ⟨a, .low⟩ b) :
    sampled others past (((b.setScl true).delayFunc.setScl false).delayFunc) =
      sampled others past b ++ [(a, (b.setScl true).delayFunc.getSda others)] := by
  have hhigh := h.rise.delayFunc
  rw [hhigh.fall.sampled_delay, hhigh.sampled_fall, h.rise.sampled_delay, h.sampled_rise]

/-- The data line falls under a high clock, then the clock does: no pulse. -/
theorem At.sampled_fallBoth (h : At past ss ⟨true, .pulse⟩ b ∨ At past ss .idle b) :
    sampled others past (((b.setSda false).delayFunc.setScl false).delayFunc) =
      sampled others past b := by
  have hstart : At past (ss ++ [.start]) ⟨false, .high⟩ (b.setSda false) ∧
      sampled others past (b.setSda false) = sampled others past b := by
    cases h with
    | inl h =>
      refine ⟨h.setSda false, ?_⟩
      rw [h.sampled_snoc others (b.setSda false) (.sda false) rfl]
      exact List.append_nil _
    | inr h =>
      refine ⟨h.setSda false, ?_⟩
      rw [h.sampled_snoc others (b.setSda false) (.sda false) rfl]
      exact List.append_nil _
  have hlow := hstart.1.delayFunc.setScl false
  rw [hlow.sampled_delay,
    hstart.1.delayFunc.sampled_snoc others ((b.setSda false).delayFunc.setScl false)
      (.scl false) rfl, hstart.1.sampled_delay, hstart.2]
  exact List.append_nil _

/-! ## Conditions -/

theorem repeatStartCondition_sampled (h : At past ss ⟨a, .low⟩ b) :
    sampled others past b.repeatStartCondition = sampled others past b := by
  have hplace := h.place true
  have hsame := At.sampled_fallBoth others (.inl hplace.rise.delayFunc)
  rw [hplace.rise.sampled_delay, hplace.sampled_rise, h.sampled_place] at hsame
  exact hsame

theorem stopCondition_sampled (h : At past ss ⟨a, .low⟩ b) :
    sampled others past b.stopCondition = sampled others past b := by
  have hlow := h.delayFunc.place false
  have hhigh := hlow.rise.delayFunc
  have hstop := hhigh.setSda true
  have hsnoc := hhigh.sampled_snoc others
    (((b.delayFunc.setSda false).setScl true).delayFunc.setSda true) (.sda true) rfl
  have hlast := hstop.sampled_delay others
  rw [hsnoc, hlow.rise.sampled_delay, hlow.sampled_rise, h.delayFunc.sampled_place,
    h.sampled_delay] at hlast
  exact hlast.trans (List.append_nil _)

theorem startCondition_sampled (h : ¬LineLow others past) :
    sampled others past ((Bus.idle past).startCondition others).2 = [] := by
  have hidle := At.idle past
  have hreleased := ((hidle.setSda true).setScl true).delayFunc
  have hnone : sampled others past (((Bus.idle past).setSda true).setScl true).delayFunc = [] := by
    rw [((hidle.setSda true).setScl true).sampled_delay,
      (hidle.setSda true).sampled_snoc others (((Bus.idle past).setSda true).setScl true)
        (.scl true) rfl,
      hidle.sampled_snoc others ((Bus.idle past).setSda true) (.sda true) rfl, sampled,
      Bus.idle, List.drop_length]
    rfl
  have hsame := At.sampled_fallBoth others (.inr hreleased)
  have hfree : (Bus.idle past).startCondition others =
      (0, (((Bus.idle (checked past)).setSda false).delayFunc.setScl false).delayFunc) := by
    rw [startCondition_eq]
    exact if_neg h
  rw [hfree, ← released]
  exact hsame.trans hnone

/-! ## Bytes -/

/-- The bits of a byte are read back. -/
theorem byteOf_bitsOf (data : UInt8) : byteOf (bitsOf data) = data := by
  have hall : ∀ n : Fin 256, byteOf (bitsOf (UInt8.ofNat n)) = UInt8.ofNat n := by
    decide +kernel
  have hdata := hall ⟨data.toNat, data.toNat_lt⟩
  rw [UInt8.ofNat_toNat] at hdata
  exact hdata

/-- The bits that `ReadByte` collects under its mask. -/
theorem collect_byteOf : ∀ b₀ b₁ b₂ b₃ b₄ b₅ b₆ b₇ : Bool,
    (masks.zip [b₀, b₁, b₂, b₃, b₄, b₅, b₆, b₇]).foldl
      (fun data p => if p.2 then data ||| p.1 else data) (0 : UInt8) =
      byteOf [b₀, b₁, b₂, b₃, b₄, b₅, b₆, b₇] := by
  decide +kernel

theorem writeBits_sampled (data : UInt8) (l : List UInt8) (h : At past ss ⟨a, .low⟩ b) :
    ∃ line : List Bool, line.length = l.length ∧
      sampled others past (l.foldl (fun b mask => b.writeBit data mask) b) =
        sampled others past b ++
          (l.map fun mask => decide (data &&& mask ≠ 0)).zip line := by
  induction l generalizing ss a b with
  | nil => exact ⟨[], rfl, (List.append_nil _).symm⟩
  | cons mask l ih =>
    obtain ⟨line, hlen, hrest⟩ := ih (writeBit_at data mask h)
    have hplace := h.place (data &&& mask ≠ 0)
    have hbit : b.writeBit data mask =
        (((b.setSda (data &&& mask ≠ 0)).setScl true).delayFunc.setScl false).delayFunc := by
      unfold Bus.writeBit
      by_cases hone : data &&& mask ≠ 0
      · rw [if_pos hone, decide_eq_true hone]
      · rw [if_neg hone, decide_eq_false hone]
    have hpulse := hplace.sampled_pulse others
    rw [← hbit, h.sampled_place] at hpulse
    generalize ((b.setSda _).setScl true).delayFunc.getSda others = got at hpulse
    refine ⟨got :: line, congrArg Nat.succ hlen, ?_⟩
    rw [List.foldl_cons, hrest, hpulse, List.append_assoc]
    rfl

/-- A byte written is a frame with the answer that `WriteByte` returns. -/
theorem writeByte_sampled (data : UInt8) (h : At past ss ⟨a, .low⟩ b) :
    ∃ (line : List Bool) (ack : Bool), line.length = 8 ∧
      (b.writeByte others data).1 = ack.toUInt16 ∧
      sampled others past (b.writeByte others data).2 =
        sampled others past b ++ ((bitsOf data).zip line ++ [(true, ack)]) := by
  obtain ⟨line, hlen, hbits⟩ := writeBits_sampled others data masks h
  obtain ⟨a', h'⟩ := writeBits_at data masks h
  have hplace := (h'.place true).delayFunc
  have hhigh := hplace.rise.delayFunc
  have hsame := (h'.place true).sampled_delay others
  rw [h'.sampled_place, hbits] at hsame
  generalize hgot : (((masks.foldl (fun b mask => b.writeBit data mask) b).setSda
    true).delayFunc.setScl true).delayFunc.getSda others = ack
  refine ⟨line, ack, hlen, ?_, ?_⟩
  · rw [Bus.writeByte, whileMask_masks _ 0, ← hgot]
  · rw [← hgot, Bus.writeByte, whileMask_masks _ 0, hhigh.fall.sampled_delay, hhigh.sampled_fall,
      hplace.rise.sampled_delay, hplace.sampled_rise, hsame, List.append_assoc]
    rfl

theorem readBits_sampled (l : List UInt8) (data : UInt8) (h : At past ss ⟨true, .low⟩ b) :
    ∃ line : List Bool, line.length = l.length ∧
      (l.foldl (fun p mask => Bus.readBit others mask p) (data, b)).1 =
        (l.zip line).foldl (fun data p => if p.2 then data ||| p.1 else data) data ∧
      sampled others past (l.foldl (fun p mask => Bus.readBit others mask p) (data, b)).2 =
        sampled others past b ++ (List.replicate l.length true).zip line := by
  induction l generalizing ss data b with
  | nil => exact ⟨[], rfl, rfl, (List.append_nil _).symm⟩
  | cons mask l ih =>
    have hpulse := h.sampled_pulse others
    generalize hbit : (b.setScl true).delayFunc.getSda others = bit at hpulse
    obtain ⟨line, hlen, hdata, hrest⟩ := ih (if bit then data ||| mask else data) h.pulse
    have hround : Bus.readBit others mask (data, b) =
        (if bit then data ||| mask else data,
          ((b.setScl true).delayFunc.setScl false).delayFunc) := by
      rw [← hbit]
      rfl
    refine ⟨bit :: line, congrArg Nat.succ hlen, ?_, ?_⟩
    · rw [List.foldl_cons, hround, hdata]
      rfl
    · rw [List.foldl_cons, hround, hrest, hpulse, List.append_assoc]
      rfl

/-- A byte read is a frame of the byte that `ReadByte` returns, with its answer. -/
theorem readByte_sampled (ack : Bool) (h : At past ss ⟨a, .low⟩ b) :
    ∃ (line : List Bool) (lineAck : Bool), line.length = 8 ∧
      (b.readByte others ack).1 = (byteOf line).toUInt16 ∧
      sampled others past (b.readByte others ack).2 =
        sampled others past b ++ ((List.replicate 8 true).zip line ++ [(!ack, lineAck)]) := by
  obtain ⟨line, hlen, hdata, hline⟩ := readBits_sampled others masks 0 (h.place true)
  have hat := readBits_at others masks 0 (h.place true)
  have hbyte : (masks.zip line).foldl
      (fun data p => if p.2 then data ||| p.1 else data) (0 : UInt8) = byteOf line := by
    match line, hlen with
    | [b₀, b₁, b₂, b₃, b₄, b₅, b₆, b₇], _ => exact collect_byteOf b₀ b₁ b₂ b₃ b₄ b₅ b₆ b₇
  rw [hbyte] at hdata
  rw [h.sampled_place] at hline
  rw [Bus.readByte, whileMask_masks _ 0]
  obtain ⟨data, b', hread⟩ : ∃ data b',
      masks.foldl (fun p mask => Bus.readBit others mask p) (0, b.setSda true) = (data, b') :=
    ⟨_, _, rfl⟩
  rw [hread] at hdata hline hat ⊢
  have hack : (if ack then b'.setSda false else b'.setSda true) = b'.setSda (!ack) := by
    cases ack with
    | true => rfl
    | false => rfl
  have hplace := hat.place (!ack)
  have hpulse := hplace.delayFunc.sampled_pulse others
  rw [hplace.sampled_delay, hat.sampled_place, hline] at hpulse
  generalize ((b'.setSda (!ack)).delayFunc.setScl true).delayFunc.getSda others = lineAck
    at hpulse
  refine ⟨line, lineAck, hlen, ?_, ?_⟩
  · rw [← hdata]
  · simp only [hack]
    rw [hplace.delayFunc.pulse.sampled_place, hpulse, List.append_assoc]
    rfl

end MyLibraries.I2cGpio
