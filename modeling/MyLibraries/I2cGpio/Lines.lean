import MyLibraries.I2cGpio.Model

/-!
# What the lines show

`At past ss m b` says what a monitor of an idle bus has read since `past`. Each pin access
moves it by one step, and every function of the master by the symbols it sends.
-/

namespace MyLibraries.I2cGpio

open TwoWire

variable {past : List Event} {ss : List Symbol} {m : Monitor} {b : Bus} {a level : Bool}

/-- Since `past` the bus has shown `ss`, and stands at `m`. -/
structure At (past : List Event) (ss : List Symbol) (m : Monitor) (b : Bus) : Prop where
  sda : b.sda = m.sda
  scl : b.scl = m.clock.level
  trace : ∃ es, b.trace = past ++ es ∧ Shows .idle es ss m

theorem At.idle (past : List Event) : At past [] .idle (Bus.idle past) :=
  ⟨rfl, rfl, [], (List.append_nil past).symm, Shows.nil⟩

theorem At.bus_eq (h : At past ss .idle b) :
    ∃ es, b = Bus.idle (past ++ es) ∧ symbols .idle es = ss := by
  obtain ⟨hsda, hscl, es, htrace, hshows, -⟩ := h
  refine ⟨es, ?_, hshows⟩
  obtain ⟨sda, scl, trace⟩ := b
  subst hsda hscl htrace
  rfl

/-! ## Pins -/

theorem At.setSda (h : At past ss m b) (level : Bool) :
    At past (ss ++ (m.step (.sda level)).1.toList) (m.step (.sda level)).2
      (b.setSda level) := by
  obtain ⟨hsda, hscl, es, htrace, hshows⟩ := h
  refine ⟨step_sda_sda.symm, ?_, es ++ [.sda level], ?_, hshows.snoc _⟩
  · rw [step_sda_level]
    exact hscl
  · rw [← List.append_assoc, ← htrace]
    rfl

theorem At.setScl (h : At past ss m b) (level : Bool) :
    At past (ss ++ (m.step (.scl level)).1.toList) (m.step (.scl level)).2
      (b.setScl level) := by
  obtain ⟨hsda, hscl, es, htrace, hshows⟩ := h
  refine ⟨?_, step_scl_level.symm, es ++ [.scl level], ?_, hshows.snoc _⟩
  · rw [step_scl_sda]
    exact hsda
  · rw [← List.append_assoc, ← htrace]
    rfl

theorem At.delayFunc (h : At past ss m b) : At past ss m b.delayFunc := by
  obtain ⟨hsda, hscl, es, htrace, hshows⟩ := h
  refine ⟨hsda, hscl, es ++ [.delay], ?_, ?_⟩
  · rw [← List.append_assoc, ← htrace]
    rfl
  · simpa using hshows.snoc .delay

/-- Under a low clock the data line moves unread. -/
theorem At.place (h : At past ss ⟨a, .low⟩ b) (level : Bool) :
    At past ss ⟨level, .low⟩ (b.setSda level) := by
  simpa using h.setSda level

theorem At.rise (h : At past ss ⟨a, .low⟩ b) : At past ss ⟨a, .pulse⟩ (b.setScl true) := by
  simpa using h.setScl true

theorem At.fall (h : At past ss ⟨a, .pulse⟩ b) :
    At past (ss ++ [.bit a]) ⟨a, .low⟩ (b.setScl false) := by
  simpa using h.setScl false

/-- A clock pulse with what the loops of `WriteByte` and `ReadByte` wait for. -/
theorem At.pulse (h : At past ss ⟨a, .low⟩ b) :
    At past (ss ++ [.bit a]) ⟨a, .low⟩
      ((b.setScl true).delayFunc.setScl false).delayFunc := by
  have hhigh := h.rise.delayFunc
  exact hhigh.fall.delayFunc

/-! ## Conditions -/

/-- The data line falls under a high clock, then the clock does. -/
theorem At.fallBoth (h : At past ss ⟨true, .pulse⟩ b ∨ At past ss .idle b) :
    At past (ss ++ [.start]) ⟨false, .low⟩
      ((b.setSda false).delayFunc.setScl false).delayFunc := by
  have hstart : At past (ss ++ [.start]) ⟨false, .high⟩ (b.setSda false) := by
    cases h with
    | inl h => exact h.setSda false
    | inr h => exact h.setSda false
  have hlow := hstart.delayFunc.setScl false
  rw [step_fall_high, Option.toList_none, List.append_nil] at hlow
  exact hlow.delayFunc

theorem repeatStartCondition_at (h : At past ss ⟨a, .low⟩ b) :
    At past (ss ++ [.start]) ⟨false, .low⟩ b.repeatStartCondition := by
  have hhigh := (h.place true).rise.delayFunc
  exact At.fallBoth (.inl hhigh)

theorem stopCondition_at (h : At past ss ⟨a, .low⟩ b) :
    At past (ss ++ [.stop]) .idle b.stopCondition := by
  have hhigh := (h.delayFunc.place false).rise.delayFunc
  have hstop := hhigh.setSda true
  exact hstop.delayFunc

/-- The trace up to the busy check of `StartCondition`. -/
def checked (past : List Event) : List Event := past ++ [.sda true, .scl true, .delay]

/-- A line reads low in the busy check. -/
def LineLow (others : Others) (past : List Event) : Prop :=
  others.sda (checked past) = false ∨ others.scl (checked past) = false

instance (others : Others) (past : List Event) : Decidable (LineLow others past) :=
  inferInstanceAs (Decidable (_ ∨ _))

variable (others : Others)

theorem released (past : List Event) :
    (((Bus.idle past).setSda true).setScl true).delayFunc = Bus.idle (checked past) := by
  simp [Bus.idle, Bus.setSda, Bus.setScl, Bus.delayFunc, checked]

theorem startCondition_eq (past : List Event) :
    (Bus.idle past).startCondition others =
      let b := Bus.idle (checked past)
      if b.getSda others = false ∨ b.getScl others = false then (-ebusy, b)
      else (0, ((b.setSda false).delayFunc.setScl false).delayFunc) := by
  rw [← released]
  rfl

theorem startCondition_low (h : LineLow others past) :
    (Bus.idle past).startCondition others = (-ebusy, Bus.idle (checked past)) := by
  rw [startCondition_eq]
  exact if_pos h

theorem startCondition_free (h : ¬LineLow others past) :
    ∃ b, (Bus.idle past).startCondition others = (0, b) ∧
      At past [.start] ⟨false, .low⟩ b := by
  refine ⟨(((Bus.idle (checked past)).setSda false).delayFunc.setScl false).delayFunc, ?_, ?_⟩
  · rw [startCondition_eq]
    exact if_neg h
  · rw [← released]
    have hsda := (At.idle past).setSda true
    have hscl := hsda.setScl true
    exact At.fallBoth (.inr hscl.delayFunc)

/-! ## Bytes -/

/-- The values `mask` takes. -/
def masks : List UInt8 := [0x80, 0x40, 0x20, 0x10, 0x08, 0x04, 0x02, 0x01]

theorem whileMask_masks {σ : Type} (body : UInt8 → σ → σ) (n : Nat) (s : σ) :
    whileMask body (n + 8) 0x80 s = masks.foldl (fun s mask => body mask s) s := by
  have hend : ∀ s, whileMask body n 0 s = s := by
    intro s
    cases n with
    | zero => rfl
    | succ n => rfl
  exact hend _

/-- The bits of a byte, the most significant first. -/
def bitsOf (data : UInt8) : List Bool := masks.map fun mask => data &&& mask ≠ 0

theorem writeBit_at (data mask : UInt8) (h : At past ss ⟨a, .low⟩ b) :
    At past (ss ++ [.bit (data &&& mask ≠ 0)]) ⟨data &&& mask ≠ 0, .low⟩
      (b.writeBit data mask) := by
  unfold Bus.writeBit
  by_cases hbit : data &&& mask ≠ 0
  · rw [if_pos hbit, decide_eq_true hbit]
    exact (h.place true).pulse
  · rw [if_neg hbit, decide_eq_false hbit]
    exact (h.place false).pulse

theorem writeBits_at (data : UInt8) (l : List UInt8) (h : At past ss ⟨a, .low⟩ b) :
    ∃ a', At past (ss ++ (l.map fun mask => decide (data &&& mask ≠ 0)).map Symbol.bit)
      ⟨a', .low⟩ (l.foldl (fun b mask => b.writeBit data mask) b) := by
  induction l generalizing ss a b with
  | nil => exact ⟨a, by simpa using h⟩
  | cons mask l ih =>
    obtain ⟨a', h'⟩ := ih (writeBit_at data mask h)
    refine ⟨a', ?_⟩
    rw [List.append_assoc] at h'
    exact h'

/-- `WriteByte` sends the bits of the byte and a released bit for the answer. -/
theorem writeByte_at (data : UInt8) (h : At past ss ⟨a, .low⟩ b) :
    At past (ss ++ (bitsOf data ++ [true]).map Symbol.bit) ⟨true, .low⟩
      (b.writeByte others data).2 := by
  obtain ⟨a', h'⟩ := writeBits_at data masks h
  have hhigh := (h'.place true).delayFunc.rise.delayFunc
  have hlow := hhigh.fall.delayFunc
  rw [List.append_assoc] at hlow
  rw [List.map_append, Bus.writeByte, whileMask_masks _ 0]
  exact hlow

theorem readBits_at (l : List UInt8) (data : UInt8) (h : At past ss ⟨true, .low⟩ b) :
    At past (ss ++ (List.replicate l.length true).map Symbol.bit) ⟨true, .low⟩
      (l.foldl (fun p mask => Bus.readBit others mask p) (data, b)).2 := by
  induction l generalizing ss data b with
  | nil => simpa using h
  | cons mask l ih =>
    have h' := ih (if (b.setScl true).delayFunc.getSda others then data ||| mask else data)
      h.pulse
    rw [List.append_assoc] at h'
    exact h'

/-- `ReadByte` sends eight released bits and its answer. -/
theorem readByte_at (ack : Bool) (h : At past ss ⟨a, .low⟩ b) :
    At past (ss ++ (List.replicate 8 true ++ [!ack]).map Symbol.bit) ⟨true, .low⟩
      (b.readByte others ack).2 := by
  have hbits := readBits_at others masks 0 (h.place true)
  rw [Bus.readByte, whileMask_masks _ 0]
  obtain ⟨data, b', hread⟩ : ∃ data b',
      masks.foldl (fun p mask => Bus.readBit others mask p) (0, b.setSda true) = (data, b') :=
    ⟨_, _, rfl⟩
  rw [hread] at hbits ⊢
  have hack : At past (ss ++ (List.replicate 8 true).map Symbol.bit) ⟨!ack, .low⟩
      (if ack then b'.setSda false else b'.setSda true) := by
    cases ack with
    | true => exact hbits.place false
    | false => exact hbits.place true
  have hlow := (hack.delayFunc.pulse).place true
  rw [List.append_assoc] at hlow
  rw [List.map_append]
  exact hlow

end MyLibraries.I2cGpio
