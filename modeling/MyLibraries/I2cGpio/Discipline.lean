import MyLibraries.I2cGpio.Lines

/-!
# Bus discipline

A transfer in flight has shown some symbols and then bits, with the clock low. What is
called in the chain only adds bits, whether it succeeds or not, except the repeated start;
so wherever the chain breaks off, the stop that follows ends it properly.
-/

namespace MyLibraries.I2cGpio

open TwoWire

variable {past : List Event} {ss : List Symbol} {others : Others} {t : Transfer}
  {p : Result × Transfer} {func : Transfer → Result × Transfer}

/-! ## The chain -/

/-- A started transfer has shown `ss` and then bits, and the clock is low. -/
def InFlight (past : List Event) (ss : List Symbol) (t : Transfer) : Prop :=
  t.started = true ∧
    ∃ (a : Bool) (bits : List Bool), At past (ss ++ bits.map .bit) ⟨a, .low⟩ t.bus

/-- The function only adds bits to a transfer in flight. -/
def SendsBits (func : Transfer → Result × Transfer) : Prop :=
  ∀ past ss t, InFlight past ss t → InFlight past ss (func t).2

theorem InFlight.write (others : Others) (byte : UInt8) (h : InFlight past ss t) :
    InFlight past ss { t with bus := (t.bus.writeByte others byte).2 } := by
  obtain ⟨hstarted, a, bits, hat⟩ := h
  have hat' := writeByte_at others byte hat
  rw [List.append_assoc, ← List.map_append] at hat'
  exact ⟨hstarted, true, _, hat'⟩

theorem InFlight.read (others : Others) (ack : Bool) (data : List UInt8) (h : InFlight past ss t) :
    InFlight past ss { t with bus := (t.bus.readByte others ack).2, data } := by
  obtain ⟨hstarted, a, bits, hat⟩ := h
  have hat' := readByte_at others ack hat
  rw [List.append_assoc, ← List.map_append] at hat'
  exact ⟨hstarted, true, _, hat'⟩

theorem sendsBits_writeByte (others : Others) (byte : UInt8) :
    SendsBits (Transfer.writeByte others byte) := by
  intro past ss t h
  have h' := h.write others byte
  unfold Transfer.writeByte
  simp only
  split
  · exact h'
  · exact h'

theorem sendsBits_writeMany (others : Others) (buffer : List UInt8) :
    SendsBits (Transfer.writeMany others buffer) := by
  intro past ss t h
  induction buffer generalizing t with
  | nil => exact h
  | cons byte buffer ih =>
    have h' := h.write others byte
    unfold Transfer.writeMany
    simp only
    split
    · exact h'
    · exact ih _ h'

theorem sendsBits_readMany (others : Others) : SendsBits (Transfer.readMany others) := by
  intro past ss t h
  unfold Transfer.readMany
  simp only
  generalize t.data.length = n
  generalize List.range n = l
  induction l generalizing t with
  | nil => exact h
  | cons i l ih => exact ih _ (h.read others _ _)

theorem InFlight.andThen (h : InFlight past ss p.2) (hf : SendsBits func) :
    InFlight past ss (andThen p func).2 := by
  unfold I2cGpio.andThen
  split
  · exact h
  · exact hf _ _ _ h

theorem InFlight.repeatStart (h : InFlight past ss t) :
    ∃ bits : List Bool, InFlight past (ss ++ bits.map .bit ++ [.start]) (t.repeatStart).2 := by
  obtain ⟨hstarted, a, bits, hat⟩ := h
  refine ⟨bits, hstarted, false, [], ?_⟩
  rw [List.map_nil, List.append_nil]
  exact repeatStartCondition_at hat

/-- The chain ends in a stop, which releases both lines. -/
theorem InFlight.finish (h : InFlight past ss p.2) :
    ∃ (bits : List Bool) (es : List Event),
      (Transfer.finish p).2.2 = Bus.idle (past ++ es) ∧
      symbols .idle es = ss ++ bits.map .bit ++ [.stop] := by
  obtain ⟨hstarted, a, bits, hat⟩ := h
  obtain ⟨es, hbus, hes⟩ := (stopCondition_at hat).bus_eq
  refine ⟨bits, es, ?_, hes⟩
  rw [← hbus]
  unfold Transfer.finish
  simp only [hstarted, if_true]
  split
  · rfl
  · rfl

/-! ## The start -/

/-- The chain after the start of an idle bus whose lines read high. -/
theorem start_free (h : ¬LineLow others past) (data : List UInt8) :
    InFlight past [.start]
      (andThen (.ok, { bus := Bus.idle past, started := false, data })
        (Transfer.start others)).2 := by
  obtain ⟨b, hstart, hat⟩ := startCondition_free others h
  rw [andThen_ok, Transfer.start, hstart]
  exact ⟨rfl, false, [], hat⟩

theorem start_low (h : LineLow others past) (data : List UInt8) :
    andThen (.ok, { bus := Bus.idle past, started := false, data }) (Transfer.start others) =
      (⟨-ebusy⟩, { bus := Bus.idle (checked past), started := false, data }) := by
  rw [andThen_ok, Transfer.start, startCondition_low others h]
  rfl

/-! ## Requests -/

/-- A start, bits and a stop; a read may start once more in between. -/
def Disciplined : Request → List Symbol → Prop
  | .write .., ss => ∃ bits : List Bool, ss = [.start] ++ bits.map .bit ++ [.stop]
  | .read .., ss =>
    (∃ bits : List Bool, ss = [.start] ++ bits.map .bit ++ [.stop]) ∨
    ∃ bits bits' : List Bool,
      ss = [.start] ++ bits.map .bit ++ [.start] ++ bits'.map .bit ++ [.stop]

theorem disciplined_count {req : Request} (h : Disciplined req ss) :
    Symbol.start ∈ ss ∧ ss.count .stop = 1 := by
  have hbits : ∀ bits : List Bool, (bits.map Symbol.bit).count .stop = 0 := by
    intro bits
    apply List.count_eq_zero_of_not_mem
    simp
  cases req with
  | write deviceAddr regAddr data =>
    obtain ⟨bits, rfl⟩ := h
    simp [hbits]
  | read deviceAddr regAddr data =>
    obtain ⟨bits, rfl⟩ | ⟨bits, bits', rfl⟩ := h
    · simp [hbits]
    · simp [hbits]

theorem write_free (h : ¬LineLow others past) (deviceAddr : UInt8) (regAddr data : List UInt8) :
    ∃ es, (write others deviceAddr regAddr data (Bus.idle past)).2.2 = Bus.idle (past ++ es) ∧
      Disciplined (.write deviceAddr regAddr data) (symbols .idle es) := by
  have h₀ := start_free h data
  have h₁ := h₀.andThen (sendsBits_writeByte others ((deviceAddr <<< 1) ||| 0))
  have h₂ := h₁.andThen (sendsBits_writeMany others regAddr)
  have h₃ := h₂.andThen (sendsBits_writeMany others data)
  obtain ⟨bits, es, hbus, hes⟩ := h₃.finish
  exact ⟨es, hbus, bits, hes⟩

theorem read_free (h : ¬LineLow others past) (deviceAddr : UInt8) (regAddr data : List UInt8) :
    ∃ es, (read others deviceAddr regAddr data (Bus.idle past)).2.2 = Bus.idle (past ++ es) ∧
      Disciplined (.read deviceAddr regAddr data) (symbols .idle es) := by
  have h₀ := start_free h data
  have h₁ := h₀.andThen (sendsBits_writeByte others ((deviceAddr <<< 1) ||| 0))
  have h₂ := h₁.andThen (sendsBits_writeMany others regAddr)
  have haddr := sendsBits_writeByte others ((deviceAddr <<< 1) ||| 1)
  have hmany := sendsBits_readMany others
  unfold read
  simp only
  -- the repeated start is made exactly if the chain has not broken off before it
  generalize andThen (andThen (andThen _ _) _) (Transfer.writeMany others regAddr) = p at h₂ ⊢
  by_cases hok : p.1.isOk
  · obtain ⟨bits, h₃⟩ := h₂.repeatStart
    have hrepeat : andThen p Transfer.repeatStart = p.2.repeatStart := by
      unfold I2cGpio.andThen
      rw [hok]
      rfl
    rw [hrepeat]
    obtain ⟨bits', es, hbus, hes⟩ := ((h₃.andThen haddr).andThen hmany).finish
    exact ⟨es, hbus, .inr ⟨bits, bits', hes⟩⟩
  · have hskip : (andThen p Transfer.repeatStart).2 = p.2 := by
      unfold I2cGpio.andThen
      rw [eq_false_of_ne_true hok]
      rfl
    rw [← hskip] at h₂
    obtain ⟨bits, es, hbus, hes⟩ := ((h₂.andThen haddr).andThen hmany).finish
    exact ⟨es, hbus, .inl ⟨bits, hes⟩⟩

theorem run_free (h : ¬LineLow others past) (req : Request) :
    ∃ es, (req.run others (Bus.idle past)).2.2 = Bus.idle (past ++ es) ∧
      Disciplined req (symbols .idle es) := by
  cases req with
  | write deviceAddr regAddr data => exact write_free h deviceAddr regAddr data
  | read deviceAddr regAddr data => exact read_free h deviceAddr regAddr data

theorem run_low (h : LineLow others past) (req : Request) :
    (req.run others (Bus.idle past)).1 = -ebusy ∧
      (req.run others (Bus.idle past)).2.2 = Bus.idle (checked past) := by
  have herr : -ebusy ≠ 0 := by decide
  cases req with
  | write deviceAddr regAddr data =>
    unfold Request.run write
    simp only [start_low h, andThen_err herr]
    exact ⟨rfl, rfl⟩
  | read deviceAddr regAddr data =>
    unfold Request.run read
    simp only [start_low h, andThen_err herr]
    exact ⟨rfl, rfl⟩

/-- **Bus discipline.** From an idle bus, whatever the others do, a call of `Write` or of
`Read` leaves both lines released, and issues one stop exactly if it issues a start. If a
line reads low in the busy check, the call returns `-EBUSY` and has driven neither line
low; otherwise the data line changes under a high clock only as `Disciplined` says. -/
theorem bus_discipline (others : Others) (past : List Event) (req : Request) :
    ∃ es, (req.run others (Bus.idle past)).2.2 = Bus.idle (past ++ es) ∧
      (symbols .idle es).count .stop = (if .start ∈ symbols .idle es then 1 else 0) ∧
      (LineLow others past → (req.run others (Bus.idle past)).1 = -ebusy ∧
        symbols .idle es = [] ∧ .sda false ∉ es ∧ .scl false ∉ es) ∧
      (¬LineLow others past → Disciplined req (symbols .idle es)) := by
  by_cases hlow : LineLow others past
  · obtain ⟨hret, hbus⟩ := run_low hlow req
    refine ⟨[.sda true, .scl true, .delay], hbus, rfl, ?_, fun h => absurd hlow h⟩
    intro _
    refine ⟨hret, rfl, ?_, ?_⟩
    · simp
    · simp
  · obtain ⟨es, hbus, hes⟩ := run_free hlow req
    obtain ⟨hstart, hstop⟩ := disciplined_count hes
    refine ⟨es, hbus, ?_, fun h => absurd h hlow, fun _ => hes⟩
    rw [hstop, if_pos hstart]

end MyLibraries.I2cGpio
