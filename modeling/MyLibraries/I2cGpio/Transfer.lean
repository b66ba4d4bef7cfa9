import MyLibraries.I2cGpio.Bytes

/-!
# What a transfer carries

The frames on the bus during a call of `Write` or of `Read`. `Sent` is how bytes are
sent: one frame each, in order, up to the first that is not acknowledged. The functions
that the chain calls send their bytes (`Sends`), and so do two of them in a chain.
-/

namespace MyLibraries.I2cGpio

open TwoWire

variable {others : Others} {past : List Event} {ss : List Symbol} {fs gs hs : List Frame}
  {t : Transfer} {bytes bytes' : List UInt8} {func func' : Transfer → Result × Transfer}

/-- The bits that the master drives in a frame. -/
def wire (fs : List Frame) : List Symbol :=
  fs.flatMap fun f => (bitsOf f.driven ++ [f.drivenAck]).map Symbol.bit

/-- Every answer is low. -/
def acked (fs : List Frame) : Bool := fs.all fun f => !f.lineAck

/-- A frame in which the master drives a byte and releases the line for the answer. -/
def Writes (byte : UInt8) (f : Frame) : Prop := f.driven = byte ∧ f.drivenAck = true

/-- The frames of bytes sent, up to the first that is not acknowledged. -/
inductive Sent : List UInt8 → List Frame → Prop
  | done : Sent [] []
  | refused {byte : UInt8} {bytes : List UInt8} {f : Frame} : Writes byte f →
      f.lineAck = true → Sent (byte :: bytes) [f]
  | taken {byte : UInt8} {bytes : List UInt8} {f : Frame} {fs : List Frame} : Writes byte f →
      f.lineAck = false → Sent bytes fs → Sent (byte :: bytes) (f :: fs)

/-- The frames of bytes read: the master releases the line, and acknowledges all but the
last of `n`. -/
def Received (n : Nat) (fs : List Frame) : Prop :=
  ∀ i f, fs[i]? = some f → f.driven = 0xFF ∧ f.drivenAck = !decide (i + 1 < n)

/-- What a request shows on the bus, the frames in it, what it returns, and `data`. -/
inductive Transferred : Request → List Symbol → List Frame → Int → List UInt8 → Prop
  | write {addr : UInt8} {reg data : List UInt8} {fs : List Frame} :
      Sent ((addr <<< 1) :: (reg ++ data)) fs →
      Transferred (.write addr reg data) ([.start] ++ wire fs ++ [.stop]) fs
        (if acked fs then 0 else -eio) data
  | readRefused {addr : UInt8} {reg data : List UInt8} {fs : List Frame} :
      Sent ((addr <<< 1) :: reg) fs → acked fs = false →
      Transferred (.read addr reg data) ([.start] ++ wire fs ++ [.stop]) fs (-eio) data
  | readRefusedAgain {addr : UInt8} {reg data : List UInt8} {fs gs : List Frame} :
      Sent ((addr <<< 1) :: reg) fs → acked fs = true →
      Sent [(addr <<< 1) ||| 1] gs → acked gs = false →
      Transferred (.read addr reg data)
        ([.start] ++ wire fs ++ [.start] ++ wire gs ++ [.stop]) (fs ++ gs) (-eio) data
  | read {addr : UInt8} {reg data : List UInt8} {fs gs hs : List Frame} :
      Sent ((addr <<< 1) :: reg) fs → acked fs = true →
      Sent [(addr <<< 1) ||| 1] gs → acked gs = true →
      hs.length = data.length → Received data.length hs →
      Transferred (.read addr reg data)
        ([.start] ++ wire fs ++ [.start] ++ wire (gs ++ hs) ++ [.stop]) (fs ++ (gs ++ hs)) 0
        (hs.map Frame.line)

/-! ## Frames -/

theorem wire_append (fs gs : List Frame) : wire (fs ++ gs) = wire fs ++ wire gs :=
  List.flatMap_append

theorem acked_append (fs gs : List Frame) : acked (fs ++ gs) = (acked fs && acked gs) :=
  List.all_append

theorem Sent.append (h : Sent bytes fs) (hok : acked fs = true) (h' : Sent bytes' gs) :
    Sent (bytes ++ bytes') (fs ++ gs) := by
  induction h with
  | done => exact h'
  | refused hw hack => simp [acked, hack] at hok
  | taken hw hack _ ih =>
    refine Sent.taken hw hack (ih ?_)
    simpa [acked, hack] using hok

theorem Sent.broken (h : Sent bytes fs) (hok : acked fs = false) (bytes' : List UInt8) :
    Sent (bytes ++ bytes') fs := by
  induction h with
  | done => cases hok
  | refused hw hack => exact Sent.refused hw hack
  | taken hw hack _ ih =>
    refine Sent.taken hw hack (ih ?_)
    simpa [acked, hack] using hok

/-! ## Bytes of a started transfer -/

/-- A started transfer has shown `ss` in whole frames `fs`, and the clock is low. -/
structure OnWire (others : Others) (past : List Event) (ss : List Symbol) (fs : List Frame)
    (t : Transfer) : Prop where
  started : t.started = true
  low : ∃ a, At past ss ⟨a, .low⟩ t.bus
  whole : (sampled others past t.bus).length = 9 * fs.length
  carried : frames (sampled others past t.bus) = fs

/-- One more frame. -/
theorem OnWire.frame {byte : UInt8} {line : List Bool} {ack lineAck : Bool} {bus : Bus}
    (h : OnWire others past ss fs t) (data : List UInt8) (hline : line.length = 8)
    (hat : At past (ss ++ (bitsOf byte ++ [ack]).map Symbol.bit) ⟨true, .low⟩ bus)
    (hsampled : sampled others past bus =
      sampled others past t.bus ++ ((bitsOf byte).zip line ++ [(ack, lineAck)])) :
    OnWire others past (ss ++ wire [⟨byte, byteOf line, ack, lineAck⟩])
      (fs ++ [⟨byte, byteOf line, ack, lineAck⟩]) { t with bus, data } := by
  have hbits : (bitsOf byte).length = 8 := List.length_map _
  refine ⟨h.started, ⟨true, hat⟩, ?_, ?_⟩
  · rw [hsampled, List.length_append, h.whole, List.length_append, List.length_zip, hbits,
      hline, List.length_append]
    simp only [List.length_singleton]
    omega
  · rw [hsampled, frames_append h.whole, h.carried, frames_one hbits hline, byteOf_bitsOf]

theorem OnWire.writeByte (h : OnWire others past ss fs t) (byte : UInt8) :
    ∃ f, Writes byte f ∧ (t.bus.writeByte others byte).1 = f.lineAck.toUInt16 ∧
      OnWire others past (ss ++ wire [f]) (fs ++ [f])
        { t with bus := (t.bus.writeByte others byte).2 } := by
  obtain ⟨a, hat⟩ := h.low
  obtain ⟨line, ack, hline, hret, hsampled⟩ := writeByte_sampled others byte hat
  have hat' := writeByte_at others byte hat
  exact ⟨⟨byte, byteOf line, true, ack⟩, ⟨rfl, rfl⟩, hret,
    h.frame t.data hline hat' hsampled⟩

theorem OnWire.readByte (h : OnWire others past ss fs t) (ack : Bool) :
    ∃ f : Frame, f.driven = 0xFF ∧ f.drivenAck = !ack ∧
      (t.bus.readByte others ack).1 = f.line.toUInt16 ∧
      ∀ data, OnWire others past (ss ++ wire [f]) (fs ++ [f])
        { t with bus := (t.bus.readByte others ack).2, data } := by
  obtain ⟨a, hat⟩ := h.low
  obtain ⟨line, lineAck, hline, hret, hsampled⟩ := readByte_sampled others ack hat
  have hat' := readByte_at others ack hat
  have hbits : List.replicate 8 true = bitsOf 0xFF := by decide
  rw [hbits] at hat' hsampled
  exact ⟨⟨0xFF, byteOf line, !ack, lineAck⟩, rfl, rfl, hret,
    fun data => h.frame data hline hat' hsampled⟩

/-! ## The chain -/

/-- The function sends the bytes, and succeeds if all are acknowledged. -/
def Sends (others : Others) (bytes : List UInt8) (func : Transfer → Result × Transfer) : Prop :=
  ∀ past ss fs t, OnWire others past ss fs t → ∃ gs, Sent bytes gs ∧
    OnWire others past (ss ++ wire gs) (fs ++ gs) (func t).2 ∧
    (func t).1 = (if acked gs then .ok else .err (-eio)) ∧ (func t).2.data = t.data

theorem ack_zero (ack : Bool) : ack.toUInt16 ≠ 0 ↔ ack = true := by
  cases ack <;> decide

theorem sends_writeByte (others : Others) (byte : UInt8) :
    Sends others [byte] (Transfer.writeByte others byte) := by
  intro past ss fs t h
  obtain ⟨f, hf, hret, h'⟩ := h.writeByte byte
  unfold Transfer.writeByte
  simp only [hret]
  by_cases hack : f.lineAck = true
  · rw [if_pos ((ack_zero _).mpr hack)]
    exact ⟨[f], Sent.refused hf hack, h', by simp [acked, hack], rfl⟩
  · rw [if_neg fun hne => hack ((ack_zero _).mp hne)]
    have hlow : f.lineAck = false := eq_false_of_ne_true hack
    exact ⟨[f], Sent.taken hf hlow Sent.done, h', by simp [acked, hlow], rfl⟩

/-- Two functions in a chain send the bytes of both. -/
theorem Sends.andThen (h : Sends others bytes func) (h' : Sends others bytes' func') :
    Sends others (bytes ++ bytes') fun t => andThen (func t) func' := by
  intro past ss fs t hon
  obtain ⟨gs, hsent, hgs, hret, hdata⟩ := h past ss fs t hon
  obtain ⟨r, t', hfunc⟩ : ∃ r t', func t = (r, t') := ⟨_, _, rfl⟩
  rw [hfunc] at hgs hret hdata
  cases hok : acked gs with
  | true =>
    rw [hok] at hret
    obtain rfl : r = .ok := hret
    obtain ⟨gs', hsent', hgs', hret', hdata'⟩ := h' past _ _ t' hgs
    refine ⟨gs ++ gs', hsent.append hok hsent', ?_⟩
    simp only [hfunc, andThen_ok]
    rw [wire_append, acked_append, hok, Bool.true_and, ← List.append_assoc,
      ← List.append_assoc]
    exact ⟨hgs', hret', hdata'.trans hdata⟩
  | false =>
    rw [hok] at hret
    obtain rfl : r = .err (-eio) := hret
    have herr : I2cGpio.andThen (.err (-eio), t') func' = (.err (-eio), t') :=
      andThen_err (by decide)
    refine ⟨gs, hsent.broken hok bytes', ?_⟩
    simp only [hfunc, herr, hok]
    exact ⟨hgs, rfl, hdata⟩

theorem sends_writeMany (others : Others) (buffer : List UInt8) :
    Sends others buffer (Transfer.writeMany others buffer) := by
  induction buffer with
  | nil =>
    intro past ss fs t h
    refine ⟨[], Sent.done, ?_, rfl, rfl⟩
    have hwire : ss ++ wire [] = ss := List.append_nil _
    rw [List.append_nil, hwire]
    exact h
  | cons byte buffer ih =>
    have hchain := (sends_writeByte others byte).andThen ih
    intro past ss fs t h
    have hstep : Transfer.writeMany others (byte :: buffer) t =
        andThen (Transfer.writeByte others byte t) (Transfer.writeMany others buffer) := by
      unfold Transfer.writeMany Transfer.writeByte
      simp only
      split
      · exact (andThen_err (by decide)).symm
      · exact andThen_ok.symm
    rw [hstep]
    exact hchain past ss fs t h

theorem OnWire.repeatStart (h : OnWire others past ss fs t) :
    OnWire others past (ss ++ [.start]) fs (t.repeatStart).2 := by
  obtain ⟨a, hat⟩ := h.low
  have hsame : sampled others past (t.repeatStart).2.bus = sampled others past t.bus :=
    repeatStartCondition_sampled others hat
  refine ⟨h.started, ⟨false, repeatStartCondition_at hat⟩, ?_, ?_⟩
  · rw [hsame]
    exact h.whole
  · rw [hsame]
    exact h.carried

/-- The rounds of `readMany` before the `k`-th. -/
theorem OnWire.readRounds {n k : Nat} (h : OnWire others past ss fs t) (hlen : t.data.length = n)
    (hk : k ≤ n) : ∃ hs, hs.length = k ∧ Received n hs ∧
      OnWire others past (ss ++ wire hs) (fs ++ hs)
        ((List.range k).foldl (Transfer.readAt others n) t) ∧
      ((List.range k).foldl (Transfer.readAt others n) t).data =
        hs.map Frame.line ++ t.data.drop k := by
  induction k with
  | zero =>
    refine ⟨[], rfl, ?_, ?_, rfl⟩
    · intro i f hf
      cases hf
    · rw [List.append_nil]
      simpa [wire] using h
  | succ k ih =>
    obtain ⟨hs, hcount, hreceived, hon, hdata⟩ := ih (Nat.le_of_succ_le hk)
    rw [List.range_succ, List.foldl_append]
    generalize (List.range k).foldl (Transfer.readAt others n) t = t' at hon hdata ⊢
    obtain ⟨f, hdriven, hack, hret, hframe⟩ := hon.readByte (decide (k + 1 < n))
    have hround : [k].foldl (Transfer.readAt others n) t' =
        { t' with bus := (t'.bus.readByte others (decide (k + 1 < n))).2,
                  data := t'.data.set k f.line } := by
      rw [List.foldl_cons, List.foldl_nil, Transfer.readAt]
      simp only [hret, UInt8.toUInt8_toUInt16]
    rw [hround]
    refine ⟨hs ++ [f], ?_, ?_, ?_, ?_⟩
    · rw [List.length_append, hcount, List.length_singleton]
    · intro i g hg
      by_cases hi : i < hs.length
      · rw [List.getElem?_append_left hi] at hg
        exact hreceived i g hg
      · rw [List.getElem?_append_right (by omega), List.getElem?_singleton] at hg
        split at hg
        · obtain rfl : f = g := Option.some.inj hg
          obtain rfl : i = k := by omega
          exact ⟨hdriven, hack⟩
        · cases hg
    · rw [wire_append, ← List.append_assoc, ← List.append_assoc]
      exact hframe _
    · have hrest : t.data.drop k = t.data[k] :: t.data.drop (k + 1) :=
        List.drop_eq_getElem_cons (by omega)
      show t'.data.set k f.line = _
      rw [hdata, List.set_append_right _ _ (by rw [List.length_map]; omega), hrest,
        List.length_map, hcount, Nat.sub_self, List.set_cons_zero, List.map_append,
        List.append_assoc]
      rfl

theorem OnWire.readMany (h : OnWire others past ss fs t) :
    ∃ hs, hs.length = t.data.length ∧ Received t.data.length hs ∧
      OnWire others past (ss ++ wire hs) (fs ++ hs) (t.readMany others).2 ∧
      (t.readMany others).1 = .ok ∧ (t.readMany others).2.data = hs.map Frame.line := by
  obtain ⟨hs, hlen, hreceived, hon, hdata⟩ := h.readRounds rfl (Nat.le_refl _)
  refine ⟨hs, hlen, hreceived, hon, rfl, ?_⟩
  rw [List.drop_length, List.append_nil] at hdata
  exact hdata

/-- A started transfer ends in a stop. -/
theorem OnWire.finish (h : OnWire others past ss fs t) (r : Result) :
    ∃ es, Transfer.finish (r, t) =
        (if r.isOk then 0 else r.error, t.data, Bus.idle (past ++ es)) ∧
      symbols .idle es = ss ++ [.stop] ∧
      (pulses others.sda .idle past es).length = 9 * fs.length ∧
      frames (pulses others.sda .idle past es) = fs := by
  obtain ⟨a, hat⟩ := h.low
  obtain ⟨es, hbus, hes⟩ := (stopCondition_at hat).bus_eq
  have hsame := stopCondition_sampled others hat
  rw [hbus, sampled, Bus.idle, List.drop_left] at hsame
  refine ⟨es, ?_, hes, ?_, ?_⟩
  · rw [← hbus]
    unfold Transfer.finish
    simp only [h.started, if_true]
    cases r.isOk with
    | true => rfl
    | false => rfl
  · rw [hsame]
    exact h.whole
  · rw [hsame]
    exact h.carried

/-- A transfer that has shown what the request asks for on the bus, up to the stop. -/
theorem OnWire.transferred {req : Request} (h : OnWire others past ss fs t) (r : Result)
    (hreq : Transferred req (ss ++ [.stop]) fs (if r.isOk then 0 else r.error) t.data) :
    ∃ es fs ret data', Transfer.finish (r, t) = (ret, data', Bus.idle (past ++ es)) ∧
      (pulses others.sda .idle past es).length = 9 * fs.length ∧
      frames (pulses others.sda .idle past es) = fs ∧
      Transferred req (symbols .idle es) fs ret data' := by
  obtain ⟨es, hfinish, hsymbols, hwhole, hframes⟩ := h.finish r
  refine ⟨es, fs, _, _, hfinish, hwhole, hframes, ?_⟩
  rw [hsymbols]
  exact hreq

/-! ## Requests -/

/-- The start of an idle bus whose lines read high. -/
theorem start_onWire (h : ¬LineLow others past) (data : List UInt8) :
    ∃ t, andThen (.ok, { bus := Bus.idle past, started := false, data })
        (Transfer.start others) = (.ok, t) ∧ t.data = data ∧
      OnWire others past [.start] [] t := by
  obtain ⟨b, hstart, hat⟩ := startCondition_free others h
  have hnone := startCondition_sampled others h
  rw [hstart] at hnone
  refine ⟨{ bus := b, started := true, data }, ?_, rfl, rfl, ⟨false, hat⟩, ?_, ?_⟩
  · rw [andThen_ok, Transfer.start, hstart]
    rfl
  · rw [hnone]
    rfl
  · rw [hnone]
    rfl

theorem write_transferred (h : ¬LineLow others past) (addr : UInt8) (reg data : List UInt8) :
    ∃ es fs ret data', write others addr reg data (Bus.idle past) =
        (ret, data', Bus.idle (past ++ es)) ∧
      (pulses others.sda .idle past es).length = 9 * fs.length ∧
      frames (pulses others.sda .idle past es) = fs ∧
      Transferred (.write addr reg data) (symbols .idle es) fs ret data' := by
  obtain ⟨t, hstart, hdata, hon⟩ := start_onWire h data
  have hchain := ((sends_writeByte others (addr <<< 1)).andThen
    (sends_writeMany others reg)).andThen (sends_writeMany others data)
  obtain ⟨fs, hsent, hfs, hret, hdata'⟩ := hchain past _ _ t hon
  beta_reduce at hfs hret hdata'
  rw [List.nil_append] at hfs
  rw [List.append_assoc, List.singleton_append] at hsent
  have hzero : (addr <<< 1) ||| (0 : UInt8) = addr <<< 1 := UInt8.or_zero
  unfold write
  simp only [hstart, andThen_ok, hzero]
  generalize I2cGpio.andThen (I2cGpio.andThen _ _) (Transfer.writeMany others data) = p
    at hfs hret hdata' ⊢
  obtain ⟨r, t'⟩ := p
  have hkept : t'.data = data := hdata'.trans hdata
  have hend : (if r.isOk then 0 else r.error) = if acked fs then 0 else -eio := by
    rw [show r = if acked fs then .ok else .err (-eio) from hret]
    cases acked fs with
    | true => rfl
    | false => rfl
  apply hfs.transferred r
  rw [hend, hkept]
  exact Transferred.write hsent

theorem read_transferred (h : ¬LineLow others past) (addr : UInt8) (reg data : List UInt8) :
    ∃ es fs ret data', read others addr reg data (Bus.idle past) =
        (ret, data', Bus.idle (past ++ es)) ∧
      (pulses others.sda .idle past es).length = 9 * fs.length ∧
      frames (pulses others.sda .idle past es) = fs ∧
      Transferred (.read addr reg data) (symbols .idle es) fs ret data' := by
  obtain ⟨t, hstart, hdata, hon⟩ := start_onWire h data
  have hchain := (sends_writeByte others (addr <<< 1)).andThen (sends_writeMany others reg)
  obtain ⟨fs, hsent, hfs, hret, hdata₁⟩ := hchain past _ _ t hon
  beta_reduce at hfs hret hdata₁
  rw [List.nil_append] at hfs
  have hzero : (addr <<< 1) ||| (0 : UInt8) = addr <<< 1 := UInt8.or_zero
  have herr : -eio ≠ 0 := by decide
  unfold read
  simp only [hstart, andThen_ok, hzero]
  generalize I2cGpio.andThen _ (Transfer.writeMany others reg) = p at hfs hret hdata₁ ⊢
  obtain ⟨r₁, t₁⟩ := p
  cases hok : acked fs with
  | false =>
    rw [hok] at hret
    obtain rfl : r₁ = ⟨-eio⟩ := hret
    have hkept : t₁.data = data := hdata₁.trans hdata
    simp only [andThen_err herr]
    apply hfs.transferred ⟨-eio⟩
    rw [hkept]
    exact Transferred.readRefused hsent hok
  | true =>
    rw [hok] at hret
    obtain rfl : r₁ = .ok := hret
    obtain ⟨gs, hsent₂, hgs, hret₂, hdata₂⟩ :=
      sends_writeByte others ((addr <<< 1) ||| 1) past _ _ _ hfs.repeatStart
    have hrepeat : andThen (.ok, t₁) Transfer.repeatStart = (.ok, t₁.repeatStart.2) := rfl
    simp only [hrepeat, andThen_ok]
    generalize Transfer.writeByte others ((addr <<< 1) ||| 1) t₁.repeatStart.2 = p
      at hgs hret₂ hdata₂ ⊢
    obtain ⟨r₂, t₂⟩ := p
    have hkept : t₂.data = data := (hdata₂.trans hdata₁).trans hdata
    cases hok₂ : acked gs with
    | false =>
      rw [hok₂] at hret₂
      obtain rfl : r₂ = ⟨-eio⟩ := hret₂
      simp only [andThen_err herr]
      apply hgs.transferred ⟨-eio⟩
      rw [hkept]
      exact Transferred.readRefusedAgain hsent hok hsent₂ hok₂
    | true =>
      rw [hok₂] at hret₂
      obtain rfl : r₂ = .ok := hret₂
      obtain ⟨hs, hlen, hreceived, hhs, hret₃, hread⟩ := OnWire.readMany hgs
      rw [hkept] at hlen hreceived
      rw [andThen_ok]
      generalize Transfer.readMany others t₂ = p at hhs hret₃ hread ⊢
      obtain ⟨r₃, t₃⟩ := p
      obtain rfl : r₃ = .ok := hret₃
      apply hhs.transferred .ok
      rw [hread, List.append_assoc _ gs hs, List.append_assoc _ (wire gs) (wire hs),
        ← wire_append]
      exact Transferred.read hsent hok hsent₂ hok₂ hlen hreceived

/-- **Transfers carry their bytes.** On an idle bus whose lines read high in the busy
check, whatever the others do: the pulses of a call come in frames of nine, and the
frames, the return value and `data` are those of the request. -/
theorem transfer_bytes (others : Others) (past : List Event) (hidle : ¬LineLow others past)
    (req : Request) :
    ∃ es fs ret data', req.run others (Bus.idle past) = (ret, data', Bus.idle (past ++ es)) ∧
      (pulses others.sda .idle past es).length = 9 * fs.length ∧
      frames (pulses others.sda .idle past es) = fs ∧
      Transferred req (symbols .idle es) fs ret data' := by
  cases req with
  | write addr reg data => exact write_transferred hidle addr reg data
  | read addr reg data => exact read_transferred hidle addr reg data

/-- A device that holds the line low from the 40th event on acknowledges all and is read
as zeros. -/
theorem transfer_bytes_low : ∃ es fs ret data',
    (Request.read 0x50 [0x01] [7]).run ⟨fun past => decide (past.length < 40), fun _ => true⟩
        (Bus.idle []) = (ret, data', Bus.idle ([] ++ es)) ∧
      (pulses (fun past => decide (past.length < 40)) .idle [] es).length = 9 * fs.length ∧
      frames (pulses (fun past => decide (past.length < 40)) .idle [] es) = fs ∧
      Transferred (.read 0x50 [0x01] [7]) (symbols .idle es) fs ret data' :=
  transfer_bytes ⟨fun past => decide (past.length < 40), fun _ => true⟩ [] (by decide)
    (.read 0x50 [0x01] [7])

end MyLibraries.I2cGpio
