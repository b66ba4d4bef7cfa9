import MyLibraries.Mfrc522.Order

/-!
# Replies of the card and the buffers they go to

`mfrc_to_card` copies as many bytes as the chip has in its FIFO, but at least one and at
most `MFRC522_SN_LEN`, which is 16. The arrays of `mfrc_operate` and the buffer of
`mfrc_write` have room for them; the 9 bytes of `mfrc_select_tag` and the 4 bytes of
`mfrc_sleep` have not. These two calls send as many bytes as their buffers have, and in the
calls of either function no other command is as long, so a write outside of a buffer shows
in the level that the chip gives for a reply (`operate_in_bounds_iff`).
-/

namespace MyLibraries.Mfrc522

open Device

/-- The address under which `read_reg` reads the FIFO level. -/
def levelAddr : UInt8 := writeAddr regFifoLevel ||| 0x80

/-- The last access was a look at the error register: the level is read next for a reply. -/
def ReplyNext (t : Trace) : Prop :=
  ∃ t' error, t = t' ++ [.read (writeAddr regError ||| 0x80) error]

/-- If the access reads the level of the reply to a command of `m` bytes, that is at most
`m`. -/
def Fits (m : Nat) : Access UInt8 UInt8 → Trace → Prop
  | .read reg n, t => reg = levelAddr → ReplyNext t → (fifo t).length = m → n.toNat ≤ m
  | .write _ _, _ => True

/-- The program neither faults nor reads the level. -/
def Calm {α : Type} (p : Io α) : Prop := Total p ∧ Reads (· ≠ levelAddr) p

/-- The program leaves the bytes in the FIFO. -/
def Keeps {α : Type} (p : Io α) : Prop :=
  Writes (fun reg _ => reg ≠ writeAddr regFifoLevel ∧ reg ≠ writeAddr regFifoData) p

/-- The buffer of a command of `n` bytes has room for any reply, or has as many bytes, `m`. -/
def Room (m k n : Nat) : Prop := (n = m → k = m) ∧ (n ≠ m → 16 ≤ k)

variable {α β : Type} {k m : Nat} {h t : Trace} {c : Call} {p : Io α} {a : α}
  {reg val mask bits irqEn waitIrq command : UInt8} {sendData : List UInt8} {status : Status}
  {backData : Vector UInt8 k} {o : Option α}

theorem room_self (m : Nat) : Room m m m := ⟨fun _ => rfl, fun hne => absurd rfl hne⟩

theorem room_of_ne {n : Nat} (hne : n ≠ m) (hk : 16 ≤ k) : Room m k n :=
  ⟨fun heq => absurd heq hne, fun _ => hk⟩

/-! ## Programs that take no reply -/

theorem Calm.faultsUnless (hp : Calm p) (h : Trace) : FaultsUnless (Fits m) h p := by
  refine hp.1.faultsUnless fun t a hd x pre post heq => ?_
  cases x with
  | write reg val => trivial
  | read reg val =>
    intro hreg
    have hmem : .read reg val ∈ t := by
      rw [heq]
      simp
    exact absurd hreg (hd.reads hp.2 reg val hmem)

theorem calm_bind {f : α → Io β} (hp : Calm p) (hf : ∀ a, Calm (f a)) : Calm (p >>= f) :=
  ⟨total_bind hp.1 fun a => (hf a).1, reads_bind hp.2 fun a => (hf a).2⟩

theorem calm_pure (a : α) : Calm (pure a : Io α) := ⟨trivial, trivial⟩

theorem calm_writeReg : Calm (writeReg reg val) := ⟨trivial, trivial⟩

theorem calm_readReg (hreg : writeAddr reg ||| 0x80 ≠ levelAddr) : Calm (readReg reg) :=
  ⟨fun _ => trivial, hreg, fun _ => trivial⟩

theorem calm_setBitMask (hreg : writeAddr reg ||| 0x80 ≠ levelAddr) :
    Calm (setBitMask reg mask) :=
  calm_bind (calm_readReg hreg) fun _ => calm_writeReg

theorem calm_clearBitMask (hreg : writeAddr reg ||| 0x80 ≠ levelAddr) :
    Calm (clearBitMask reg mask) :=
  calm_bind (calm_readReg hreg) fun _ => calm_writeReg

theorem calm_sendFifo (bytes : List UInt8) : Calm (sendFifo bytes) := by
  induction bytes with
  | nil => exact calm_pure ()
  | cons byte bytes ih => exact calm_bind calm_writeReg fun _ => ih

theorem calm_waitBits (hreg : writeAddr reg ||| 0x80 ≠ levelAddr) (bits : UInt8) (i : Nat) :
    Calm (waitBits reg bits i) := by
  induction i with
  | zero => exact calm_bind (calm_readReg hreg) fun n => calm_pure (n, 0)
  | succ i ih =>
    refine calm_bind (calm_readReg hreg) fun n => ?_
    split
    · exact ih
    · exact calm_pure (n, i + 1)

theorem calm_startSend : Calm (startSend command) := by
  unfold startSend
  split
  · exact calm_setBitMask (by decide)
  · exact calm_pure ()

theorem calm_txEnable : Calm txEnable := by
  refine calm_bind (calm_readReg (by decide)) fun val => ?_
  split
  · exact calm_setBitMask (by decide)
  · exact calm_pure ()

theorem calm_restart (rxGain : UInt8) : Calm (restart rxGain) := by
  iterate 8 refine calm_bind calm_writeReg fun _ => ?_
  exact calm_clearBitMask (by decide)

/-! ## The bytes in the FIFO -/

theorem Keeps.fifo (hp : Keeps p) (hd : Does p t a) (h : Trace) : fifo (h ++ t) = fifo h := by
  have hkeeps : ∀ x ∈ t, ∀ bytes, fifoStep bytes x = bytes := by
    intro x hx bytes
    cases x with
    | read reg val => rfl
    | write reg val =>
      obtain ⟨hlevel, hdata⟩ := hd.writes hp reg val hx
      rw [fifoStep, if_neg fun heq => hlevel heq.1, if_neg hdata]
  rw [fifo_append]
  generalize Mfrc522.fifo h = bytes
  clear hd
  induction t with
  | nil => rfl
  | cons x t ih =>
    rw [List.foldl_cons, hkeeps x (List.mem_cons_self ..)]
    exact ih fun y hy => hkeeps y (List.mem_cons_of_mem x hy)

theorem keeps_writeReg (hlevel : writeAddr reg ≠ writeAddr regFifoLevel)
    (hdata : writeAddr reg ≠ writeAddr regFifoData) : Keeps (writeReg reg val) :=
  ⟨⟨hlevel, hdata⟩, trivial⟩

theorem keeps_readReg : Keeps (readReg reg) := fun _ => trivial

theorem keeps_waitBits (bits : UInt8) (i : Nat) : Keeps (waitBits reg bits i) := by
  induction i with
  | zero => exact writes_bind keeps_readReg fun n => writes_pure
  | succ i ih =>
    refine writes_bind keeps_readReg fun n => ?_
    split
    · exact ih
    · exact writes_pure

theorem keeps_startSend : Keeps (startSend command) := by
  unfold startSend
  split
  · exact writes_bind keeps_readReg fun _ => keeps_writeReg (by decide) (by decide)
  · exact writes_pure

theorem keeps_clearStart : Keeps (clearBitMask regBitFraming 0x80) :=
  writes_bind keeps_readReg fun _ => keeps_writeReg (by decide) (by decide)

/-! ## A reply -/

/-- The copy stays in the buffer as long as there is room. -/
theorem readFifo_ends {left i : Nat} {o : Option (Vector UInt8 k)} (hi : i ≤ k)
    (hend : Ends (readFifo left i backData) t o) :
    (o ≠ none ↔ i + left ≤ k) ∧ ∀ n, .read levelAddr n ∉ t := by
  induction left generalizing i backData t with
  | zero =>
    obtain ⟨rfl, rfl⟩ := hend
    exact ⟨iff_of_true (Option.some_ne_none _) hi, fun n => List.not_mem_nil⟩
  | succ left ih =>
    rcases ends_bind.mp hend with ⟨⟨_, _, _, hfault⟩, -⟩ | ⟨t₁, t₂, v, rfl, hd, hend⟩
    · cases hfault.2
    · rw [does_readReg] at hd
      have hdata : ∀ n, .read levelAddr n ∉ t₁ := by
        intro n hn
        rw [hd, List.mem_singleton] at hn
        cases hn
      split at hend
      · rename_i hlt
        obtain ⟨hiff, hlevel⟩ := ih hlt hend
        refine ⟨by rw [hiff]; omega, fun n hn => ?_⟩
        rcases List.mem_append.mp hn with hn | hn
        · exact hdata n hn
        · exact hlevel n hn
      · rename_i hge
        obtain ⟨rfl, rfl⟩ := hend
        refine ⟨iff_of_false (fun hne => hne rfl) (by omega), fun n hn => ?_⟩
        rw [List.append_nil] at hn
        exact hdata n hn

/-- A level that is read for a reply, and no other behind it. -/
theorem fits_reply {n : UInt8} (hnext : ReplyNext h) (hrest : ∀ n, .read levelAddr n ∉ t) :
    (∀ x, Whenever h x (Fits m x) (.read levelAddr n :: t)) ↔
      ((fifo h).length = m → n.toNat ≤ m) := by
  constructor
  · intro hall
    have hfits := hall (.read levelAddr n) [] t rfl
    rw [List.append_nil] at hfits
    exact hfits rfl hnext
  · intro hle x pre post heq
    cases x with
    | write reg val => trivial
    | read reg val =>
      intro hreg hnext' hlen
      rcases List.cons_eq_append_iff.mp heq with ⟨rfl, hhead⟩ | ⟨pre', rfl, htail⟩
      · cases hhead
        rw [List.append_nil] at hlen
        exact hle hlen
      · rw [hreg] at htail
        refine absurd ?_ (hrest val)
        rw [htail]
        simp

/-- How many bytes are copied. -/
theorem count_toNat (n : UInt8) :
    (if (if n = 0 then 1 else n) > 16 then 16 else if n = 0 then 1 else n).toNat =
      min (max n.toNat 1) 16 := by
  have hall : ∀ n < 256, (if (if UInt8.ofNat n = 0 then 1 else UInt8.ofNat n) > 16 then 16 else
      if UInt8.ofNat n = 0 then 1 else UInt8.ofNat n).toNat = min (max n 1) 16 := by
    decide +kernel
  have hn := hall n.toNat n.toNat_lt
  rwa [UInt8.ofNat_toNat] at hn

/-- **A reply** to a command whose bytes fill the buffer stays in it if it is not longer than
the command; a buffer of 16 bytes has room for any. -/
theorem faultsUnless_takeReply (hm : 0 < m ∧ m < 16) (hnext : ReplyNext h)
    (hroom : Room m k (fifo h).length) :
    FaultsUnless (Fits m) h (takeReply status backData) := by
  intro t o hend
  rcases ends_bind.mp hend with ⟨⟨_, _, _, hfault⟩, -⟩ | ⟨t₁, t, n, rfl, hlevel, hend⟩
  · cases hfault.2
  rcases ends_bind.mp hend with ⟨⟨_, _, _, hfault⟩, -⟩ | ⟨t₂, t, control, rfl, hcontrol, hend⟩
  · cases hfault.2
  rw [does_readReg] at hlevel hcontrol
  rw [hlevel, hcontrol]
  have hcopy : ∃ o', Ends (readFifo (if (if n = 0 then 1 else n) > 16 then 16 else
      if n = 0 then 1 else n).toNat 0 backData) t o' ∧ (o ≠ none ↔ o' ≠ none) := by
    rcases ends_bind.mp hend with ⟨hfault, rfl⟩ | ⟨t₃, t₄, data, rfl, hd, rfl, rfl⟩
    · exact ⟨none, hfault, iff_of_false (fun hne => hne rfl) fun hne => hne rfl⟩
    · rw [List.append_nil]
      exact ⟨some data, ends_some.mpr hd, by simp⟩
  obtain ⟨o', hend', ho⟩ := hcopy
  obtain ⟨hcopied, hquiet⟩ := readFifo_ends (Nat.zero_le k) hend'
  have hlater : ∀ v, .read levelAddr v ∉ [.read (writeAddr regControl ||| 0x80) control] ++ t := by
    intro v hv
    rcases List.mem_append.mp hv with hv | hv
    · rw [List.mem_singleton] at hv
      cases hv
    · exact hquiet v hv
  have hfits := @fits_reply m h _ n hnext hlater
  rw [ho, hcopied, count_toNat]
  refine Iff.trans ?_ hfits.symm
  by_cases hlen : (fifo h).length = m
  · rw [hroom.1 hlen]
    omega
  · have := hroom.2 hlen
    omega

/-! ## A transmission -/

/-- The level that a flush reads, right behind a write, is not that of a reply. -/
theorem faultsUnless_flush (hwrite : ∃ h' reg val, h = h' ++ [.write reg val]) :
    FaultsUnless (Fits m) h (setBitMask regFifoLevel 0x80) := by
  refine faultsUnless_bind ?_ fun t val hd => calm_writeReg.faultsUnless _
  have htotal : Total (readReg regFifoLevel) := fun _ => trivial
  refine htotal.faultsUnless fun t a hd x pre post heq => ?_
  rw [does_readReg] at hd
  cases x with
  | write reg val => trivial
  | read reg val =>
    rintro - ⟨t', error, hnext⟩
    have hpre : pre = [] := by
      rw [hd] at heq
      cases pre with
      | nil => rfl
      | cons y pre => simp at heq
    obtain ⟨h', reg', val', rfl⟩ := hwrite
    rw [hpre, List.append_nil] at hnext
    have hlast := congrArg List.getLast? hnext
    simp at hlast

theorem exists_write (h t : Trace) (hd : Does (clearBitMask reg mask) t ()) :
    ∃ h' r v, h ++ t = h' ++ [.write r v] := by
  obtain ⟨v, rfl⟩ := does_clearBitMask hd
  exact ⟨h ++ [.read (writeAddr reg ||| 0x80) v], writeAddr reg, v &&& ~~~mask, by simp⟩

theorem faultsUnless_fillFifo (h : Trace) :
    FaultsUnless (Fits m) h (fillFifo irqEn sendData) := by
  refine faultsUnless_bind (calm_writeReg.faultsUnless _) fun t₁ _ h₁ => ?_
  refine faultsUnless_bind ((calm_clearBitMask (by decide)).faultsUnless _) fun t₂ _ h₂ => ?_
  refine faultsUnless_bind (faultsUnless_flush (exists_write _ _ h₂)) fun t₃ _ h₃ => ?_
  exact (calm_bind calm_writeReg fun _ => calm_sendFifo sendData).faultsUnless _

/-- What follows the write of the command, with the bytes of the command in the FIFO. -/
theorem faultsUnless_finish (hm : 0 < m ∧ m < 16)
    (hroom : command = pcdTransceive → Room m k (fifo h).length) :
    FaultsUnless (Fits m) h (finish command irqEn waitIrq backData) := by
  refine faultsUnless_bind (calm_startSend.faultsUnless _) fun t₁ _ h₁ => ?_
  refine faultsUnless_bind ((calm_waitBits (by decide) _ _).faultsUnless _) fun t₂ r h₂ => ?_
  refine faultsUnless_bind ((calm_clearBitMask (by decide)).faultsUnless _) fun t₃ _ h₃ => ?_
  split
  · exact (calm_pure _).faultsUnless _
  · refine faultsUnless_bind ((calm_readReg (by decide)).faultsUnless _) fun t₄ error h₄ => ?_
    split
    · exact (calm_pure _).faultsUnless _
    · dsimp only
      split
      · rename_i hcommand
        have hfifo : fifo (h ++ t₁ ++ t₂ ++ t₃ ++ t₄) = fifo h := by
          rw [keeps_readReg.fifo h₄, keeps_clearStart.fifo h₃, (keeps_waitBits _ _).fifo h₂,
            keeps_startSend.fifo h₁]
        rw [does_readReg] at h₄
        refine faultsUnless_takeReply hm ⟨_, error, by rw [h₄]⟩ ?_
        rw [hfifo]
        exact hroom hcommand
      · exact (calm_pure _).faultsUnless _

/-- **A transmission** from a list and into a buffer. -/
theorem faultsUnless_toCard (hm : 0 < m ∧ m < 16)
    (hroom : command = pcdTransceive → Room m k sendData.length) (h : Trace) :
    FaultsUnless (Fits m) h (toCard command sendData backData) := by
  have hexchange (irqEn waitIrq : UInt8) :
      FaultsUnless (Fits m) h (exchange command irqEn waitIrq sendData backData) := by
    refine faultsUnless_bind (faultsUnless_fillFifo h) fun t₁ _ h₁ => ?_
    refine faultsUnless_bind (calm_writeReg.faultsUnless _) fun t₂ _ h₂ => ?_
    have hfifo : fifo (h ++ t₁ ++ t₂) = sendData := by
      rw [(keeps_writeReg (by decide) (by decide)).fifo h₂, fifo_fillFifo h₁ h]
    apply faultsUnless_finish hm
    rwa [hfifo]
  unfold toCard
  split
  · exact hexchange 0x12 0x10
  · split
    · exact hexchange 0x77 0x30
    · exact (calm_pure _).faultsUnless h

theorem faultsUnless_calcCrc (inData : List UInt8) (h : Trace) :
    FaultsUnless (Fits m) h (calcCrc inData) := by
  refine faultsUnless_bind ((calm_clearBitMask (by decide)).faultsUnless _) fun t₁ _ h₁ => ?_
  refine faultsUnless_bind (faultsUnless_flush (exists_write _ _ h₁)) fun t₂ _ h₂ => ?_
  refine Calm.faultsUnless ?_ _
  refine calm_bind (calm_sendFifo inData) fun _ => calm_bind calm_writeReg fun _ => ?_
  refine calm_bind (calm_waitBits (by decide) _ _) fun _ => ?_
  exact calm_bind (calm_readReg (by decide)) fun low =>
    calm_bind (calm_readReg (by decide)) fun high => calm_pure _

/-! ## The calls of `mfrc_operate` -/

theorem faultsUnless_request (tag : Vector UInt8 16) (h : Trace) :
    FaultsUnless (Fits 9) h (request val tag) := by
  refine faultsUnless_bind (calm_writeReg.faultsUnless _) fun t₁ _ _ => ?_
  refine faultsUnless_bind (faultsUnless_toCard (by decide) (fun _ => ?_) _) fun _ _ _ => ?_
  · exact room_of_ne (by simp) (by decide)
  · exact (calm_pure _).faultsUnless _

theorem faultsUnless_antiCollision (sn : Vector UInt8 16) (h : Trace) :
    FaultsUnless (Fits 9) h (antiCollision sn) := by
  refine faultsUnless_bind (calm_writeReg.faultsUnless _) fun t₁ _ _ => ?_
  refine faultsUnless_bind (faultsUnless_toCard (by decide) (fun _ => ?_) _) fun _ _ _ => ?_
  · exact room_of_ne (by simp) (by decide)
  · exact (calm_pure _).faultsUnless _

theorem faultsUnless_selectTag (sn : Vector UInt8 16) (h : Trace) :
    FaultsUnless (Fits 9) h (selectTag sn) := by
  refine faultsUnless_bind (faultsUnless_calcCrc _ _) fun t₁ crc _ => ?_
  refine faultsUnless_bind (faultsUnless_toCard (by decide) (fun _ => ?_) _) fun _ _ _ => ?_
  · exact room_self _
  · exact (calm_pure _).faultsUnless _

theorem faultsUnless_auth (block : UInt8) (sector : Vector UInt8 6) (sn : Vector UInt8 16)
    (h : Trace) : FaultsUnless (Fits 9) h (auth val block sector sn) := by
  refine faultsUnless_bind (faultsUnless_toCard (by decide) (fun heq => ?_) _) fun t r _ => ?_
  · exact absurd heq (by decide)
  · obtain ⟨status, _, _⟩ := r
    dsimp only
    split
    · exact (calm_pure _).faultsUnless _
    · exact (calm_bind (calm_readReg (by decide)) fun _ => calm_pure _).faultsUnless _

theorem faultsUnless_read (block : UInt8) (data : Vector UInt8 16) (h : Trace) :
    FaultsUnless (Fits 9) h (read block data) := by
  refine faultsUnless_bind (faultsUnless_calcCrc _ _) fun t₁ crc _ => ?_
  refine faultsUnless_bind (faultsUnless_toCard (by decide) (fun _ => ?_) _) fun _ _ _ => ?_
  · exact room_of_ne (by simp) (by decide)
  · exact (calm_pure _).faultsUnless _

theorem faultsUnless_write (block : UInt8) (data : Vector UInt8 16) (h : Trace) :
    FaultsUnless (Fits 9) h (write block data) := by
  refine faultsUnless_bind (faultsUnless_calcCrc _ _) fun t₁ crc _ => ?_
  refine faultsUnless_bind (faultsUnless_toCard (by decide) (fun _ => ?_) _) fun t₂ r _ => ?_
  · exact room_of_ne (by simp) (by decide)
  · obtain ⟨status, recvBits, buf⟩ := r
    dsimp only
    split
    · exact (calm_pure _).faultsUnless _
    · refine faultsUnless_bind (faultsUnless_calcCrc _ _) fun t₃ crc _ => ?_
      refine faultsUnless_bind (faultsUnless_toCard (by decide) (fun _ => ?_) _) fun _ _ _ => ?_
      · exact room_of_ne (by simp) (by decide)
      · exact (calm_pure _).faultsUnless _

theorem faultsUnless_handle (c : Call) (serial data : Vector UInt8 16) (h : Trace) :
    FaultsUnless (Fits 9) h (handle c serial data) := by
  unfold handle
  dsimp only
  split
  · exact (calm_pure _).faultsUnless _
  · exact faultsUnless_bind (faultsUnless_write _ _ _) fun _ _ _ => (calm_pure _).faultsUnless _

theorem faultsUnless_transaction (c : Call) (h : Trace) :
    FaultsUnless (Fits 9) h (transaction c) := by
  refine faultsUnless_bind (faultsUnless_request _ _) fun t₁ r₁ _ => ?_
  dsimp only
  split
  · exact (calm_pure _).faultsUnless _
  refine faultsUnless_bind (faultsUnless_antiCollision _ _) fun t₂ r₂ _ => ?_
  split
  · exact (calm_pure _).faultsUnless _
  refine faultsUnless_bind (faultsUnless_selectTag _ _) fun t₃ card _ => ?_
  split
  · exact (calm_pure _).faultsUnless _
  refine faultsUnless_bind (faultsUnless_auth _ _ _ _) fun t₄ status _ => ?_
  split
  · exact (calm_pure _).faultsUnless _
  split
  · refine faultsUnless_bind (faultsUnless_read _ _ _) fun t₅ r₅ _ => ?_
    split
    · exact (calm_pure _).faultsUnless _
    · exact faultsUnless_handle _ _ _ _
  · exact faultsUnless_handle _ _ _ _

theorem faultsUnless_operate (rxGain : UInt8) (c : Call) :
    FaultsUnless (Fits 9) [] (operate rxGain c) := by
  unfold operate
  split
  · exact (calm_pure _).faultsUnless _
  · refine faultsUnless_bind (calm_txEnable.faultsUnless _) fun t₁ _ _ => ?_
    refine faultsUnless_bind (faultsUnless_transaction c _) fun t₂ res _ => ?_
    exact (calm_bind (calm_restart rxGain) fun _ => calm_pure res).faultsUnless _

theorem faultsUnless_sleep : FaultsUnless (Fits 4) [] sleep := by
  refine faultsUnless_bind (faultsUnless_calcCrc _ _) fun t₁ crc _ => ?_
  refine faultsUnless_bind (faultsUnless_toCard (by decide) (fun _ => ?_) _) fun _ _ _ => ?_
  · exact room_self _
  · exact (calm_pure _).faultsUnless _

/-- **When all replies fit**: no reply to the nine bytes of the selection is longer than
nine bytes, none to the four bytes of `PICC_HALT` longer than four. -/
theorem operate_in_bounds_iff (rxGain : UInt8) (c : Call) (answers : Nat → UInt8) :
    ((perform answers (operate rxGain c) 0).2 ≠ none ↔
      ∀ x, Whenever [] x (Fits 9 x) (perform answers (operate rxGain c) 0).1) ∧
    ((perform answers sleep 0).2 ≠ none ↔
      ∀ x, Whenever [] x (Fits 4 x) (perform answers sleep 0).1) :=
  ⟨faultsUnless_operate rxGain c _ _ (ends_perform answers _ 0),
    faultsUnless_sleep _ _ (ends_perform answers _ 0)⟩

/-- What a chip answers that has ten bytes for the selection. -/
def tenBytes : List UInt8 :=
  [3] ++
    [0, 0, 0, 0x20, 0, 0, 2, 0, 4, 0] ++
    [0, 0, 0, 0x20, 0, 0, 5, 0, 1, 2, 4, 8, 15] ++
    [0, 0, 4, 0x12, 0x34] ++ [0, 0, 0, 0x20, 0, 0, 10, 0, 8, 0, 0, 1, 2, 3, 4, 5, 6, 7]

/-- The tenth byte of a reply is written behind the buffer of the selection, and the fifth one
behind that of `mfrc_sleep`. -/
theorem long_replies_overflow :
    let c : Call := ⟨5, .cardRead, fun sn key => (sn, key), fun sn data => (sn, data),
      Vector.replicate 6 0xFF, Vector.replicate 16 0⟩
    (perform (fun n => tenBytes[n]?.getD 0) (operate 0x40 c) 0).2 = none ∧
      (perform (fun n => [0, 0, 4, 0x12, 0x34, 0, 0, 0, 0x20, 0, 0, 5][n]?.getD 0) sleep 0).2 =
        none := by
  decide +kernel

end MyLibraries.Mfrc522
