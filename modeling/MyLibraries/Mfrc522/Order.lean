import MyLibraries.Mfrc522.Model

/-!
# The order of the commands of `mfrc_operate`

The bytes of a command are those that were written to the FIFO since it was last flushed,
and a transmission starts when `PCD_TRANSCEIVE` is written to the command register. Every
transmission of the driver flushes and fills the FIFO first (`sends_toCard`), so the bytes
that it sends are known whatever was done before; they begin with `PICC_WRITE` in
`mfrc_write` only, and only its data block has 18 bytes. `operate_order` says what has
happened before either is sent, and how every call ends.
-/

namespace MyLibraries.Mfrc522

open Device

/-- The accesses of a call. -/
abbrev Trace := List (Access UInt8 UInt8)

/-- The start of a transmission. -/
def transceive : Access UInt8 UInt8 := .write (writeAddr regCommand) pcdTransceive

/-- What an access does to the bytes to be sent. -/
def fifoStep (bytes : List UInt8) : Access UInt8 UInt8 → List UInt8
  | .write reg val =>
    if reg = writeAddr regFifoLevel ∧ val &&& 0x80 ≠ 0 then []
    else if reg = writeAddr regFifoData then bytes ++ [val]
    else bytes
  | .read _ _ => bytes

/-- The bytes that were written to the FIFO since it was last flushed. -/
def fifo (t : Trace) : List UInt8 := t.foldl fifoStep []

/-- The steps before a write: the request, the anti-collision check, the selection as
Mifare 1k and the authentication of the sector succeeded one after another, and then, but
for the task `CARD_WRITE`, the read of the sector. -/
def Ready (c : Call) (t : Trace) : Prop :=
  ∃ t₀ t₁ t₂ t₃ t₄ t₅ serial₁ serial₂, t = t₀ ++ t₁ ++ t₂ ++ t₃ ++ t₄ ++ t₅ ∧
    Does (request piccReqIdl (Vector.replicate 16 0)) t₁ (.ok, serial₁) ∧
    Does (antiCollision serial₁) t₂ (.ok, serial₂) ∧
    Does (selectTag serial₂) t₃ mifare1k ∧
    Does (auth piccAuthent1A c.sector (c.keygen serial₂ c.pass).2 (c.keygen serial₂ c.pass).1)
      t₄ .ok ∧
    (c.task ≠ .cardWrite → ∃ data, Does (read c.sector c.data) t₅ (.ok, data))

/-- A write command for the block was sent and acknowledged with `0xA`. -/
def Acknowledged (block : UInt8) (t : Trace) : Prop :=
  ∃ (t₁ t₂ t₃ : Trace) (low high : UInt8) (buf : Vector UInt8 18) (status : Status)
    (recvBits : Option UInt16) (buf' : Vector UInt8 18), t = t₁ ++ t₂ ++ t₃ ∧
    Does (toCard pcdTransceive [piccWrite, block, low, high] buf) t₂ (status, recvBits, buf') ∧
    acknowledged status recvBits buf'[0]

/-- What holds before a transmission: if it is a write command, the task is not `CARD_READ`
and the steps before a write were done; if it is a data block, the write command was
acknowledged. -/
def Allowed (c : Call) (t : Trace) : Prop :=
  ((fifo t).head? = some piccWrite → c.task ≠ .cardRead ∧ ∃ t₁ t₂, t = t₁ ++ t₂ ∧ Ready c t₁) ∧
  ((fifo t).length = 18 → Acknowledged c.sector t)

/-- Neither a write command nor a data block. -/
def Harmless (t : Trace) : Prop := (fifo t).head? ≠ some piccWrite ∧ (fifo t).length ≠ 18

/-- The program does not start a transmission. -/
def Quiet {α : Type} (p : Io α) : Prop :=
  Writes (fun reg val => ¬(reg = writeAddr regCommand ∧ val = pcdTransceive)) p

variable {α β : Type} {k : Nat} {h t : Trace} {c : Call} {p : Io α} {a : α}
  {reg val mask irqEn waitIrq command : UInt8} {sendData : List UInt8} {status : Status}
  {backData : Vector UInt8 k} {r : Status × Option UInt16 × Vector UInt8 k}
  {Q : Trace → Prop}

/-! ## Programs that start no transmission -/

theorem Quiet.upholds (hp : Quiet p) : Upholds transceive Q p := upholds_of_writes hp

theorem quiet_bind {f : α → Io β} (hp : Quiet p) (hf : ∀ a, Quiet (f a)) : Quiet (p >>= f) :=
  writes_bind hp hf

theorem quiet_pure (a : α) : Quiet (pure a : Io α) := trivial

theorem quiet_writeReg
    (hne : ¬(writeAddr reg = writeAddr regCommand ∧ val = pcdTransceive)) :
    Quiet (writeReg reg val) := ⟨hne, trivial⟩

theorem quiet_readReg : Quiet (readReg reg) := fun _ => trivial

theorem quiet_setBitMask (hne : writeAddr reg ≠ writeAddr regCommand) :
    Quiet (setBitMask reg mask) :=
  quiet_bind quiet_readReg fun _ => quiet_writeReg fun heq => hne heq.1

theorem quiet_clearBitMask (hne : writeAddr reg ≠ writeAddr regCommand) :
    Quiet (clearBitMask reg mask) :=
  quiet_bind quiet_readReg fun _ => quiet_writeReg fun heq => hne heq.1

theorem quiet_txEnable : Quiet txEnable := by
  refine quiet_bind quiet_readReg fun val => ?_
  split
  · exact quiet_setBitMask (by decide)
  · exact quiet_pure ()

theorem quiet_sendFifo (bytes : List UInt8) : Quiet (sendFifo bytes) := by
  induction bytes with
  | nil => exact quiet_pure ()
  | cons byte bytes ih =>
    exact quiet_bind (quiet_writeReg fun heq => absurd heq.1 (by decide)) fun _ => ih

theorem quiet_waitBits (bits : UInt8) (i : Nat) : Quiet (waitBits reg bits i) := by
  induction i with
  | zero => exact quiet_bind quiet_readReg fun n => quiet_pure (n, 0)
  | succ i ih =>
    refine quiet_bind quiet_readReg fun n => ?_
    split
    · exact ih
    · exact quiet_pure (n, i + 1)

theorem quiet_readFifo (left i : Nat) (backData : Vector UInt8 k) :
    Quiet (readFifo left i backData) := by
  induction left generalizing i backData with
  | zero => exact quiet_pure backData
  | succ left ih =>
    refine quiet_bind quiet_readReg fun val => ?_
    split
    · exact ih _ _
    · trivial

theorem quiet_fillFifo : Quiet (fillFifo irqEn sendData) := by
  refine quiet_bind (quiet_writeReg fun heq => absurd heq.1 (by decide)) fun _ => ?_
  refine quiet_bind (quiet_clearBitMask (by decide)) fun _ => ?_
  refine quiet_bind (quiet_setBitMask (by decide)) fun _ => ?_
  refine quiet_bind (quiet_writeReg fun heq => absurd heq.2 (by decide)) fun _ => ?_
  exact quiet_sendFifo sendData

theorem quiet_takeReply : Quiet (takeReply status backData) := by
  refine quiet_bind quiet_readReg fun n => quiet_bind quiet_readReg fun control => ?_
  exact quiet_bind (quiet_readFifo _ _ _) fun _ => quiet_pure _

theorem quiet_finish : Quiet (finish command irqEn waitIrq backData) := by
  refine quiet_bind ?_ fun _ => quiet_bind (quiet_waitBits _ _) fun ⟨n, i⟩ => ?_
  · unfold startSend
    split
    · exact quiet_setBitMask (by decide)
    · exact quiet_pure ()
  · refine quiet_bind (quiet_clearBitMask (by decide)) fun _ => ?_
    split
    · exact quiet_pure _
    · refine quiet_bind quiet_readReg fun error => ?_
      split
      · exact quiet_pure _
      · dsimp only
        split
        · exact quiet_takeReply
        · exact quiet_pure _

theorem quiet_calcCrc (inData : List UInt8) : Quiet (calcCrc inData) := by
  refine quiet_bind (quiet_clearBitMask (by decide)) fun _ => ?_
  refine quiet_bind (quiet_setBitMask (by decide)) fun _ => ?_
  refine quiet_bind (quiet_sendFifo inData) fun _ => ?_
  refine quiet_bind (quiet_writeReg fun heq => absurd heq.2 (by decide)) fun _ => ?_
  refine quiet_bind (quiet_waitBits _ _) fun _ => ?_
  exact quiet_bind quiet_readReg fun low => quiet_bind quiet_readReg fun high => quiet_pure _

theorem quiet_restart (rxGain : UInt8) : Quiet (restart rxGain) := by
  refine quiet_bind (quiet_writeReg fun heq => absurd heq.2 (by decide)) fun _ => ?_
  iterate 7 refine quiet_bind (quiet_writeReg fun heq => absurd heq.1 (by decide)) fun _ => ?_
  exact quiet_clearBitMask (by decide)

/-! ## What a transmission sends -/

theorem fifo_append (h t : Trace) : fifo (h ++ t) = t.foldl fifoStep (fifo h) :=
  List.foldl_append

theorem does_writeReg {u : Unit} : Does (writeReg reg val) t u ↔
    t = [.write (writeAddr reg) val] := by
  constructor
  · rintro ⟨t', rfl, rfl, -⟩
    rfl
  · rintro rfl
    exact ⟨[], rfl, rfl, rfl⟩

theorem does_readReg : Does (readReg reg) t val ↔
    t = [.read (writeAddr reg ||| 0x80) val] := by
  refine does_read.trans ⟨?_, fun h => ⟨val, h, rfl⟩⟩
  rintro ⟨v, h, rfl⟩
  exact h

theorem does_setBitMask {u : Unit} (hd : Does (setBitMask reg mask) t u) :
    ∃ v, t = [.read (writeAddr reg ||| 0x80) v, .write (writeAddr reg) (v ||| mask)] := by
  obtain ⟨t₁, t₂, v, rfl, hr, hw⟩ := does_bind.mp hd
  rw [does_readReg] at hr
  rw [does_writeReg] at hw
  exact ⟨v, by rw [hr, hw]; rfl⟩

theorem does_clearBitMask {u : Unit} (hd : Does (clearBitMask reg mask) t u) :
    ∃ v, t = [.read (writeAddr reg ||| 0x80) v, .write (writeAddr reg) (v &&& ~~~mask)] := by
  obtain ⟨t₁, t₂, v, rfl, hr, hw⟩ := does_bind.mp hd
  rw [does_readReg] at hr
  rw [does_writeReg] at hw
  exact ⟨v, by rw [hr, hw]; rfl⟩

theorem does_sendFifo {u : Unit} {bytes : List UInt8} (hd : Does (sendFifo bytes) t u)
    (filled : List UInt8) : t.foldl fifoStep filled = filled ++ bytes := by
  induction bytes generalizing t filled with
  | nil =>
    obtain ⟨rfl, -⟩ := hd
    simp
  | cons byte bytes ih =>
    obtain ⟨t₁, t₂, _, rfl, hw, hrest⟩ := does_bind.mp hd
    rw [does_writeReg] at hw
    have hstep : fifoStep filled (.write (writeAddr regFifoData) byte) = filled ++ [byte] := rfl
    rw [hw, List.foldl_append, List.foldl_cons, List.foldl_nil, hstep, ih hrest]
    simp

/-- A flush: the bit of the mask is set whatever was read. -/
theorem flush (v : UInt8) (filled : List UInt8) :
    fifoStep filled (.write (writeAddr regFifoLevel) (v ||| 0x80)) = [] := by
  have hbits : ∀ b : BitVec 8, (b ||| 0x80#8) &&& 0x80#8 ≠ 0#8 := by decide +kernel
  exact if_pos ⟨rfl, fun heq => hbits v.toBitVec (congrArg UInt8.toBitVec heq)⟩

/-- **The FIFO holds what is to be sent**, whatever was done before. -/
theorem fifo_fillFifo {u : Unit} (hd : Does (fillFifo irqEn sendData) t u) (h : Trace) :
    fifo (h ++ t) = sendData := by
  obtain ⟨t₁, t, _, rfl, h₁, hd⟩ := does_bind.mp hd
  obtain ⟨t₂, t, _, rfl, h₂, hd⟩ := does_bind.mp hd
  obtain ⟨t₃, t, _, rfl, h₃, hd⟩ := does_bind.mp hd
  obtain ⟨t₄, t₅, _, rfl, h₄, h₅⟩ := does_bind.mp hd
  obtain ⟨v, rfl⟩ := does_setBitMask h₃
  rw [does_writeReg] at h₄
  have hidle (filled : List UInt8) :
      fifoStep filled (.write (writeAddr regCommand) pcdIdle) = filled := rfl
  rw [fifo_append, List.foldl_append, List.foldl_append, List.foldl_append, List.foldl_append,
    List.foldl_cons, List.foldl_cons, List.foldl_nil, flush, h₄, List.foldl_cons,
    List.foldl_nil, hidle, does_sendFifo h₅, List.nil_append]

theorem sends_exchange :
    Upholds transceive (fun t => fifo t = sendData)
      (exchange command irqEn waitIrq sendData backData) := by
  intro h t r hd
  obtain ⟨t₁, t, _, rfl, hfill, hd⟩ := does_bind.mp hd
  obtain ⟨t₂, t₃, _, rfl, hcommand, hfinish⟩ := does_bind.mp hd
  rw [does_writeReg] at hcommand
  rw [whenever_append, whenever_append]
  refine ⟨quiet_fillFifo.upholds _ _ _ hfill, ?_, quiet_finish.upholds _ _ _ hfinish⟩
  rw [hcommand]
  exact whenever_cons.mpr ⟨fun _ => fifo_fillFifo hfill h, whenever_nil⟩

/-- **A transmission sends its bytes**, whatever was done before. -/
theorem sends_toCard :
    Upholds transceive (fun t => fifo t = sendData) (toCard command sendData backData) := by
  unfold toCard
  split
  · exact sends_exchange
  · split
    · exact sends_exchange
    · exact (quiet_pure _).upholds

theorem quiet_authent : Quiet (toCard pcdAuthent sendData backData) := by
  rw [toCard, if_pos rfl]
  refine quiet_bind quiet_fillFifo fun _ => ?_
  exact quiet_bind (quiet_writeReg fun heq => absurd heq.2 (by decide)) fun _ => quiet_finish

/-! ## The steps before a write -/

theorem harmless_toCard (hhead : sendData.head? ≠ some piccWrite)
    (hlen : sendData.length ≠ 18) :
    Upholds transceive Harmless (toCard command sendData backData) := by
  refine sends_toCard.imp fun t heq => ?_
  rw [Harmless, heq]
  exact ⟨hhead, hlen⟩

theorem harmless_request (tag : Vector UInt8 16) :
    Upholds transceive Harmless (request piccReqIdl tag) := by
  refine upholds_bind (quiet_writeReg fun heq => absurd heq.1 (by decide)).upholds fun _ => ?_
  exact upholds_bind (harmless_toCard (by decide) (by decide)) fun _ => (quiet_pure _).upholds

theorem harmless_antiCollision (sn : Vector UInt8 16) :
    Upholds transceive Harmless (antiCollision sn) := by
  refine upholds_bind (quiet_writeReg fun heq => absurd heq.1 (by decide)).upholds fun _ => ?_
  exact upholds_bind (harmless_toCard (by decide) (by decide)) fun _ => (quiet_pure _).upholds

theorem harmless_selectTag (sn : Vector UInt8 16) :
    Upholds transceive Harmless (selectTag sn) := by
  refine upholds_bind (quiet_calcCrc _).upholds fun _ => ?_
  refine upholds_bind (harmless_toCard ?_ ?_) fun _ => (quiet_pure _).upholds
  · exact fun heq => absurd (Option.some.inj heq) (by decide)
  · simp

theorem harmless_auth (block : UInt8) (sector : Vector UInt8 6) (sn : Vector UInt8 16) :
    Upholds transceive Harmless (auth piccAuthent1A block sector sn) := by
  refine upholds_bind quiet_authent.upholds fun ⟨status, _, _⟩ => ?_
  dsimp only
  split
  · exact (quiet_pure _).upholds
  · exact upholds_bind quiet_readReg.upholds fun _ => (quiet_pure _).upholds

theorem harmless_read (block : UInt8) (data : Vector UInt8 16) :
    Upholds transceive Harmless (read block data) := by
  refine upholds_bind (quiet_calcCrc _).upholds fun _ => ?_
  refine upholds_bind (harmless_toCard ?_ ?_) fun _ => (quiet_pure _).upholds
  · exact fun heq => absurd (Option.some.inj heq) (by decide)
  · simp

/-- A harmless transmission is allowed at any time. -/
theorem Harmless.allowed (hharmless : Harmless t) : Allowed c t :=
  ⟨fun heq => absurd heq hharmless.1, fun heq => absurd heq hharmless.2⟩

/-! ## The write -/

/-- Of what `mfrc_write` sends, only the data block has 18 bytes, and that is sent after an
acknowledgement. -/
theorem write_acknowledged {block : UInt8} {data : Vector UInt8 16}
    (hd : Does (write block data) t status) (h : Trace) :
    Whenever h transceive (fun t => (fifo t).length = 18 → Acknowledged block t) t := by
  obtain ⟨t₁, t, ⟨low, high⟩, rfl, hcrc, hd⟩ := does_bind.mp hd
  obtain ⟨t₂, t, ⟨status₁, recvBits, buf⟩, rfl, hcommand, hd⟩ := does_bind.mp hd
  rw [whenever_append, whenever_append]
  refine ⟨(quiet_calcCrc _).upholds _ _ _ hcrc, ?_, ?_⟩
  · refine (sends_toCard _ _ _ hcommand).imp fun pre post heq hfifo hlen => ?_
    rw [hfifo] at hlen
    simp at hlen
  · dsimp only at hd
    split at hd
    · exact (quiet_pure _).upholds _ _ _ hd
    · rename_i hack
      obtain ⟨t₃, t, ⟨low', high'⟩, rfl, hcrc', hd⟩ := does_bind.mp hd
      obtain ⟨t₄, t₅, r, rfl, hdata, hd⟩ := does_bind.mp hd
      rw [whenever_append, whenever_append]
      refine ⟨(quiet_calcCrc _).upholds _ _ _ hcrc', ?_, (quiet_pure _).upholds _ _ _ hd⟩
      intro pre post heq hlen
      refine ⟨h ++ t₁, t₂, t₃ ++ pre, low, high, _, status₁, recvBits, buf, ?_, hcommand,
        Classical.not_not.mp hack⟩
      simp only [List.append_assoc]

theorem handle_allowed {serial data : Vector UInt8 16} (hd : Does (handle c serial data) t status)
    (hready : Ready c h) : Whenever h transceive (Allowed c) t := by
  unfold handle at hd
  dsimp only at hd
  split at hd
  · exact (quiet_pure _).upholds _ _ _ hd
  · rename_i htask
    obtain ⟨t₁, t₂, status', rfl, hwrite, hd⟩ := does_bind.mp hd
    rw [whenever_append]
    refine ⟨?_, (quiet_pure _).upholds _ _ _ hd⟩
    exact (write_acknowledged hwrite h).imp fun pre post heq hdata =>
      ⟨fun _ => ⟨htask, h, pre, rfl, hready⟩, hdata⟩

/-! ## The whole call -/

/-- The transaction, step by step: each step is harmless, and the next one is only taken
when it succeeded. -/
theorem transaction_allowed (hd : Does (transaction c) t status) (h : Trace) :
    Whenever h transceive (Allowed c) t := by
  have hallowed : ∀ t, Harmless t → Allowed c t := fun t => Harmless.allowed
  obtain ⟨t₁, t, ⟨status₁, serial₁⟩, rfl, hrequest, hd⟩ := does_bind.mp hd
  rw [whenever_append]
  refine ⟨((harmless_request _).imp hallowed) _ _ _ hrequest, ?_⟩
  dsimp only at hd
  split at hd
  · exact (quiet_pure _).upholds _ _ _ hd
  rename_i hok₁
  obtain rfl := Classical.not_not.mp hok₁
  obtain ⟨t₂, t, ⟨status₂, serial₂⟩, rfl, hcollision, hd⟩ := does_bind.mp hd
  rw [whenever_append]
  refine ⟨((harmless_antiCollision _).imp hallowed) _ _ _ hcollision, ?_⟩
  dsimp only at hd
  split at hd
  · exact (quiet_pure _).upholds _ _ _ hd
  rename_i hok₂
  obtain rfl := Classical.not_not.mp hok₂
  obtain ⟨t₃, t, card, rfl, hselect, hd⟩ := does_bind.mp hd
  rw [whenever_append]
  refine ⟨((harmless_selectTag _).imp hallowed) _ _ _ hselect, ?_⟩
  split at hd
  · exact (quiet_pure _).upholds _ _ _ hd
  rename_i hcard
  obtain rfl := Classical.not_not.mp hcard
  obtain ⟨t₄, t, status₄, rfl, hauth, hd⟩ := does_bind.mp hd
  rw [whenever_append]
  refine ⟨((harmless_auth _ _ _).imp hallowed) _ _ _ hauth, ?_⟩
  split at hd
  · exact (quiet_pure _).upholds _ _ _ hd
  rename_i hok₄
  obtain rfl := Classical.not_not.mp hok₄
  split at hd
  · obtain ⟨t₅, t, ⟨status₅, data⟩, rfl, hread, hd⟩ := does_bind.mp hd
    rw [whenever_append]
    refine ⟨((harmless_read _ _).imp hallowed) _ _ _ hread, ?_⟩
    dsimp only at hd
    split at hd
    · exact (quiet_pure _).upholds _ _ _ hd
    rename_i hok₅
    obtain rfl := Classical.not_not.mp hok₅
    exact handle_allowed hd ⟨h, t₁, t₂, t₃, t₄, t₅, serial₁, serial₂, rfl, hrequest, hcollision,
      hselect, hauth, fun _ => ⟨data, hread⟩⟩
  · rename_i htask
    exact handle_allowed hd ⟨h, t₁, t₂, t₃, t₄, [], serial₁, serial₂, by simp, hrequest,
      hcollision, hselect, hauth, fun hne => absurd hne htask⟩

/-- The access clears the antenna bits. -/
def ClearsAntenna (x : Access UInt8 UInt8) : Prop :=
  ∃ val, x = .write (writeAddr regTxControl) val ∧ val &&& 0x03 = 0

theorem endsWith_restart (rxGain : UInt8) : EndsWith ClearsAntenna (restart rxGain) := by
  iterate 8 refine endsWith_bind fun _ => ?_
  intro t u hd
  obtain ⟨v, rfl⟩ := does_clearBitMask hd
  refine ⟨[_], _, rfl, v &&& ~~~0x03, rfl, ?_⟩
  rw [UInt8.and_assoc]
  exact UInt8.and_zero

/-- **The order of a call.** Whatever the chip answers, as long as its replies fit their
buffers: each transmission is allowed by what was done before it, and a call with a valid
sector ends with `mfrc_restart`, and that with the antenna bits cleared. -/
theorem operate_order (rxGain : UInt8) (c : Call) (answers : Nat → UInt8) (trace : Trace)
    (res : Status) (hrun : run answers (operate rxGain c) 0 = some (trace, res)) :
    (∀ pre post, trace = pre ++ transceive :: post → Allowed c pre) ∧
    (c.sector < maxSectors → ∃ body tail last, trace = body ++ tail ++ [last] ∧
      Does (restart rxGain) (tail ++ [last]) () ∧ ClearsAntenna last) := by
  have hd := does_of_run hrun
  unfold operate at hd
  split at hd
  · rename_i hsector
    obtain ⟨rfl, -⟩ := hd
    refine ⟨fun pre post heq => by simp at heq, fun hlt => ?_⟩
    exact absurd hlt (UInt8.not_lt.mpr hsector)
  · obtain ⟨t₁, t, _, rfl, henable, hd⟩ := does_bind.mp hd
    obtain ⟨t₂, t, res', rfl, htransaction, hd⟩ := does_bind.mp hd
    obtain ⟨t₃, t, _, rfl, hrestart, rfl, rfl⟩ := does_bind.mp hd
    constructor
    · have hall : Whenever [] transceive (Allowed c) (t₁ ++ (t₂ ++ (t₃ ++ []))) := by
        rw [whenever_append, whenever_append, whenever_append]
        exact ⟨quiet_txEnable.upholds _ _ _ henable, transaction_allowed htransaction _,
          (quiet_restart _).upholds _ _ _ hrestart, whenever_nil⟩
      exact hall
    · intro _
      obtain ⟨tail, last, rfl, hlast⟩ := endsWith_restart rxGain t₃ () hrestart
      exact ⟨t₁ ++ t₂, tail, last, by simp, hrestart, hlast⟩

/-- What the chip answers in a call that reads and writes: the replies of the card are two
bytes, a serial number with its check byte, the type, a block and two acknowledgements. -/
def goodAnswers : List UInt8 :=
  [3] ++
    [0, 0, 0, 0x20, 0, 0, 2, 0, 4, 0] ++
    [0, 0, 0, 0x20, 0, 0, 5, 0, 1, 2, 4, 8, 15] ++
    [0, 0, 4, 0x12, 0x34] ++ [0, 0, 0, 0x20, 0, 0, 3, 0, 8, 0, 0] ++
    [0, 0, 0x10, 0, 0, 8] ++
    [0, 0, 4, 0x12, 0x34] ++ [0, 0, 0, 0x20, 0, 0, 18, 0] ++ List.replicate 16 7 ++
    [0, 0, 4, 0x12, 0x34] ++ [0, 0, 0, 0x20, 0, 0, 1, 4, 0x0A] ++
    [0, 0, 4, 0x12, 0x34] ++ [0, 0, 0, 0x20, 0, 0, 1, 4, 0x0A] ++
    [3]

/-- A call that changes a block: six transmissions, the last two of them the write. -/
theorem operate_order_changes_block :
    let c : Call := ⟨5, .cardRW, fun sn _ => (sn, Vector.replicate 6 0xFF),
      fun sn _ => (sn, Vector.replicate 16 0xA0), Vector.replicate 6 0, Vector.replicate 16 0⟩
    ∃ trace, run (fun n => goodAnswers[n]?.getD 0) (operate 0x40 c) 0 = some (trace, .ok) ∧
      trace.count transceive = 6 ∧
      (∀ pre post, trace = pre ++ transceive :: post → Allowed c pre) ∧
      (c.sector < maxSectors → ∃ body tail last, trace = body ++ tail ++ [last] ∧
        Does (restart 0x40) (tail ++ [last]) () ∧ ClearsAntenna last) := by
  intro c
  have hrun : (run (fun n => goodAnswers[n]?.getD 0) (operate 0x40 c) 0).map
      (fun r => (r.1.count transceive, r.2)) = some (6, .ok) := by decide +kernel
  obtain ⟨⟨trace, res⟩, hrun, heq⟩ := Option.map_eq_some_iff.mp hrun
  obtain ⟨hcount, rfl⟩ := Prod.mk.inj heq
  exact ⟨trace, hrun, hcount, operate_order 0x40 c _ trace .ok hrun⟩

end MyLibraries.Mfrc522
