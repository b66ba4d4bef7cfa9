import MyLibraries.Nrf24.Receive

/-!
# The modes of the radio over a session

The radio is seen through the values that were last written to its `CONFIG` and to the pin
that enables it. Over `nrf24l01_init` and any calls they follow a machine of the mode, the
power and the pin (`follows_session`): `CONFIG` always has what the driver keeps, with the
interrupts of the direction at hand, and a receiver is enabled exactly when it has power
(`Radio.receives_foldl`).
-/

namespace MyLibraries.Nrf24

open Device

/-! ## The radio -/

/-- The mode and the power that the driver has set, and the pin that enables the radio, when
it was set. -/
structure Radio where
  mode : RadioMode
  power : Bool
  enabled : Option Bool
  deriving DecidableEq, Repr

/-- A receiver is enabled with its power. -/
def Radio.set (r : Radio) (mode : RadioMode) (power : Bool) : Radio :=
  ⟨mode, power, if mode = .rx then some power else r.enabled⟩

def Radio.init (conf : Conf) : Radio :=
  Radio.set ⟨conf.config.mode, conf.config.powerEnable, none⟩ conf.config.mode
    conf.config.powerEnable

/-- A payload needs power. The radio stays what it was, awake; a transmitter is disabled
after the payload. -/
def Radio.step (r : Radio) : Request → Radio
  | .send _ _ => if r.mode = .rx then ⟨.rx, true, some true⟩ else ⟨.tx, true, some false⟩
  | .recv => if r.mode = .tx then ⟨.rx, true, some true⟩ else r
  | .switchMode mode powerEnable => r.set mode powerEnable
  | .sleep => ⟨r.mode, false, some false⟩
  | .wakeup => r.set r.mode true

/-- The `config` of a radio: with the interrupts of its direction. -/
def Radio.config (conf : Conf) (r : Radio) : Config :=
  { conf.config with
    mode := r.mode
    powerEnable := r.power
    txIrq := r.mode = .tx
    rxIrq := r.mode = .rx
    maxRtIrq := decide (r.mode = .tx) && conf.retransmits }

/-- The pin after these accesses, when they have set it. -/
def enabled (t : Trace) : Option Bool :=
  (t.filterMap fun
    | .read (.radioEn state) _ => some state
    | _ => none).getLast?

/-- What a call of the driver writes to, apart from `TX_ADDR`: `CONFIG`, `STATUS` and commands. -/
def Permitted : Port → Prop
  | .write addr _ => addr ∈ [0x20, 0x27, sendPayloadCmd, flushTxCmd, flushRxCmd]
  | _ => True

variable {dev dev' conf : Conf} {t t₁ t₂ : Trace} {r : Radio} {α : Type} {p : Io α} {a : α}
  {mode : RadioMode} {power : Bool} {reg value : UInt8} {readCnt : UInt32}

/-! ## What is seen of the radio -/

theorem programmed_append (h t : Trace) (reg : UInt8) :
    programmed (h ++ t) reg = (programmed t reg).or (programmed h reg) := by
  rw [programmed, List.filterMap_append, List.getLast?_append]
  rfl

theorem enabled_append (h t : Trace) : enabled (h ++ t) = (enabled t).or (enabled h) := by
  rw [enabled, List.filterMap_append, List.getLast?_append]
  rfl

/-- The pin stays as it is. -/
def NoPin : Port → Prop
  | .radioEn _ => False
  | _ => True

theorem noPin_quiet (hp : Reads NoPin p) (hd : Does p t a) : enabled t = none := by
  rw [enabled, List.getLast?_eq_none_iff, List.filterMap_eq_nil_iff]
  intro x hx
  split
  · exact (hd.reads hp _ _ hx).elim
  · rfl

/-- Neither `CONFIG` nor the pin. -/
def Aside : Port → Prop
  | .write addr _ => addr ≠ 0x20
  | .radioEn _ => False
  | _ => True

theorem noPin_of_aside (port : Port) (h : Aside port) : NoPin port := by
  cases port with
  | radioEn state => exact h
  | write addr buf => trivial
  | read addr size => trivial
  | readIrq => trivial

/-- What the driver does beside the modes: it reads, clears interrupts and gives commands. -/
def Auxiliary (port : Port) : Prop := Permitted port ∧ Aside port

theorem aside_of_auxiliary (hp : Reads Auxiliary p) : Reads Aside p := hp.imp fun _ h => h.2

/-- A program aside of both leaves them as they are. -/
theorem aside_quiet (hp : Reads Aside p) (hd : Does p t a) (h : Trace) :
    programmed (h ++ t) configReg = programmed h configReg ∧ enabled (h ++ t) = enabled h := by
  have hconfig : t.filterMap (wroteTo configReg) = [] := by
    refine List.filterMap_eq_nil_iff.mpr fun x hx => ?_
    unfold wroteTo
    split
    · exact if_neg (hd.reads hp _ _ hx)
    · rfl
  have hpin : enabled t = none := noPin_quiet (hp.imp noPin_of_aside) hd
  rw [programmed_append, enabled_append, programmed, hconfig, hpin]
  exact ⟨rfl, rfl⟩

/-- What a mode depends on, beside itself. -/
structure Kept (conf dev : Conf) : Prop where
  crcConfig : dev.config.crcConfig = conf.config.crcConfig
  crcEnable : dev.config.crcEnable = conf.config.crcEnable
  autoRetransmit : dev.autoRetransmit = conf.autoRetransmit

/-- The driver and, after the accesses `h`, the radio are as `r` says. -/
structure Follows (conf dev : Conf) (h : Trace) (r : Radio) : Prop where
  kept : Kept conf dev
  config : dev.config = r.config conf
  register : programmed h configReg = some ((r.config conf).toByte ^^^ invertIrqBits)
  pin : enabled h = r.enabled

variable {h : Trace}

theorem Kept.withError (hk : Kept conf dev) (error : UInt8) :
    Kept conf { dev with error := error } := ⟨hk.crcConfig, hk.crcEnable, hk.autoRetransmit⟩

/-- The driver goes on with the same settings. -/
def SameConfig (dev dev' : Conf) : Prop := dev' = { dev with error := dev'.error }

theorem SameConfig.kept (hs : SameConfig dev dev') (hk : Kept conf dev) : Kept conf dev' := by
  rw [hs]
  exact hk.withError _

theorem SameConfig.trans {dev₁ dev₂ : Conf} (h₁ : SameConfig dev dev₁)
    (h₂ : SameConfig dev₁ dev₂) : SameConfig dev dev₂ := by
  rw [SameConfig, h₂, h₁]

theorem sameConfig_refl (dev : Conf) : SameConfig dev dev := rfl

theorem sameConfig_writeReg (hd : Does (writeReg dev reg value) t dev') : SameConfig dev dev' := by
  obtain ⟨reply, -, rfl⟩ := does_writeReg.mp hd
  rfl

theorem sameConfig_readReg {r : UInt8 × Conf} (hd : Does (readReg dev reg) t r) :
    SameConfig dev r.2 := by
  obtain ⟨reply, t', rfl, -, rfl⟩ := hd
  rfl

/-- What accesses aside leave. -/
theorem Follows.aside (hf : Follows conf dev h r) (hs : SameConfig dev dev')
    (hp : Reads Aside p) (hd : Does p t a) : Follows conf dev' (h ++ t) r := by
  obtain ⟨hconfig, hpin⟩ := aside_quiet hp hd h
  refine ⟨hs.kept hf.kept, ?_, hconfig.trans hf.register, hpin.trans hf.pin⟩
  rw [hs]
  exact hf.config

theorem Follows.auxiliary (hf : Follows conf dev h r) (hs : SameConfig dev dev')
    (hp : Reads Auxiliary p) (hd : Does p t a) : Follows conf dev' (h ++ t) r :=
  hf.aside hs (aside_of_auxiliary hp) hd

theorem auxiliary_readReg (dev : Conf) (reg : UInt8) : Reads Auxiliary (readReg dev reg) :=
  ⟨⟨trivial, trivial⟩, fun _ => trivial⟩

theorem auxiliary_write {addr : UInt8}
    (haddr : addr ∈ [0x27, sendPayloadCmd, flushTxCmd, flushRxCmd]) (buf : List UInt8) :
    Reads Auxiliary (write addr buf) := by
  refine ⟨⟨List.mem_cons_of_mem _ haddr, ?_⟩, fun _ => trivial⟩
  rintro rfl
  exact absurd haddr (by decide)

theorem reads_writeAddress {P : Port → Prop} (hreg : ∀ bytes, P (.write (reg ||| 0x20) bytes))
    (address : Option (Vector UInt8 5)) : Reads P (writeAddress reg address) := by
  unfold writeAddress
  split
  · trivial
  · exact ⟨hreg _, fun _ => trivial⟩

/-! ## Modes -/

/-- Setting the pin. -/
theorem does_radioEn {state : Bool} {u : Unit} (hd : Does (radioEn state) t u) (h : Trace) :
    programmed (h ++ t) configReg = programmed h configReg ∧ enabled (h ++ t) = some state := by
  obtain ⟨reply, t', rfl, rfl, -⟩ := hd
  rw [programmed_append, enabled_append]
  exact ⟨rfl, rfl⟩

/-- Writing what the driver keeps to `CONFIG`. -/
theorem does_updateConfig (hd : Does (updateConfig dev) t dev') (hk : Kept conf dev)
    (hc : dev.config = r.config conf) (hpin : enabled h = r.enabled) :
    Follows conf dev' (h ++ t) r := by
  obtain ⟨reply, rfl, rfl⟩ := does_writeReg.mp hd
  refine ⟨hk.withError _, hc, ?_, ?_⟩
  · rw [programmed_append, ← hc]
    rfl
  · rw [enabled_append]
    exact hpin

/-- **A mode.** Whatever the radio was before, and the driver kept of it, `switch_mode` makes
it what it is called for. -/
theorem follows_switchMode (hk : Kept conf dev) (hd : Does (switchMode dev mode power) t dev')
    (h : Trace) : Follows conf dev' (h ++ t) ⟨mode, power, if mode = .rx then some power
      else enabled h⟩ := by
  unfold switchMode at hd
  obtain ⟨t₁, t₂, dev₁, rfl, hdisable, hd⟩ := does_bind.mp hd
  obtain ⟨reply, rfl, rfl⟩ := does_writeReg.mp hdisable
  have hpin : enabled
      (h ++ [.read (.write (((0x1F : UInt8) &&& configReg) ||| 0x20) [0x00]) reply]) =
      enabled h := by
    rw [enabled_append]
    rfl
  rw [← List.append_assoc]
  cases mode with
  | tx =>
    refine does_updateConfig hd ⟨hk.crcConfig, hk.crcEnable, hk.autoRetransmit⟩ ?_ hpin
    simp [Radio.config, Conf.retransmits, hk.crcConfig, hk.crcEnable, hk.autoRetransmit]
  | rx =>
    obtain ⟨t₃, t₄, _, rfl, henable, hd⟩ := does_bind.mp hd
    rw [← List.append_assoc]
    refine does_updateConfig hd ⟨hk.crcConfig, hk.crcEnable, hk.autoRetransmit⟩ ?_
      (does_radioEn henable _).2
    simp [Radio.config, hk.crcConfig, hk.crcEnable]

/-! ## Waiting -/

theorem auxiliary_readIrq (dev : Conf) (irqMask : UInt8) :
    Reads Auxiliary (readIrq dev irqMask) := by
  unfold readIrq
  split
  · exact ⟨⟨trivial, trivial⟩, fun _ => trivial⟩
  · exact reads_bind (auxiliary_readReg _ _) fun _ => trivial

theorem sameConfig_readIrq {irqMask : UInt8} {r : Bool × Conf}
    (hd : Does (readIrq dev irqMask) t r) : SameConfig dev r.2 := by
  unfold readIrq at hd
  split at hd
  · obtain ⟨reply, t', -, -, rfl⟩ := hd
    rfl
  · obtain ⟨reply, t', -, -, rfl⟩ := hd
    rfl

theorem auxiliary_waitIrq (dev : Conf) (irqMask : UInt8) (left : Nat) :
    Reads Auxiliary (waitIrq dev irqMask left) := by
  induction left generalizing dev with
  | zero => exact reads_bind (auxiliary_readIrq _ _) fun _ => trivial
  | succ left ih =>
    refine reads_bind (auxiliary_readIrq _ _) fun r => ?_
    dsimp only
    split
    · trivial
    · exact ih r.2

theorem sameConfig_waitIrq {irqMask : UInt8} {left : Nat} {r : UInt32 × Conf}
    (hd : Does (waitIrq dev irqMask left) t r) : SameConfig dev r.2 := by
  induction left generalizing dev t with
  | zero =>
    obtain ⟨t₁, t₂, s, -, hread, -, rfl⟩ := does_bind.mp hd
    exact sameConfig_readIrq hread
  | succ left ih =>
    obtain ⟨t₁, t₂, s, -, hread, hd⟩ := does_bind.mp hd
    have hs := sameConfig_readIrq hread
    dsimp only at hd
    split at hd
    · obtain ⟨-, rfl⟩ := hd
      exact hs
    · exact hs.trans (ih hd)

theorem auxiliary_sendResult (dev : Conf) (cnt : UInt32) : Reads Auxiliary (sendResult dev cnt) := by
  unfold sendResult
  split
  · exact reads_bind (auxiliary_readReg _ _) fun _ => trivial
  · trivial

theorem sameConfig_sendResult {cnt : UInt32} {r : Bool × Conf}
    (hd : Does (sendResult dev cnt) t r) : SameConfig dev r.2 := by
  unfold sendResult at hd
  split at hd
  · obtain ⟨reply, t', -, -, rfl⟩ := hd
    rfl
  · obtain ⟨-, rfl⟩ := hd
    rfl

theorem auxiliary_clearIrq (dev : Conf) (irqMask : UInt8) :
    Reads Auxiliary (clearIrq dev irqMask) :=
  reads_bind (auxiliary_write (by decide) _) fun _ => trivial

theorem auxiliary_flushBuffer {cmd : UInt8}
    (hcmd : cmd ∈ [0x27, sendPayloadCmd, flushTxCmd, flushRxCmd]) :
    Reads Auxiliary (flushBuffer cmd) := reads_bind (auxiliary_write hcmd _) fun _ => trivial

/-! ## Calls -/

theorem auxiliary_clearIfEmpty (dev : Conf) : Reads Auxiliary (clearIfEmpty dev) := by
  refine reads_bind (auxiliary_readReg _ _) fun r => ?_
  dsimp only
  split
  · exact reads_bind (auxiliary_clearIrq _ _) fun _ =>
      reads_bind (auxiliary_flushBuffer (by decide)) fun _ => trivial
  · trivial

theorem sameConfig_clearIfEmpty (hd : Does (clearIfEmpty dev) t dev') : SameConfig dev dev' := by
  obtain ⟨t₁, t₂, r, -, hread, hd⟩ := does_bind.mp hd
  have hs := sameConfig_readReg hread
  dsimp only at hd
  split at hd
  · obtain ⟨t₃, t₄, dev₁, -, hclear, hd⟩ := does_bind.mp hd
    obtain ⟨t₅, t₆, _, -, -, -, rfl⟩ := does_bind.mp hd
    exact hs.trans (sameConfig_writeReg hclear)
  · obtain ⟨-, rfl⟩ := hd
    exact hs

theorem auxiliary_receive (dev : Conf) : Reads Auxiliary (receive dev) := by
  refine reads_bind (auxiliary_readReg _ _) fun r => ?_
  dsimp only
  split
  · trivial
  · exact reads_bind ⟨⟨trivial, trivial⟩, fun _ => trivial⟩ fun _ =>
      reads_bind (auxiliary_clearIfEmpty _) fun _ => trivial

theorem sameConfig_receive {r : UInt8 × Option Nat × Conf} (hd : Does (receive dev) t r) :
    SameConfig dev r.2.2 := by
  obtain ⟨t₁, t₂, s, -, hread, hd⟩ := does_bind.mp hd
  have hs := sameConfig_readReg hread
  dsimp only at hd
  split at hd
  · cases hd
  · obtain ⟨t₃, t₄, _, -, -, hd⟩ := does_bind.mp hd
    obtain ⟨t₅, t₆, dev₁, -, hclear, -, rfl⟩ := does_bind.mp hd
    exact hs.trans (sameConfig_clearIfEmpty hclear)

/-- `recv` makes the radio a receiver; what follows is aside. -/
theorem follows_recv {result : UInt8 × Option Nat × Conf} (hf : Follows conf dev h r)
    (hd : Does (recv dev) t result) : Follows conf result.2.2 (h ++ t) (r.step .recv) := by
  have hmode : dev.config.mode = r.mode := by rw [hf.config]; rfl
  obtain ⟨t₁, t₂, dev₁, rfl, hfirst, hd⟩ := does_bind.mp hd
  have hf₁ : Follows conf dev₁ (h ++ t₁) (r.step .recv) := by
    unfold toReceiver at hfirst
    unfold Radio.step
    rw [hmode] at hfirst
    split at hfirst
    · rename_i htx
      rw [if_pos htx]
      obtain ⟨t₃, t₄, dev₂, rfl, hswitch, hfirst⟩ := does_bind.mp hfirst
      obtain ⟨t₅, t₆, _, rfl, hpin, rfl, rfl⟩ := does_bind.mp hfirst
      have hs := follows_switchMode hf.kept hswitch h
      obtain ⟨hconfig, hpin⟩ := does_radioEn hpin (h ++ t₃)
      rw [List.append_nil, ← List.append_assoc]
      exact ⟨hs.kept, hs.config, hconfig.trans hs.register, hpin⟩
    · rename_i hrx
      obtain ⟨rfl, rfl⟩ := hfirst
      rw [if_neg hrx, List.append_nil]
      exact hf
  obtain ⟨t₃, t₄, s, rfl, hread, hd⟩ := does_bind.mp hd
  have hf₂ := hf₁.auxiliary (sameConfig_readIrq hread) (auxiliary_readIrq _ _) hread
  rw [← List.append_assoc, ← List.append_assoc]
  dsimp only at hd
  split at hd
  · exact hf₂.auxiliary (sameConfig_receive hd) (auxiliary_receive _) hd
  · obtain ⟨rfl, rfl⟩ := hd
    rw [List.append_nil]
    exact hf₂

/-- `send` makes the radio a transmitter, and what it was when the payload has left. -/
theorem follows_send {dest : Option (Vector UInt8 5)} {data : List UInt8} {result : Bool × Conf}
    (hf : Follows conf dev h r) (hd : Does (send readCnt dev dest data) t result) :
    Follows conf result.2 (h ++ t) (r.step (.send dest data)) := by
  have hmode : dev.config.mode = r.mode := by rw [hf.config]; rfl
  unfold send at hd
  obtain ⟨t₁, s₁, _, rfl, haddress, hd⟩ := does_bind.mp hd
  obtain ⟨t₂, s₂, _, rfl, hon, hd⟩ := does_bind.mp hd
  obtain ⟨t₃, s₃, dev₃, rfl, hswitch, hd⟩ := does_bind.mp hd
  obtain ⟨t₄, s₄, _, rfl, hpayload, hd⟩ := does_bind.mp hd
  obtain ⟨t₅, s₅, w, rfl, hwait, hd⟩ := does_bind.mp hd
  obtain ⟨t₆, s₆, q, rfl, hresult, hd⟩ := does_bind.mp hd
  obtain ⟨t₇, s₇, dev₇, rfl, hclear, hd⟩ := does_bind.mp hd
  obtain ⟨t₈, s₈, _, rfl, hflush, hd⟩ := does_bind.mp hd
  obtain ⟨t₉, s₉, dev₉, rfl, hend, rfl, rfl⟩ := does_bind.mp hd
  have hapart (bytes : List UInt8) : Aside (.write (txAddrReg ||| 0x20) bytes) :=
    show txAddrReg ||| 0x20 ≠ 0x20 by decide
  have hf₁ := hf.aside (sameConfig_refl dev) (reads_writeAddress hapart dest) haddress
  have hf₃ : Follows conf dev₃ (h ++ t₁ ++ t₂ ++ t₃) ⟨.tx, true, some true⟩ := by
    have hs := follows_switchMode hf₁.kept hswitch (h ++ t₁ ++ t₂)
    have hpin := (does_radioEn hon (h ++ t₁)).2
    exact ⟨hs.kept, hs.config, hs.register, hs.pin.trans hpin⟩
  have hf₄ := hf₃.auxiliary (sameConfig_refl dev₃) (auxiliary_write (by decide) data) hpayload
  have hf₅ := hf₄.auxiliary (sameConfig_waitIrq hwait) (auxiliary_waitIrq _ _ _) hwait
  have hf₆ := hf₅.auxiliary (sameConfig_sendResult hresult) (auxiliary_sendResult _ _) hresult
  have hf₇ := hf₆.auxiliary (sameConfig_writeReg hclear) (auxiliary_clearIrq _ _) hclear
  have hf₈ := hf₇.auxiliary (sameConfig_refl dev₇) (auxiliary_flushBuffer (by decide)) hflush
  simp only [List.append_nil, ← List.append_assoc]
  unfold sendEnd at hend
  unfold Radio.step
  rw [hmode] at hend
  split at hend
  · rename_i hrx
    rw [if_pos (of_decide_eq_true hrx)]
    exact follows_switchMode hf₈.kept hend _
  · rename_i htx
    rw [if_neg fun hrx => htx (decide_eq_true hrx)]
    obtain ⟨t₁₀, t₁₁, _, rfl, hoff, rfl, rfl⟩ := does_bind.mp hend
    rw [List.append_nil]
    obtain ⟨hconfig, hpin⟩ := does_radioEn hoff _
    exact ⟨hf₈.kept, hf₈.config, hconfig.trans hf₈.register, hpin⟩

/-- **A call.** Driver and radio take the step of the machine. -/
theorem follows_call {request : Request} (hf : Follows conf dev h r)
    (hd : Does (request.call readCnt dev) t dev') :
    Follows conf dev' (h ++ t) (r.step request) := by
  have hmode : dev.config.mode = r.mode := by rw [hf.config]; rfl
  cases request with
  | send dest data =>
    obtain ⟨t₁, t₂, result, rfl, hsend, rfl, rfl⟩ := does_bind.mp hd
    rw [List.append_nil]
    exact follows_send hf hsend
  | recv =>
    obtain ⟨t₁, t₂, result, rfl, hrecv, rfl, rfl⟩ := does_bind.mp hd
    rw [List.append_nil]
    exact follows_recv hf hrecv
  | switchMode mode powerEnable =>
    have hs := follows_switchMode hf.kept hd h
    rw [hf.pin] at hs
    exact hs
  | sleep =>
    obtain ⟨t₁, t₂, _, rfl, hoff, hd⟩ := does_bind.mp hd
    have hs := follows_switchMode hf.kept hd (h ++ t₁)
    rw [(does_radioEn hoff h).2, ite_self, hmode] at hs
    rw [← List.append_assoc]
    exact hs
  | wakeup =>
    obtain ⟨t₁, t₂, dev₁, rfl, hswitch, hd⟩ := does_bind.mp hd
    have hs := follows_switchMode hf.kept hswitch h
    rw [hf.pin, hmode] at hs
    have hmode₁ : dev₁.config.mode = r.mode := by rw [hs.config]; rfl
    rw [← List.append_assoc]
    rw [hmode₁] at hd
    split at hd
    · rename_i hrx
      obtain ⟨t₃, t₄, _, rfl, hon, rfl, rfl⟩ := does_bind.mp hd
      obtain ⟨hconfig, hpin⟩ := does_radioEn hon (h ++ t₁)
      rw [List.append_nil]
      refine ⟨hs.kept, hs.config, hconfig.trans hs.register, hpin.trans ?_⟩
      exact (if_pos hrx).symm
    · obtain ⟨rfl, rfl⟩ := hd
      rw [List.append_nil]
      exact hs

theorem follows_session {requests : List Request} (hf : Follows conf dev h r)
    (hd : Does (session readCnt dev requests) t dev') :
    Follows conf dev' (h ++ t) (requests.foldl Radio.step r) := by
  induction requests generalizing dev h r t with
  | nil =>
    obtain ⟨rfl, rfl⟩ := hd
    rw [List.append_nil]
    exact hf
  | cons request requests ih =>
    obtain ⟨t₁, t₂, dev₁, rfl, hcall, hd⟩ := does_bind.mp hd
    rw [← List.append_assoc]
    exact ih (follows_call hf hcall) hd

/-! ## The beginning -/

theorem noPin_writeRegs (dev : Conf) (rows : List (UInt8 × UInt8)) :
    Reads NoPin (writeRegs dev rows) := by
  induction rows generalizing dev with
  | nil => trivial
  | cons row rows ih => exact reads_bind ⟨trivial, fun _ => trivial⟩ fun dev => ih dev

theorem follows_init {error : UInt8} (hd : Does (nrf24l01Init conf) t (error, dev)) :
    Follows conf dev t (Radio.init conf) := by
  unfold nrf24l01Init at hd
  obtain ⟨t₁, s₁, dev₁, rfl, hdisable, hd⟩ := does_bind.mp hd
  obtain ⟨t₂, s₂, dev₂, rfl, hrows, hd⟩ := does_bind.mp hd
  obtain ⟨t₃, s₃, _, rfl, hfirst, hd⟩ := does_bind.mp hd
  obtain ⟨t₄, s₄, _, rfl, hsecond, hd⟩ := does_bind.mp hd
  obtain ⟨t₅, s₅, _, rfl, hown, hd⟩ := does_bind.mp hd
  obtain ⟨t₆, s₆, dev₃, rfl, haddresses, hd⟩ := does_bind.mp hd
  obtain ⟨t₇, s₇, dev₄, rfl, hsizes, hd⟩ := does_bind.mp hd
  obtain ⟨t₈, s₈, dev₅, rfl, hmode, hd⟩ := does_bind.mp hd
  obtain ⟨rfl, hend⟩ := hd
  cases hend
  obtain ⟨reply, -, hdev₁⟩ := does_writeReg.mp hdisable
  have hdev₂ := (does_writeRegs hrows).1
  have hdev₃ := (does_writeRegs haddresses).1
  have hdev₄ := (does_writeRegs hsizes).1
  have hconfig : dev₄.config = conf.config := by rw [hdev₄, hdev₃, hdev₂, hdev₁]
  have hretransmit : dev₄.autoRetransmit = conf.autoRetransmit := by
    rw [hdev₄, hdev₃, hdev₂, hdev₁]
  have hpin : enabled (t₁ ++ t₂ ++ t₃ ++ t₄ ++ t₅ ++ t₆ ++ t₇) = none := by
    have hdisabled : Reads NoPin (disableRadio conf) := ⟨trivial, fun _ => trivial⟩
    have haddress (reg : UInt8) (address : Option (Vector UInt8 5)) :
        Reads NoPin (writeAddress reg address) := reads_writeAddress (fun _ => trivial) address
    simp only [enabled_append, noPin_quiet hdisabled hdisable,
      noPin_quiet (noPin_writeRegs _ _) hrows, noPin_quiet (haddress _ _) hfirst,
      noPin_quiet (haddress _ _) hsecond, noPin_quiet (haddress _ _) hown,
      noPin_quiet (noPin_writeRegs _ _) haddresses, noPin_quiet (noPin_writeRegs _ _) hsizes,
      Option.or_none]
  have hs := follows_switchMode ⟨by rw [hconfig], by rw [hconfig], hretransmit⟩ hmode
    (t₁ ++ t₂ ++ t₃ ++ t₄ ++ t₅ ++ t₆ ++ t₇)
  rw [hpin, hconfig] at hs
  simp only [List.append_nil, ← List.append_assoc]
  exact hs

/-! ## A receiver -/

/-- A receiver is enabled with its power. -/
def Radio.Receives (r : Radio) : Prop := r.mode = .rx → r.enabled = some r.power

theorem Radio.receives_set (r : Radio) (mode : RadioMode) (power : Bool) :
    (r.set mode power).Receives := fun hrx => if_pos hrx

theorem Radio.receives_step (hr : r.Receives) (request : Request) : (r.step request).Receives := by
  cases request with
  | send dest data =>
    show Radio.Receives (if r.mode = .rx then ⟨.rx, true, some true⟩ else ⟨.tx, true, some false⟩)
    split
    · exact fun _ => rfl
    · exact fun hrx => nomatch hrx
  | recv =>
    show Radio.Receives (if r.mode = .tx then ⟨.rx, true, some true⟩ else r)
    split
    · exact fun _ => rfl
    · exact hr
  | switchMode mode powerEnable => exact r.receives_set mode powerEnable
  | sleep => exact fun _ => rfl
  | wakeup => exact r.receives_set r.mode true

theorem Radio.receives_foldl (hr : r.Receives) (requests : List Request) :
    (requests.foldl Radio.step r).Receives := by
  induction requests generalizing r with
  | nil => exact hr
  | cons request requests ih => exact ih (receives_step hr request)

end MyLibraries.Nrf24
