import MyLibraries.Nrf24.Modes

/-!
# The settings of the radio over a session

Beside `CONFIG` a call writes `STATUS` and commands, and `send` writes `TX_ADDR`
(`stored_call`). So over a session the registers of the settings keep what `nrf24l01_init` has
left in them, and payloads go to the last address that a `send` has named (`radio_follows`).
-/

namespace MyLibraries.Nrf24

open Device

/-- The bytes that an access writes to a register. -/
def storedIn (reg : UInt8) : Access Port Reply → Option (List UInt8)
  | .read (.write addr bytes) _ => if addr = reg ||| 0x20 then some bytes else none
  | _ => none

/-- The bytes in a register after these accesses, when they have written it. -/
def stored (t : Trace) (reg : UInt8) : Option (List UInt8) := (t.filterMap (storedIn reg)).getLast?

/-- The address that a call names. -/
def Request.dest : Request → Option (List UInt8)
  | .send dest _ => dest.map Vector.toList
  | _ => none

/-- The last address that the calls name. -/
def lastDest (requests : List Request) : Option (List UInt8) :=
  (requests.filterMap Request.dest).getLast?

variable {dev dev' conf : Conf} {t : Trace} {α : Type} {p : Io α} {a : α} {reg : UInt8}
  {readCnt : UInt32}

/-! ## What a call writes to -/

theorem permitted_of_auxiliary (hp : Reads Auxiliary p) : Reads Permitted p :=
  hp.imp fun _ h => h.1

theorem permitted_write {addr : UInt8}
    (haddr : addr ∈ [0x20, 0x27, sendPayloadCmd, flushTxCmd, flushRxCmd])
    (buf : List UInt8) : Reads Permitted (write addr buf) := ⟨haddr, fun _ => trivial⟩

theorem permitted_writeReg
    (hreg : ((0x1F : UInt8) &&& reg) ||| 0x20 ∈
      [0x20, 0x27, sendPayloadCmd, flushTxCmd, flushRxCmd])
    (dev : Conf) (value : UInt8) : Reads Permitted (writeReg dev reg value) :=
  reads_bind (permitted_write hreg _) fun _ => trivial

theorem permitted_radioEn (state : Bool) : Reads Permitted (radioEn state) :=
  ⟨trivial, fun _ => trivial⟩

theorem permitted_switchMode (dev : Conf) (mode : RadioMode) (power : Bool) :
    Reads Permitted (switchMode dev mode power) := by
  refine reads_bind (permitted_writeReg (by decide) _ _) fun dev => ?_
  cases mode with
  | tx => exact permitted_writeReg (by decide) _ _
  | rx =>
    exact reads_bind (permitted_radioEn _) fun _ => permitted_writeReg (by decide) _ _

theorem permitted_sendEnd (dev : Conf) (inRx : Bool) : Reads Permitted (sendEnd dev inRx) := by
  unfold sendEnd
  split
  · exact permitted_switchMode _ _ _
  · exact reads_bind (permitted_radioEn _) fun _ => trivial

theorem permitted_recv (dev : Conf) : Reads Permitted (recv dev) := by
  have hfirst : Reads Permitted (toReceiver dev) := by
    unfold toReceiver
    split
    · exact reads_bind (permitted_switchMode _ _ _) fun _ =>
        reads_bind (permitted_radioEn _) fun _ => trivial
    · trivial
  refine reads_bind hfirst fun dev => permitted_of_auxiliary ?_
  refine reads_bind (auxiliary_readIrq _ _) fun r => ?_
  dsimp only
  split
  · exact auxiliary_receive _
  · trivial

theorem permitted_wakeup (dev : Conf) : Reads Permitted (wakeup dev) := by
  refine reads_bind (permitted_switchMode _ _ _) fun dev => ?_
  split
  · exact reads_bind (permitted_radioEn _) fun _ => trivial
  · trivial

/-! ## The settings -/

/-- The registers of the settings. -/
def settings : List UInt8 :=
  [enAaReg, enRxaddrReg, setupAwReg, setupRetrReg, rfChReg, rfSetupReg, rxAddrP0Reg, rxAddrP1Reg,
    rxAddrP2Reg, rxAddrP3Reg, rxAddrP4Reg, rxAddrP5Reg] ++ (List.range 6).map rxPwReg

theorem setting_apart {addr : UInt8} (hreg : reg ∈ txAddrReg :: settings)
    (haddr : addr ∈ [0x20, 0x27, sendPayloadCmd, flushTxCmd, flushRxCmd]) :
    addr ≠ reg ||| 0x20 := by
  have hall : ∀ reg ∈ txAddrReg :: settings,
      reg ||| 0x20 ∉ [0x20, 0x27, sendPayloadCmd, flushTxCmd, flushRxCmd] := by
    decide +kernel
  rintro rfl
  exact hall reg hreg haddr

theorem stored_append (h t : Trace) (reg : UInt8) :
    stored (h ++ t) reg = (stored t reg).or (stored h reg) := by
  rw [stored, List.filterMap_append, List.getLast?_append]
  rfl

theorem setting_quiet (hreg : reg ∈ txAddrReg :: settings) (hp : Reads Permitted p)
    (hd : Does p t a) (h : Trace) : stored (h ++ t) reg = stored h reg := by
  have hnone : t.filterMap (storedIn reg) = [] := by
    refine List.filterMap_eq_nil_iff.mpr fun x hx => ?_
    unfold storedIn
    split
    · exact if_neg (setting_apart hreg (hd.reads hp _ _ hx))
    · rfl
  rw [stored_append, stored, hnone]
  rfl

/-- `send` writes its address, and then aside of the settings. -/
theorem stored_send {dest : Option (Vector UInt8 5)} {data : List UInt8} {result : Bool × Conf}
    (hreg : reg ∈ txAddrReg :: settings) (hd : Does (send readCnt dev dest data) t result)
    (h : Trace) : stored (h ++ t) reg =
      (if reg = txAddrReg then dest.map Vector.toList else none).or (stored h reg) := by
  obtain ⟨t₁, t₂, _, rfl, haddress, hd⟩ := does_bind.mp hd
  have hrest : stored (h ++ t₁ ++ t₂) reg = stored (h ++ t₁) reg := by
    refine setting_quiet hreg ?_ hd (h ++ t₁)
    refine reads_bind (permitted_radioEn _) fun _ => reads_bind (permitted_switchMode _ _ _)
      fun _ => ?_
    refine reads_bind (permitted_of_auxiliary (auxiliary_write (by decide) _)) fun _ => ?_
    refine reads_bind (permitted_of_auxiliary (auxiliary_waitIrq _ _ _)) fun _ => ?_
    refine reads_bind (permitted_of_auxiliary (auxiliary_sendResult _ _)) fun _ => ?_
    refine reads_bind (permitted_of_auxiliary (auxiliary_clearIrq _ _)) fun _ => ?_
    refine reads_bind (permitted_of_auxiliary (auxiliary_flushBuffer (by decide))) fun _ => ?_
    exact reads_bind (permitted_sendEnd _ _) fun _ => trivial
  rw [← List.append_assoc, hrest, stored_append]
  cases dest with
  | none =>
    obtain ⟨rfl, -⟩ := haddress
    rw [Option.map_none, ite_self]
    rfl
  | some address =>
    obtain ⟨reply, t', rfl, rfl, -⟩ := haddress
    have hapart : txAddrReg ||| 0x20 = reg ||| 0x20 ↔ reg = txAddrReg := by
      have hall : ∀ reg ∈ txAddrReg :: settings,
          txAddrReg ||| 0x20 = reg ||| 0x20 ↔ reg = txAddrReg := by decide +kernel
      exact hall reg hreg
    have hlast : stored [.read (.write (txAddrReg ||| 0x20) address.toList) reply] reg =
        if reg = txAddrReg then some address.toList else none := by
      by_cases hsame : reg = txAddrReg
      · simp [stored, storedIn, hapart.mpr hsame, hsame]
      · simp [stored, storedIn, mt hapart.mp hsame, hsame]
    exact congrArg (Option.or · (stored h reg)) hlast

theorem stored_call {request : Request} (hreg : reg ∈ txAddrReg :: settings)
    (hd : Does (request.call readCnt dev) t dev') (h : Trace) : stored (h ++ t) reg =
      (if reg = txAddrReg then request.dest else none).or (stored h reg) := by
  have hquiet (hp : Reads Permitted (request.call readCnt dev)) (hdest : request.dest = none) :
      stored (h ++ t) reg =
        (if reg = txAddrReg then request.dest else none).or (stored h reg) := by
    rw [setting_quiet hreg hp hd, hdest, ite_self]
    rfl
  cases request with
  | send dest data =>
    obtain ⟨t₁, t₂, result, rfl, hsend, rfl, rfl⟩ := does_bind.mp hd
    rw [List.append_nil]
    exact stored_send hreg hsend h
  | recv => exact hquiet (reads_bind (permitted_recv _) fun _ => trivial) rfl
  | switchMode mode powerEnable => exact hquiet (permitted_switchMode _ _ _) rfl
  | sleep =>
    exact hquiet (reads_bind (permitted_radioEn _) fun _ => permitted_switchMode _ _ _) rfl
  | wakeup => exact hquiet (permitted_wakeup _) rfl

theorem lastDest_cons (request : Request) (requests : List Request) :
    lastDest (request :: requests) = (lastDest requests).or request.dest := by
  have happend : request :: requests = [request] ++ requests := rfl
  rw [lastDest, happend, List.filterMap_append, List.getLast?_append, ← lastDest]
  cases hdest : request.dest with
  | none => simp [hdest]
  | some bytes => simp [hdest]

/-- Of the settings a session changes the address that is sent to, with the last one named. -/
theorem stored_session {requests : List Request} (hreg : reg ∈ txAddrReg :: settings)
    (hd : Does (session readCnt dev requests) t dev') (h : Trace) : stored (h ++ t) reg =
      (if reg = txAddrReg then lastDest requests else none).or (stored h reg) := by
  induction requests generalizing dev h t with
  | nil =>
    obtain ⟨rfl, rfl⟩ := hd
    have hnone : lastDest [] = none := rfl
    rw [List.append_nil, hnone, ite_self]
    rfl
  | cons request requests ih =>
    obtain ⟨t₁, t₂, dev₁, rfl, hcall, hd⟩ := does_bind.mp hd
    rw [← List.append_assoc, ih hd, stored_call hreg hcall, lastDest_cons, ← Option.or_assoc]
    congr 1
    split
    · rfl
    · rfl

/-- **The radio over a session.** Whatever the bus and the radio answer: after
`nrf24l01_init` and any calls, the driver keeps what the machine of modes says, `CONFIG` has
it, with the bits of the interrupts inverted, and the pin is as the machine says; a receiver
is enabled with its power. The settings in the other registers are those of the beginning, and
`TX_ADDR` has the last address that a `send` has named. -/
theorem radio_follows (readCnt : UInt32) (conf dev dev' : Conf) (error : UInt8)
    (requests : List Request) (t₁ t₂ : Trace) (hinit : Does (nrf24l01Init conf) t₁ (error, dev))
    (hsession : Does (session readCnt dev requests) t₂ dev') :
    let r := requests.foldl Radio.step (Radio.init conf)
    dev'.config = r.config conf ∧
      programmed (t₁ ++ t₂) configReg = some ((r.config conf).toByte ^^^ invertIrqBits) ∧
      enabled (t₁ ++ t₂) = r.enabled ∧ r.Receives ∧
      (∀ reg ∈ settings, stored (t₁ ++ t₂) reg = stored t₁ reg) ∧
      stored (t₁ ++ t₂) txAddrReg = (lastDest requests).or (stored t₁ txAddrReg) := by
  have hf := follows_session (follows_init hinit) hsession
  refine ⟨hf.config, hf.register, hf.pin,
    Radio.receives_foldl (Radio.receives_set _ _ _) requests, fun reg hreg => ?_,
    stored_session List.mem_cons_self hsession t₁⟩
  have hne : reg ≠ txAddrReg := by
    rintro rfl
    exact absurd hreg (by decide)
  rw [stored_session (List.mem_cons_of_mem _ hreg) hsession, if_neg hne]
  rfl

/-- A transmitter with retransmissions, asleep at first. -/
def sender : Conf where
  readIrq := true
  error := 0
  config := ⟨.tx, false, true, true, false, false, false⟩
  autoAcknowledgment := 0x3F
  enabledRxAddresses := 0x3F
  addressWidths := 3
  autoRetransmit := 0x13
  channel := 2
  setup := 0x0F
  rxAddressP0 := none
  rxAddressP1 := none
  rxAddressP2 := 2
  rxAddressP3 := 3
  rxAddressP4 := 4
  rxAddressP5 := 5
  txAddress := none
  rxPipeSize := #v[32, 32, 32, 32, 32, 32]

/-- It sends a payload to an address, looks for one and goes to sleep. -/
theorem radio_follows_sender : ∃ t₁ t₂ error dev dev',
    Does (nrf24l01Init sender) t₁ (error, dev) ∧
    Does (session 100 dev [.send (some #v[1, 2, 3, 4, 5]) [1, 2], .recv, .sleep]) t₂ dev' ∧
    programmed (t₁ ++ t₂) configReg = some 0x3D ∧
    stored (t₁ ++ t₂) txAddrReg = some [1, 2, 3, 4, 5] := by
  have hrun : ∃ x, run (fun _ => ⟨0, 0⟩) (nrf24l01Init sender >>= fun r =>
    session 100 r.2 [.send (some #v[1, 2, 3, 4, 5]) [1, 2], .recv, .sleep]) 0 = some x := ⟨_, rfl⟩
  obtain ⟨⟨t, dev'⟩, hrun⟩ := hrun
  obtain ⟨t₁, t₂, ⟨error, dev⟩, m, hinit, hsession⟩ := run_bind_eq_some hrun
  refine ⟨t₁, t₂, error, dev, dev', does_of_run hinit, does_of_run hsession, ?_⟩
  obtain ⟨-, hregister, -, -, -, haddress⟩ := radio_follows 100 sender dev dev' error _ t₁ t₂
    (does_of_run hinit) (does_of_run hsession)
  exact ⟨hregister, haddress⟩

end MyLibraries.Nrf24
