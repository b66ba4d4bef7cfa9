import MyLibraries.SwI2c.Polling

/-!
# Sessions of the driver

Whatever the slaves answer, a call that gets the bus shows one transaction: a start, whole
frames of nine bits with repeated starts between them, and a stop. `SW_I2C_RESET_BUS` is the
exception. It pulls SDA low before SCL, which is a start, and lets SCL go last, so no stop
follows.
-/

namespace MyLibraries.SwI2c

open TwoWire Run

/-! ## The other functions -/

/-- `SW_I2C_RESET_BUS` -/
def Driver.resetBus (d : Driver) (bus : Bus) : Bus :=
  let bus := d.delay (ioSclWrite false (ioSdaWrite false bus))
  d.delay (ioSclWrite true (ioSdaWrite true bus))

/-- `SW_I2C_FAST_RD` after the start: the result and what `buf` holds. -/
def Driver.fastRd (d : Driver) (address : UInt8) (buf : List UInt8) (bus : Bus) :
    (I2CResult × List UInt8) × Bus :=
  let (ack, bus) := d.write (address ||| 0x01) bus
  let (result, buf, bus) :=
    if ack = 0 then
      let (buf, bus) := d.readBuf buf.length bus
      (I2CResult.success, buf, bus)
    else (.addNotExist, buf, bus)
  ((result, buf), d.stop bus)

/-- `SW_I2C_FAST_RD`: the result, what `buf` holds, and the lines. -/
def fastRd (driver : Option Driver) (address : UInt8) (buf : List UInt8) (bus : Bus) :
    (I2CResult × List UInt8) × Bus :=
  onBus driver (fun result => (result, buf)) (fun d bus => d.fastRd address buf bus) bus

/-! ## Calls -/

/-- The pointer `SW_I2C_Driver`, and what has been done to the lines. -/
structure State where
  driver : Option Driver
  bus : Bus

inductive Call
  | assign (driver : Option Driver)
  | resetBus
  | wr (address : UInt8) (reg buf : List UInt8)
  | rd (address : UInt8) (reg buf : List UInt8)
  | fastRd (address : UInt8) (buf : List UInt8)
  | rdPoolingAck (address reg : UInt8) (buf : List UInt8) (attempts : UInt8)
  | writeWithFlagPooling (address reg : UInt8) (value : Option UInt8)
      (attempts flagToPooling : UInt8)

/-- A call that returns a result, on the driver that is assigned. -/
def transfer (driver : Option Driver) (bus : Bus) : Call → I2CResult × Bus
  | .wr address reg buf => wr driver address reg buf bus
  | .rd address reg buf => Prod.map Prod.fst id (rd driver address reg buf bus)
  | .fastRd address buf => Prod.map Prod.fst id (fastRd driver address buf bus)
  | .rdPoolingAck address reg buf attempts =>
    Prod.map Prod.fst id (rdPoolingAck driver address reg buf attempts bus)
  | .writeWithFlagPooling address reg value attempts flagToPooling =>
    writeWithFlagPooling driver address reg value attempts flagToPooling bus
  | _ => (.success, bus)

/-- `SW_I2C_RESET_BUS` without a driver reads through a null pointer. -/
def step (s : State) : Call → Option (I2CResult × State)
  | .assign driver =>
    some (if driver.isSome then .success else .interfaceError, { s with driver := driver })
  | .resetBus => s.driver.map fun d => (.success, { s with bus := d.resetBus s.bus })
  | call =>
    let (result, bus) := transfer s.driver s.bus call
    some (result, { s with bus := bus })

/-- What the bus shows of a call with a result. -/
def Spoken : Call × I2CResult → List Symbol → Prop
  | (.assign _, _), ss => ss = []
  | (.resetBus, _), ss => ss = [.start]
  | (_, result), ss => (ss = [] ∧ (result = .busBusy ∨ result = .interfaceError)) ∨ Transaction ss

variable {d : Driver} {bus bus' bus'' : Bus} {m m' m'' : Monitor} {a : Bool}

/-! ## Frames -/

/-- From one state of the lines to the next, the bus shows starts and whole frames. -/
def Says (m : Monitor) (bus bus' : Bus) (m' : Monitor) : Prop :=
  ∃ es ss, bus' = bus ++ es ∧ Shows m es ss m' ∧ Framed ss

theorem Says.refl (m : Monitor) (bus : Bus) : Says m bus bus m :=
  ⟨[], [], (List.append_nil bus).symm, Shows.nil, .nil⟩

theorem Says.trans (h : Says m bus bus' m') (h' : Says m' bus' bus'' m'') :
    Says m bus bus'' m'' := by
  obtain ⟨es, ss, rfl, hes, hss⟩ := h
  obtain ⟨es', ss', rfl, hes', hss'⟩ := h'
  exact ⟨es ++ es', ss ++ ss', List.append_assoc .., hes.append hes', hss.append hss'⟩

variable (d)

theorem says_byte (bus : Bus) (a : Bool) (data : UInt8) :
    Says ⟨a, .low⟩ bus (bus ++ d.byteEvents data) ⟨true, .low⟩ := by
  obtain ⟨line, a', -, hbits⟩ := shown_bits (d := d) bus a (I2cGpio.bitsOf data)
  have hbyte := hbits.append (shown_bit (bus ++ d.dataEvents data) a' true)
  have hshows := hbyte.shows
  rw [← List.map_singleton, ← List.map_append] at hshows
  exact ⟨_, _, rfl, hshows, framed_bits rfl⟩

theorem says_write (bus : Bus) (a : Bool) (data : UInt8) :
    Says ⟨a, .low⟩ bus (d.write data bus).2 ⟨true, .low⟩ := by
  rw [Driver.write_eq]
  exact says_byte d bus a data

theorem says_readEvents (bus : Bus) (ack : Bool) :
    Says ⟨true, .low⟩ bus (bus ++ d.readEvents ack) ⟨true, .low⟩ := by
  have hbits := (shown_levels (d := d) bus 8).append (shown_bit _ true (!ack))
  rw [← List.map_singleton, ← List.map_append] at hbits
  have hrelease : Shows ⟨!ack, .low⟩ (if ack then [.sda true] else []) [] ⟨true, .low⟩ := by
    cases ack with
    | true => exact ⟨rfl, rfl⟩
    | false => exact ⟨rfl, rfl⟩
  have hshows := hbits.shows.append hrelease
  rw [List.append_nil, List.append_assoc] at hshows
  exact ⟨_, _, rfl, hshows, framed_bits rfl⟩

theorem says_read (bus : Bus) (ack : UInt8) :
    Says ⟨true, .low⟩ bus (d.read ack bus).2 ⟨true, .low⟩ := by
  rw [Driver.read_eq]
  exact says_readEvents d bus _

theorem says_reStartEvents (bus : Bus) :
    Says ⟨true, .low⟩ bus (bus ++ d.reStartEvents) ⟨false, .low⟩ := by
  refine ⟨_, [.start], rfl, ?_, .start .nil⟩
  unfold Driver.reStartEvents Driver.checkEvents Driver.pause
  split <;> exact ⟨rfl, rfl⟩

theorem says_reStart (bus : Bus) : Says ⟨true, .low⟩ bus (d.reStart bus) ⟨false, .low⟩ := by
  rw [Driver.reStart_eq]
  exact says_reStartEvents d bus

theorem says_rounds {events : List Event}
    (h : ∀ bus, Says ⟨true, .low⟩ bus (bus ++ events) ⟨true, .low⟩) (k : Nat) (bus : Bus) :
    Says ⟨true, .low⟩ bus (Driver.rounds events bus k) ⟨true, .low⟩ := by
  induction k generalizing bus with
  | zero =>
    rw [Driver.rounds_zero]
    exact Says.refl _ _
  | succ k ih =>
    rw [← Driver.rounds_succ]
    exact (h bus).trans (ih _)

/-! ## Loops -/

theorem says_writeReg (reg : List UInt8) (result : I2CResult) (bus : Bus) :
    Says ⟨true, .low⟩ bus (d.writeReg reg result bus).2 ⟨true, .low⟩ := by
  induction reg generalizing result bus with
  | nil => exact Says.refl _ _
  | cons byte reg ih => exact (says_write d bus true byte).trans (ih _ _)

theorem says_writeBuf (buf : List UInt8) (result : I2CResult) (bus : Bus) :
    Says ⟨true, .low⟩ bus (d.writeBuf buf result bus).2 ⟨true, .low⟩ := by
  induction buf generalizing result bus with
  | nil => exact Says.refl _ _
  | cons byte buf ih =>
    rw [Driver.writeBuf]
    split
    · exact (says_write d bus true byte).trans (ih _ _)
    · exact Says.refl _ _

theorem says_readBuf (size : Nat) (bus : Bus) :
    Says ⟨true, .low⟩ bus (d.readBuf size bus).2 ⟨true, .low⟩ := by
  induction size generalizing bus with
  | zero => exact Says.refl _ _
  | succ size ih => exact (says_read d bus _).trans (ih _)

theorem says_poll (address : UInt8) (bus : Bus) :
    Says ⟨true, .low⟩ bus (bus ++ d.pollEvents address) ⟨true, .low⟩ := by
  rw [Driver.pollEvents, ← List.append_assoc]
  exact (says_reStartEvents d bus).trans (says_byte d _ false _)

theorem says_poolingLoop (address attempts : UInt8) (bus : Bus) :
    Says ⟨true, .low⟩ bus (d.poolingLoop address attempts bus).2.2 ⟨true, .low⟩ := by
  obtain ⟨k, result, left, hloop, -⟩ := Driver.poolingLoop_eq (d := d) address attempts bus
  rw [hloop]
  exact says_rounds (says_poll d address) _ _

theorem says_flagLoop (flagToPooling attempts : UInt8) (bus : Bus) :
    Says ⟨true, .low⟩ bus (d.flagLoop flagToPooling attempts bus).2 ⟨true, .low⟩ := by
  obtain ⟨k, left, hloop, -⟩ := Driver.flagLoop_eq (d := d) flagToPooling attempts bus
  rw [hloop]
  exact says_rounds (fun bus => says_readEvents d bus true) _ _

/-! ## Transfers -/

theorem says_wr (address : UInt8) (reg buf : List UInt8) (a : Bool) (bus : Bus) :
    ∃ bus', Says ⟨a, .low⟩ bus bus' ⟨true, .low⟩ ∧ (d.wr address reg buf bus).2 = d.stop bus' := by
  unfold Driver.wr
  simp only
  split
  · refine ⟨_, ?_, rfl⟩
    exact ((says_write d bus a _).trans (says_writeReg d reg _ _)).trans (says_writeBuf d buf _ _)
  · exact ⟨_, says_write d bus a _, rfl⟩

theorem says_rd (address : UInt8) (reg buf : List UInt8) (a : Bool) (bus : Bus) :
    ∃ bus', Says ⟨a, .low⟩ bus bus' ⟨true, .low⟩ ∧ (d.rd address reg buf bus).2 = d.stop bus' := by
  have hreg := (says_write d bus a (address &&& 0xFE)).trans
    (says_writeReg d reg (.ofUInt16 0) _)
  have haddr := (hreg.trans (says_reStart d _)).trans (says_write d _ false (address ||| 0x01))
  unfold Driver.rd
  simp only
  split
  · split
    · exact ⟨_, haddr.trans (says_readBuf d _ _), rfl⟩
    · exact ⟨_, haddr, rfl⟩
  · exact ⟨_, says_write d bus a _, rfl⟩

theorem says_fastRd (address : UInt8) (buf : List UInt8) (a : Bool) (bus : Bus) :
    ∃ bus', Says ⟨a, .low⟩ bus bus' ⟨true, .low⟩ ∧
      (d.fastRd address buf bus).2 = d.stop bus' := by
  have haddr := says_write d bus a (address ||| 0x01)
  unfold Driver.fastRd
  simp only
  split
  · exact ⟨_, haddr.trans (says_readBuf d _ _), rfl⟩
  · exact ⟨_, haddr, rfl⟩

theorem says_rdPoolingAck (address reg : UInt8) (buf : List UInt8) (attempts : UInt8) (a : Bool)
    (bus : Bus) : ∃ bus', Says ⟨a, .low⟩ bus bus' ⟨true, .low⟩ ∧
      (d.rdPoolingAck address reg buf attempts bus).2 = d.stop bus' := by
  have haddr := says_write d bus a (address &&& 0xFE)
  have hpolled := (haddr.trans (says_write d _ true reg)).trans
    (says_poolingLoop d address attempts _)
  unfold Driver.rdPoolingAck
  simp only
  split
  · split
    · exact ⟨_, hpolled.trans (says_readBuf d _ _), rfl⟩
    · exact ⟨_, hpolled, rfl⟩
  · exact ⟨_, haddr, rfl⟩

/-- From the repeated start on. -/
theorem says_flags (address attempts flagToPooling : UInt8) (bus : Bus) :
    Says ⟨true, .low⟩ bus (d.read 0 (d.flagLoop flagToPooling attempts
      (d.write (address ||| 0x01) (d.reStart bus)).2).2).2 ⟨true, .low⟩ := by
  have hpoll := (says_reStart d bus).trans (says_write d _ false (address ||| 0x01))
  exact (hpoll.trans (says_flagLoop d flagToPooling attempts _)).trans (says_read d _ 0)

theorem snd_ite {α β : Type} {p : Prop} [Decidable p] (x y : α) (b : β) :
    (if p then (x, b) else (y, b)).2 = b := by
  split <;> rfl

theorem says_writeWithFlagPooling (address reg : UInt8) (value : Option UInt8)
    (attempts flagToPooling : UInt8) (a : Bool) (bus : Bus) :
    ∃ bus', Says ⟨a, .low⟩ bus bus' ⟨true, .low⟩ ∧
      (d.writeWithFlagPooling address reg value attempts flagToPooling bus).2 = d.stop bus' := by
  have haddr := says_write d bus a (address &&& 0xFE)
  have hreg : ∀ bus, Says ⟨true, .low⟩ bus (if reg ≠ 0 then (d.write reg bus).2 else bus)
      ⟨true, .low⟩ := by
    intro bus
    split
    · exact says_write d bus true reg
    · exact Says.refl _ _
  have hsent := haddr.trans (hreg _)
  unfold Driver.writeWithFlagPooling
  simp only [snd_ite]
  split
  · cases value with
    | some value =>
      exact ⟨_, (hsent.trans (says_write d _ true value)).trans (says_flags d _ _ _ _), rfl⟩
    | none => exact ⟨_, hsent.trans (says_flags d _ _ _ _), rfl⟩
  · exact ⟨_, haddr, rfl⟩

/-! ## Calls -/

/-- Both lines are released. -/
def Released (m : Monitor) : Prop := m.sda = true ∧ m.clock.level = true

/-- What is read from the lines after the calls so far, and how they are left. -/
def Heard (bus : Bus) (ss : List Symbol) : Prop :=
  symbols .idle bus = ss ∧ Released (after .idle bus)

variable {d} {driver : Option Driver} {ss ts : List Symbol}

theorem released_cases {m : Monitor} (h : Released m) : m = ⟨true, .high⟩ ∨ m = ⟨true, .pulse⟩ := by
  obtain ⟨sda, clock⟩ := m
  obtain ⟨rfl, hclock⟩ := h
  cases clock with
  | low => cases hclock
  | high => exact .inl rfl
  | pulse => exact .inr rfl

theorem Heard.append {es : List Event} {m : Monitor} (h : Heard bus ss)
    (hes : Shows (after .idle bus) es ts m) (hm : Released m) : Heard (bus ++ es) (ss ++ ts) := by
  have hshows : Shows .idle bus ss (after .idle bus) := ⟨h.1, rfl⟩
  obtain ⟨hsymbols, hafter⟩ := hshows.append hes
  refine ⟨hsymbols, ?_⟩
  rw [hafter]
  exact hm

/-- The lines of a busy bus are left as they are. -/
theorem heard_check (h : Heard bus ss) : Heard (bus ++ d.checkEvents) ss := by
  have hcheck : Shows (after .idle bus) d.checkEvents [] (after .idle bus) := by
    rcases released_cases h.2 with hm | hm <;> rw [hm] <;>
      unfold Driver.checkEvents Driver.pause <;> split <;> exact ⟨rfl, rfl⟩
  have hheard := h.append hcheck h.2
  rwa [List.append_nil] at hheard

theorem shows_start {m : Monitor} (h : Released m) :
    Shows m (d.checkEvents ++ d.startEvents) [.start] ⟨false, .low⟩ := by
  rcases released_cases h with rfl | rfl <;>
    unfold Driver.startEvents Driver.checkEvents Driver.pause <;> split <;> exact ⟨rfl, rfl⟩

theorem shows_stop : Shows ⟨true, .low⟩ d.stopEvents [.stop] .idle := by
  unfold Driver.stopEvents Driver.pause
  split <;> exact ⟨rfl, rfl⟩

theorem heard_resetBus (h : Heard bus ss) : Heard (d.resetBus bus) (ss ++ [.start]) := by
  have hreset : ∃ es, d.resetBus bus = bus ++ es ∧
      Shows (after .idle bus) es [.start] ⟨true, .pulse⟩ := by
    refine ⟨.sda false :: .scl false :: (d.pause ++ .sda true :: .scl true :: d.pause), ?_, ?_⟩
    · simp [Driver.resetBus, Driver.delay_eq, ioSclWrite, ioSdaWrite]
    · rcases released_cases h.2 with hm | hm <;> rw [hm] <;> unfold Driver.pause <;> split <;>
        exact ⟨rfl, rfl⟩
  obtain ⟨es, heq, hes⟩ := hreset
  rw [heq]
  exact h.append hes ⟨rfl, rfl⟩

/-- A transfer that got the bus is one transaction. -/
theorem heard_transaction (h : Heard bus ss)
    (hspoken : Says ⟨false, .low⟩ (bus ++ (d.checkEvents ++ d.startEvents)) bus' ⟨true, .low⟩) :
    ∃ ts, Transaction ts ∧ Heard (d.stop bus') (ss ++ ts) := by
  obtain ⟨es, inner, rfl, hes, hinner⟩ := hspoken
  have hall := ((shows_start (d := d) h.2).append hes).append (shows_stop (d := d))
  refine ⟨_, ⟨inner, hinner, rfl⟩, ?_⟩
  rw [Driver.stop_eq]
  simp only [List.append_assoc] at hall ⊢
  exact h.append hall ⟨rfl, rfl⟩

/-- A call is refused, or it is a transaction. -/
theorem heard_onBus {α : Type} (driver : Option Driver) (refused : I2CResult → α)
    {f : Driver → Bus → α × Bus}
    (hf : ∀ d bus, ∃ bus', Says ⟨false, .low⟩ bus bus' ⟨true, .low⟩ ∧ (f d bus).2 = d.stop bus')
    (h : Heard bus ss) :
    ∃ ts, Heard (onBus driver refused f bus).2 (ss ++ ts) ∧
      ((ts = [] ∧ ((onBus driver refused f bus).1 = refused .busBusy ∨
        (onBus driver refused f bus).1 = refused .interfaceError)) ∨ Transaction ts) := by
  cases driver with
  | none => exact ⟨[], by rw [List.append_nil]; exact h, .inl ⟨rfl, .inr rfl⟩⟩
  | some d =>
    unfold onBus
    simp only [Driver.start_eq]
    by_cases hbusy : d.ioSdaRead (bus ++ d.checkEvents) = 0
    · rw [if_pos hbusy]
      refine ⟨[], ?_, .inl ⟨rfl, .inl rfl⟩⟩
      rw [List.append_nil]
      exact heard_check h
    · rw [if_neg hbusy]
      obtain ⟨bus', hspoken, hstop⟩ := hf d (bus ++ d.checkEvents ++ d.startEvents)
      rw [List.append_assoc] at hspoken
      obtain ⟨ts, htrans, hheard⟩ := heard_transaction h hspoken
      refine ⟨ts, ?_, .inr htrans⟩
      rw [← hstop] at hheard
      exact hheard

/-! ## Sessions -/

variable {s s' : State} {call : Call} {result : I2CResult} {rs : List I2CResult}

theorem heard_step (h : Heard s.bus ss) (hstep : step s call = some (result, s')) :
    ∃ ts, Spoken (call, result) ts ∧ Heard s'.bus (ss ++ ts) := by
  cases call with
  | assign driver =>
    cases hstep
    exact ⟨[], rfl, by rw [List.append_nil]; exact h⟩
  | resetBus =>
    obtain ⟨d, -, heq⟩ := Option.map_eq_some_iff.mp hstep
    cases heq
    exact ⟨[.start], rfl, heard_resetBus h⟩
  | wr address reg buf =>
    cases hstep
    obtain ⟨ts, hheard, hts⟩ := heard_onBus s.driver id
      (fun d bus => says_wr d address reg buf false bus) h
    exact ⟨ts, hts, hheard⟩
  | rd address reg buf =>
    cases hstep
    obtain ⟨ts, hheard, hts⟩ := heard_onBus s.driver (fun result => (result, buf))
      (fun d bus => says_rd d address reg buf false bus) h
    exact ⟨ts, hts.imp_left fun hr => ⟨hr.1, hr.2.imp (congrArg Prod.fst) (congrArg Prod.fst)⟩,
      hheard⟩
  | fastRd address buf =>
    cases hstep
    obtain ⟨ts, hheard, hts⟩ := heard_onBus s.driver (fun result => (result, buf))
      (fun d bus => says_fastRd d address buf false bus) h
    exact ⟨ts, hts.imp_left fun hr => ⟨hr.1, hr.2.imp (congrArg Prod.fst) (congrArg Prod.fst)⟩,
      hheard⟩
  | rdPoolingAck address reg buf attempts =>
    cases hstep
    obtain ⟨ts, hheard, hts⟩ := heard_onBus s.driver (fun result => (result, buf))
      (fun d bus => says_rdPoolingAck d address reg buf attempts false bus) h
    exact ⟨ts, hts.imp_left fun hr => ⟨hr.1, hr.2.imp (congrArg Prod.fst) (congrArg Prod.fst)⟩,
      hheard⟩
  | writeWithFlagPooling address reg value attempts flagToPooling =>
    cases hstep
    obtain ⟨ts, hheard, hts⟩ := heard_onBus s.driver id
      (fun d bus => says_writeWithFlagPooling d address reg value attempts flagToPooling false bus)
      h
    exact ⟨ts, hts, hheard⟩

theorem heard_run {calls : List Call} (h : Heard s.bus ss)
    (hrun : run step s calls = some (rs, s')) :
    ∃ spoken, List.Forall₂ Spoken (calls.zip rs) spoken ∧ Heard s'.bus (ss ++ spoken.flatten) := by
  induction calls generalizing s ss rs with
  | nil =>
    cases hrun
    exact ⟨[], .nil, by rw [List.flatten_nil, List.append_nil]; exact h⟩
  | cons call calls ih =>
    obtain ⟨result, s₁, rs', h₁, h₂, rfl⟩ := run_cons_eq_some hrun
    obtain ⟨ts, hts, hheard⟩ := heard_step h h₁
    obtain ⟨spoken, hspoken, hend⟩ := ih hheard h₂
    refine ⟨ts :: spoken, .cons hts hspoken, ?_⟩
    rw [List.flatten_cons, ← List.append_assoc]
    exact hend

/-- **The grammar of the bus.** Through every session, whatever the slaves answer, what the
bus shows of a call is nothing when the call is refused, a start for a reset, and one
transaction otherwise, and between the calls both lines are released. -/
theorem session_grammar (driver : Option Driver) (calls : List Call)
    (h : run step ⟨driver, []⟩ calls = some (rs, s)) :
    ∃ spoken, List.Forall₂ Spoken (calls.zip rs) spoken ∧
      symbols .idle s.bus = spoken.flatten ∧ Released (after .idle s.bus) := by
  have hinit : Heard (State.mk driver []).bus [] := ⟨rfl, rfl, rfl⟩
  obtain ⟨spoken, hspoken, hheard⟩ := heard_run hinit h
  exact ⟨spoken, hspoken, hheard⟩

/-- A bus without slaves. -/
def noSlaves : Driver where
  delayFunc := false
  ioSdaRead := fun _ => 1

theorem session_grammar_no_slaves :
    ∃ rs s, run step ⟨none, []⟩ [.fastRd 0x50 [0], .assign (some noSlaves), .resetBus,
        .wr 0x50 [1] [2]] = some (rs, s) ∧
      rs = [.interfaceError, .success, .success, .addNotExist] ∧
      ∃ spoken, List.Forall₂ Spoken ([.fastRd 0x50 [0], .assign (some noSlaves), .resetBus,
          .wr 0x50 [1] [2]].zip rs) spoken ∧
        symbols .idle s.bus = spoken.flatten ∧ Released (after .idle s.bus) :=
  ⟨_, _, rfl, rfl, session_grammar none _ rfl⟩

end MyLibraries.SwI2c
