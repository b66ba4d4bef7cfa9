import Mathlib.Tactic.IntervalCases
import MyLibraries.Nrf24.Model

/-!
# The payloads that `recv` asks for

`nrf24l01_init` programs the size of each pipe, but not more than `MAX_PIPE_SIZE`; `recv` asks
for as many bytes as the configuration says, whatever that is, from the pipe that the radio
names, whatever that is. So a call stays in bounds exactly when the `STATUS` that was read
behind the interrupt names one of the six pipes, and its size needed no cut
(`recv_in_bounds_iff`). With an empty FIFO the radio names pipe 7.
-/

namespace MyLibraries.Nrf24

open Device

abbrev Trace := List (Access Port Reply)

/-- The value that an access writes to a register. -/
def wroteTo (reg : UInt8) : Access Port Reply → Option UInt8
  | .read (.write addr [value]) _ => if addr = reg ||| 0x20 then some value else none
  | _ => none

/-- What is in a register after these accesses, when they have written it. -/
def programmed (t : Trace) (reg : UInt8) : Option UInt8 := (t.filterMap (wroteTo reg)).getLast?

/-- The register is not written. -/
def Apart (reg : UInt8) : Port → Prop
  | .write addr _ => addr ≠ reg ||| 0x20
  | _ => True

/-- A read of the `STATUS` register. -/
def statusRead (reply : Reply) : Access Port Reply := .read (.read statusReg 1) reply

/-- A read of a payload. -/
def payloadRead (size : UInt8) (reply : Reply) : Access Port Reply :=
  .read (.read rxPayloadCmd size) reply

/-- The last access has found the interrupt raised. -/
def Raised (dev : Conf) (t : Trace) : Prop :=
  ∃ reply, if dev.readIrq then t.getLast? = some (.read .readIrq reply) ∧ reply.byte = 0
    else t.getLast? = some (statusRead reply) ∧ reply.byte &&& rxDrIrqMask ≠ 0

/-- The pipe is one of the six, and its payload has at most 32 bytes. -/
def PipeOk (dev : Conf) (pipe : Nat) : Prop :=
  ∃ size, dev.rxPipeSize[pipe]? = some size ∧ size ≤ maxPipeSize

/-- As many bytes as were programmed, and at most 32, for the pipe that was just read. -/
def AsProgrammed (setup : Trace) (size : UInt8) (t : Trace) : Prop :=
  size ≤ maxPipeSize ∧ ∃ reply, t.getLast? = some (statusRead reply) ∧
    programmed setup (rxPwReg (pipeOf reply.byte)) = some size

/-- The payloads that are asked for, behind `h`, are as `nrf24l01_init` has programmed them. -/
def Asks (setup h t : Trace) : Prop :=
  ∀ size reply, Whenever h (payloadRead size reply) (AsProgrammed setup size) t

/-- The pipes that the radio names for its interrupts, behind `h`, are there and small. -/
def Names (dev : Conf) (h t : Trace) : Prop :=
  ∀ status, Whenever h (statusRead status)
    (fun t' => Raised dev t' → PipeOk dev (pipeOf status.byte)) t

variable {dev dev' conf : Conf} {t setup h : Trace} {reg value : UInt8} {α : Type} {p : Io α}
  {a : α}

/-! ## The sizes that are programmed -/

theorem does_writeReg : Does (writeReg dev reg value) t dev' ↔ ∃ reply : Reply,
    t = [.read (.write (((0x1F : UInt8) &&& reg) ||| 0x20) [value]) reply] ∧
      dev' = { dev with error := reply.code } :=
  does_read

/-- A row of writes leaves in the registers what stands in it. -/
theorem does_writeRegs {rows : List (UInt8 × UInt8)} (hd : Does (writeRegs dev rows) t dev') :
    dev' = { dev with error := dev'.error } ∧ ∀ reg, t.filterMap (wroteTo reg) =
      rows.filterMap fun row =>
        if ((0x1F : UInt8) &&& row.1) ||| 0x20 = reg ||| 0x20 then some row.2 else none := by
  induction rows generalizing dev t with
  | nil =>
    obtain ⟨rfl, rfl⟩ := hd
    exact ⟨rfl, fun reg => rfl⟩
  | cons row rows ih =>
    obtain ⟨t₁, t₂, dev₁, rfl, hwrite, hd⟩ := does_bind.mp hd
    obtain ⟨reply, rfl, rfl⟩ := does_writeReg.mp hwrite
    obtain ⟨hdev, hrest⟩ := ih hd
    refine ⟨hdev, fun reg => ?_⟩
    rw [List.filterMap_append, hrest, List.filterMap_cons, List.filterMap_cons]
    simp only [wroteTo]
    split <;> rfl

/-- A program apart from a register writes nothing to it. -/
theorem apart_quiet (hp : Reads (Apart reg) p) (hd : Does p t a) :
    t.filterMap (wroteTo reg) = [] := by
  refine List.filterMap_eq_nil_iff.mpr fun x hx => ?_
  unfold wroteTo
  split
  · exact if_neg (hd.reads hp _ _ hx)
  · rfl

theorem apart_writeAddress {addr : UInt8} (haddr : addr ||| 0x20 ≠ reg ||| 0x20)
    (address : Option (Vector UInt8 5)) : Reads (Apart reg) (writeAddress addr address) := by
  unfold writeAddress
  split
  · trivial
  · exact ⟨haddr, fun _ => trivial⟩

theorem apart_switchMode (hreg : 0x20 ≠ reg ||| 0x20) (dev : Conf) (mode : RadioMode)
    (powerEnable : Bool) : Reads (Apart reg) (switchMode dev mode powerEnable) := by
  refine reads_bind ⟨hreg, fun _ => trivial⟩ fun dev => ?_
  cases mode with
  | tx => exact ⟨hreg, fun _ => trivial⟩
  | rx => exact reads_bind ⟨trivial, fun _ => trivial⟩ fun _ => ⟨hreg, fun _ => trivial⟩

/-- The registers of the sizes have addresses of their own. -/
theorem rxPwReg_ne {pipe : Nat} (hpipe : pipe < 6) :
    configReg ||| 0x20 ≠ rxPwReg pipe ||| 0x20 ∧ rxAddrP0Reg ||| 0x20 ≠ rxPwReg pipe ||| 0x20 ∧
      rxAddrP1Reg ||| 0x20 ≠ rxPwReg pipe ||| 0x20 ∧
      txAddrReg ||| 0x20 ≠ rxPwReg pipe ||| 0x20 := by
  interval_cases pipe <;> decide

theorem rxPwReg_inj (i pipe : Fin 6) :
    ((0x1F : UInt8) &&& rxPwReg i.val) ||| 0x20 = rxPwReg pipe.val ||| 0x20 ↔ i = pipe := by
  revert i pipe
  decide

/-- The row of the sizes has one entry for each pipe. -/
theorem sizes_filterMap (f : Fin 6 → UInt8) (pipe : Fin 6) :
    (((List.finRange 6).map fun i => (rxPwReg i.val, f i)).filterMap fun row =>
      if ((0x1F : UInt8) &&& row.1) ||| 0x20 = rxPwReg pipe.val ||| 0x20 then some row.2
      else none) = [f pipe] := by
  rw [List.filterMap_map]
  simp only [Function.comp_def, rxPwReg_inj]
  match pipe with
  | 0 => rfl
  | 1 => rfl
  | 2 => rfl
  | 3 => rfl
  | 4 => rfl
  | 5 => rfl

/-- What `nrf24l01_init` leaves for a pipe. -/
theorem init_programmed {r : UInt8 × Conf} (hd : Does (nrf24l01Init dev) t r) (pipe : Nat)
    (hpipe : pipe < 6) :
    programmed t (rxPwReg pipe) = some (minOf dev.rxPipeSize[pipe] maxPipeSize) := by
  obtain ⟨hconfig, hp0, hp1, htx⟩ := rxPwReg_ne hpipe
  unfold nrf24l01Init at hd
  obtain ⟨t₁, s₁, dev₁, rfl, hdisable, hd⟩ := does_bind.mp hd
  obtain ⟨t₂, s₂, dev₂, rfl, hrows, hd⟩ := does_bind.mp hd
  obtain ⟨t₃, s₃, _, rfl, hfirst, hd⟩ := does_bind.mp hd
  obtain ⟨t₄, s₄, _, rfl, hsecond, hd⟩ := does_bind.mp hd
  obtain ⟨t₅, s₅, _, rfl, hown, hd⟩ := does_bind.mp hd
  obtain ⟨t₆, s₆, dev₃, rfl, haddresses, hd⟩ := does_bind.mp hd
  obtain ⟨t₇, s₇, dev₄, rfl, hsizes, hd⟩ := does_bind.mp hd
  obtain ⟨t₈, s₈, dev₅, rfl, hmode, hd⟩ := does_bind.mp hd
  obtain ⟨rfl, -⟩ := hd
  obtain ⟨reply, -, hdev₁⟩ := does_writeReg.mp hdisable
  obtain ⟨hdev₂, hsettings⟩ := does_writeRegs hrows
  obtain ⟨hdev₃, hshort⟩ := does_writeRegs haddresses
  obtain ⟨-, hvalues⟩ := does_writeRegs hsizes
  have hsize : dev₃.rxPipeSize = dev.rxPipeSize := by rw [hdev₃, hdev₂, hdev₁]
  have hapart : Reads (Apart (rxPwReg pipe)) (disableRadio dev) := ⟨hconfig, fun _ => trivial⟩
  have hrow : t₇.filterMap (wroteTo (rxPwReg pipe)) =
      [minOf dev.rxPipeSize[pipe] maxPipeSize] := by
    rw [hvalues, hsize]
    exact sizes_filterMap (fun i => minOf (dev.rxPipeSize.get i) maxPipeSize) ⟨pipe, hpipe⟩
  have hrest : t₂.filterMap (wroteTo (rxPwReg pipe)) = [] ∧
      t₆.filterMap (wroteTo (rxPwReg pipe)) = [] := by
    rw [hsettings, hshort]
    interval_cases pipe <;> simp +decide [rxPwReg]
  rw [programmed, List.filterMap_append, List.filterMap_append, List.filterMap_append,
    List.filterMap_append, List.filterMap_append, List.filterMap_append, List.filterMap_append,
    List.filterMap_append, apart_quiet hapart hdisable, hrest.1,
    apart_quiet (apart_writeAddress hp0 _) hfirst, apart_quiet (apart_writeAddress hp1 _) hsecond,
    apart_quiet (apart_writeAddress htx _) hown, hrest.2, hrow,
    apart_quiet (apart_switchMode hconfig _ _ _) hmode]
  rfl

/-! ## The part before the interrupt -/

/-- The port reads neither the `STATUS` nor a payload. -/
def Plain : Port → Prop
  | .read reg _ => reg ≠ statusReg ∧ reg ≠ rxPayloadCmd
  | _ => True

theorem asks_append {t₁ t₂ : Trace} :
    Asks setup h (t₁ ++ t₂) ↔ Asks setup h t₁ ∧ Asks setup (h ++ t₁) t₂ := by
  simp only [Asks, whenever_append, forall_and]

theorem names_append {t₁ t₂ : Trace} :
    Names conf h (t₁ ++ t₂) ↔ Names conf h t₁ ∧ Names conf (h ++ t₁) t₂ := by
  simp only [Names, whenever_append, forall_and]

/-- A program with plain reads asks for nothing and is named nothing. -/
theorem plain_quiet (hp : Reads Plain p) (hd : Does p t a) : Asks setup h t ∧ Names conf h t :=
  ⟨fun _ _ => whenever_of_not_mem fun hmem => (hd.reads hp _ _ hmem).2 rfl,
    fun _ => whenever_of_not_mem fun hmem => (hd.reads hp _ _ hmem).1 rfl⟩

theorem plain_writeReg (dev : Conf) (reg value : UInt8) : Reads Plain (writeReg dev reg value) :=
  ⟨trivial, fun _ => trivial⟩

theorem plain_switchMode (dev : Conf) (mode : RadioMode) (powerEnable : Bool) :
    Reads Plain (switchMode dev mode powerEnable) := by
  refine reads_bind (plain_writeReg _ _ _) fun dev => ?_
  cases mode with
  | tx => exact plain_writeReg _ _ _
  | rx => exact reads_bind ⟨trivial, fun _ => trivial⟩ fun _ => plain_writeReg _ _ _

theorem plain_toReceiver (dev : Conf) : Reads Plain (toReceiver dev) := by
  unfold toReceiver
  split
  · exact reads_bind (plain_switchMode _ _ _) fun _ => ⟨trivial, fun _ => trivial⟩
  · trivial

theorem total_switchMode (dev : Conf) (mode : RadioMode) (powerEnable : Bool) :
    Total (switchMode dev mode powerEnable) := by
  refine total_bind (fun _ => trivial) fun dev => ?_
  cases mode with
  | tx => exact fun _ => trivial
  | rx => exact total_bind (fun _ => trivial) fun _ _ => trivial

theorem total_toReceiver (dev : Conf) : Total (toReceiver dev) := by
  unfold toReceiver
  split
  · exact total_bind (total_switchMode _ _ _) fun _ _ => trivial
  · trivial

theorem plain_clearIfEmpty (dev : Conf) : Reads Plain (clearIfEmpty dev) := by
  refine reads_bind ⟨⟨by decide, by decide⟩, fun _ => trivial⟩ fun r => ?_
  dsimp only
  split
  · exact reads_bind (plain_writeReg _ _ _) fun _ => ⟨trivial, fun _ => trivial⟩
  · trivial

theorem total_clearIfEmpty (dev : Conf) : Total (clearIfEmpty dev) := by
  refine total_bind (fun _ => trivial) fun r => ?_
  dsimp only
  split
  · exact total_bind (fun _ => trivial) fun _ _ => trivial
  · trivial

/-- The call goes on with the same pin and the same sizes. -/
def Same (dev dev' : Conf) : Prop :=
  dev'.readIrq = dev.readIrq ∧ dev'.rxPipeSize = dev.rxPipeSize

theorem same_toReceiver (hd : Does (toReceiver dev) t dev') : Same dev dev' := by
  unfold toReceiver at hd
  split at hd
  · obtain ⟨t₁, t₂, dev₁, rfl, hswitch, hd⟩ := does_bind.mp hd
    obtain ⟨t₃, t₄, _, -, -, -, rfl⟩ := does_bind.mp hd
    obtain ⟨t₅, t₆, dev₂, -, hdisable, hswitch⟩ := does_bind.mp hswitch
    obtain ⟨t₇, t₈, _, -, -, hupdate⟩ := does_bind.mp hswitch
    obtain ⟨_, -, rfl⟩ := does_writeReg.mp hdisable
    obtain ⟨_, -, rfl⟩ := does_writeReg.mp hupdate
    exact ⟨rfl, rfl⟩
  · obtain ⟨-, rfl⟩ := hd
    exact ⟨rfl, rfl⟩

/-- Behind plain reads there is no `STATUS` to have found the interrupt in. -/
theorem not_raised_of_plain (hp : Reads Plain p) (hd : Does p t a) (hpin : conf.readIrq = false) :
    ¬Raised conf t := by
  rintro ⟨reply, hraised⟩
  rw [if_neg (by rw [hpin]; decide)] at hraised
  exact (hd.reads hp _ _ (List.mem_of_getLast? hraised.1)).1 rfl

/-- The check of the interrupt: it is plain, but for a `STATUS` that nothing has raised. -/
theorem readIrq_spec {raised : Bool} (hd : Does (readIrq dev rxDrIrqMask) t (raised, dev'))
    (hpin : dev.readIrq = conf.readIrq) (hquiet : conf.readIrq = false → ¬Raised conf h) :
    Same dev dev' ∧ (raised = true → Raised conf (h ++ t)) ∧ Asks setup h t ∧ Names conf h t := by
  unfold readIrq at hd
  split at hd
  · rename_i hset
    obtain ⟨reply, t', rfl, rfl, hpair⟩ := hd
    obtain ⟨rfl, rfl⟩ := Prod.mk.inj hpair
    refine ⟨⟨rfl, rfl⟩, fun hraised => ⟨reply, ?_⟩, fun size reply' => ?_, fun status => ?_⟩
    · rw [if_pos (hpin ▸ hset), List.getLast?_concat]
      exact ⟨rfl, of_decide_eq_true hraised⟩
    · exact whenever_cons.mpr ⟨fun heq => (nomatch heq), whenever_nil⟩
    · exact whenever_cons.mpr ⟨fun heq => (nomatch heq), whenever_nil⟩
  · rename_i hset
    obtain ⟨reply, t', rfl, rfl, hpair⟩ := hd
    obtain ⟨rfl, rfl⟩ := Prod.mk.inj hpair
    have hclear : conf.readIrq = false := by
      rw [← hpin]
      exact Bool.eq_false_iff.mpr hset
    refine ⟨⟨rfl, rfl⟩, fun hraised => ⟨reply, ?_⟩, fun size reply' => ?_, fun status => ?_⟩
    · rw [if_neg (by rw [hclear]; decide), List.getLast?_concat]
      exact ⟨rfl, of_decide_eq_true hraised⟩
    · refine whenever_cons.mpr ⟨fun heq => ?_, whenever_nil⟩
      cases heq
    · exact whenever_cons.mpr ⟨fun _ hraised => absurd hraised (hquiet hclear), whenever_nil⟩

/-! ## The part behind it -/

theorem minOf_eq_left_iff {a b : UInt8} : minOf a b = a ↔ a ≤ b := by
  unfold minOf
  split
  · rename_i hlt
    exact iff_of_true rfl (UInt8.le_of_lt hlt)
  · rename_i hge
    have hle := UInt8.not_lt.mp hge
    exact ⟨fun heq => heq ▸ UInt8.le_refl a, fun h => UInt8.le_antisymm hle h⟩

/-- One payload is asked for when the pipe is there. -/
theorem ends_receive {o : Option (UInt8 × Option Nat × Conf)} (hend : Ends (receive dev) t o) :
    ∃ status t', t = statusRead status :: t' ∧
      match dev.rxPipeSize[pipeOf status.byte]? with
      | none => t' = [] ∧ o = none
      | some size => o ≠ none ∧ ∃ reply t'' dev₁ dev₂, t' = payloadRead size reply :: t'' ∧
          Does (clearIfEmpty dev₁) t'' dev₂ := by
  obtain ⟨status, t', rfl, hend⟩ := hend
  refine ⟨status, t', rfl, ?_⟩
  replace hend : Ends (match dev.rxPipeSize[pipeOf status.byte]? with
    | none => .fault
    | some size => do
      let _ ← read rxPayloadCmd size
      let dev ← clearIfEmpty { dev with error := status.code }
      pure (size, some (pipeOf status.byte), dev)) t' o := hend
  cases hsize : dev.rxPipeSize[pipeOf status.byte]? with
  | none =>
    rw [hsize] at hend
    exact hend
  | some size =>
    rw [hsize] at hend
    obtain ⟨reply, t'', rfl, hend⟩ := hend
    have htotal : Total (do
        let dev ← clearIfEmpty { dev with error := status.code }
        pure (size, some (pipeOf status.byte), dev) : Io (UInt8 × Option Nat × Conf)) :=
      total_bind (total_clearIfEmpty _) fun _ => trivial
    obtain ⟨result, rfl, hd⟩ := htotal.ends hend
    obtain ⟨t₁, t₂, dev₂, rfl, hclear, hd⟩ := does_bind.mp hd
    obtain ⟨rfl, -⟩ := hd
    rw [List.append_nil]
    exact ⟨Option.some_ne_none _, reply, t₁, _, dev₂, rfl, hclear⟩

/-- What is asked for in a call that asks for one payload. -/
theorem asks_payload {status reply : Reply} {size : UInt8}
    (hrest : Asks setup (h ++ [statusRead status] ++ [payloadRead size reply]) t) :
    Asks setup h (statusRead status :: payloadRead size reply :: t) ↔
      AsProgrammed setup size (h ++ [statusRead status]) := by
  constructor
  · exact fun hall => (whenever_cons.mp (whenever_cons.mp (hall size reply)).2).1 rfl
  · intro hsize size' reply'
    refine whenever_cons.mpr ⟨fun heq => ?_, whenever_cons.mpr ⟨fun heq => ?_, hrest size' reply'⟩⟩
    · cases heq
    · cases heq
      exact hsize

/-- What is named in such a call. -/
theorem names_payload {status reply : Reply} {size : UInt8}
    (hrest : Names conf (h ++ [statusRead status] ++ [payloadRead size reply]) t) :
    Names conf h (statusRead status :: payloadRead size reply :: t) ↔
      (Raised conf h → PipeOk conf (pipeOf status.byte)) := by
  constructor
  · exact fun hall => (whenever_cons.mp (hall status)).1 rfl
  · intro hpipe status'
    refine whenever_cons.mpr ⟨fun heq => ?_, whenever_cons.mpr ⟨fun heq => ?_, hrest status'⟩⟩
    · cases heq
      exact hpipe
    · cases heq

/-- A size that was programmed with a cut is as programmed when there was nothing to cut. -/
theorem asProgrammed_iff {status : Reply} {size : UInt8}
    (hsetup : programmed setup (rxPwReg (pipeOf status.byte)) = some (minOf size maxPipeSize)) :
    AsProgrammed setup size (h ++ [statusRead status]) ↔ size ≤ maxPipeSize := by
  constructor
  · exact fun hall => hall.1
  · intro hle
    refine ⟨hle, status, List.getLast?_concat .., ?_⟩
    rw [hsetup, minOf_eq_left_iff.mpr hle]

/-- Behind an interrupt, on a radio that was set up with these sizes. -/
theorem receive_iff {o : Option (UInt8 × Option Nat × Conf)} (hraised : Raised conf h)
    (hsame : dev.rxPipeSize = conf.rxPipeSize)
    (hsetup : ∀ pipe (hpipe : pipe < 6), programmed setup (rxPwReg pipe) =
      some (minOf conf.rxPipeSize[pipe] maxPipeSize))
    (hend : Ends (receive dev) t o) : (o ≠ none ∧ Asks setup h t) ↔ Names conf h t := by
  obtain ⟨status, t', rfl, hrest⟩ := ends_receive hend
  rw [hsame] at hrest
  cases hsize : conf.rxPipeSize[pipeOf status.byte]? with
  | none =>
    rw [hsize] at hrest
    obtain ⟨-, rfl⟩ := hrest
    refine iff_of_false (fun hall => hall.1 rfl) fun hnames => ?_
    obtain ⟨size, hsome, -⟩ := (whenever_cons.mp (hnames status)).1 rfl hraised
    rw [hsize] at hsome
    cases hsome
  | some size =>
    rw [hsize] at hrest
    obtain ⟨hne, reply, t'', dev₁, dev₂, rfl, hclear⟩ := hrest
    obtain ⟨hasks, hnames⟩ : Asks setup (h ++ [statusRead status] ++ [payloadRead size reply]) t'' ∧
        Names conf (h ++ [statusRead status] ++ [payloadRead size reply]) t'' :=
      plain_quiet (plain_clearIfEmpty _) hclear
    obtain ⟨hpipe, hget⟩ := Vector.getElem?_eq_some_iff.mp hsize
    have hprogrammed := hsetup _ hpipe
    rw [hget] at hprogrammed
    rw [and_iff_right hne, asks_payload hasks, names_payload hnames, asProgrammed_iff hprogrammed]
    constructor
    · exact fun hle _ => ⟨size, hsize, hle⟩
    · intro hnamed
      obtain ⟨size', hsome, hle⟩ := hnamed hraised
      rw [hsize] at hsome
      cases hsome
      exact hle

/-- **When `recv` stays in bounds**, behind `nrf24l01_init`: the `STATUS` behind an interrupt
names a pipe that is there, and its size was not cut. -/
theorem recv_in_bounds_iff (dev dev₀ : Conf) (hsizes : dev.rxPipeSize = dev₀.rxPipeSize)
    (setup : Trace) (r : UInt8 × Conf) (hinit : Does (nrf24l01Init dev₀) setup r) (t : Trace)
    (o : Option (UInt8 × Option Nat × Conf)) (hend : Ends (recv dev) t o) :
    (o ≠ none ∧ Asks setup [] t) ↔ Names dev [] t := by
  have hsetup : ∀ pipe (hpipe : pipe < 6), programmed setup (rxPwReg pipe) =
      some (minOf dev.rxPipeSize[pipe] maxPipeSize) := by
    intro pipe hpipe
    rw [hsizes]
    exact init_programmed hinit pipe hpipe
  have hrecv := ends_bind.mp hend
  rcases hrecv with ⟨hfault, -⟩ | ⟨t₁, t₂, dev₁, rfl, hfirst, hend⟩
  · obtain ⟨_, hnone, -⟩ := (total_toReceiver dev).ends hfault
    cases hnone
  obtain ⟨hpin, hsize⟩ := same_toReceiver hfirst
  have hirq : Total (readIrq dev₁ rxDrIrqMask) := by
    unfold readIrq
    split <;> exact fun _ => trivial
  rcases ends_bind.mp hend with ⟨hfault, -⟩ | ⟨t₃, t₄, ⟨raised, dev₂⟩, rfl, hcheck, hend⟩
  · obtain ⟨_, hnone, -⟩ := hirq.ends hfault
    cases hnone
  obtain ⟨hsame, hraised, hasks, hnames⟩ : Same dev₁ dev₂ ∧
      (raised = true → Raised dev (t₁ ++ t₃)) ∧ Asks setup t₁ t₃ ∧ Names dev t₁ t₃ :=
    readIrq_spec hcheck hpin fun hclear =>
      not_raised_of_plain (plain_toReceiver dev) hfirst hclear
  obtain ⟨hasks₁, hnames₁⟩ : Asks setup [] t₁ ∧ Names dev [] t₁ :=
    plain_quiet (plain_toReceiver dev) hfirst
  rw [asks_append, asks_append, names_append, names_append, List.nil_append,
    and_iff_right hasks₁, and_iff_right hasks, and_iff_right hnames₁, and_iff_right hnames]
  cases raised with
  | true => exact receive_iff (hraised rfl) (hsame.2.trans hsize) hsetup hend
  | false =>
    obtain ⟨rfl, rfl⟩ := hend
    exact iff_of_true ⟨Option.some_ne_none _, fun _ _ => whenever_nil⟩ fun _ => whenever_nil

/-- A receiver with the pin, and pipes of this size. -/
def sample (size : UInt8) : Conf :=
  ⟨true, 0, ⟨.rx, true, true, true, false, false, true⟩, 0x3F, 0x3F, 3, 0x2F, 40, 0x0F,
    none, none, 2, 3, 4, 5, none, Vector.replicate 6 size⟩

/-- The pin is low, and `STATUS` has this value. -/
def answers (status : UInt8) (n : Nat) : Reply := if n = 1 then ⟨0, status⟩ else ⟨0, 0⟩

/-- The theorem for payloads of 16 bytes, on pipe 2. -/
theorem recv_in_bounds_sample : ∃ setup r, Does (nrf24l01Init (sample 16)) setup r ∧
    (((perform (answers 0x44) (recv (sample 16)) 0).2 ≠ none ∧
        Asks setup [] (perform (answers 0x44) (recv (sample 16)) 0).1) ↔
      Names (sample 16) [] (perform (answers 0x44) (recv (sample 16)) 0).1) := by
  have hrun : run (answers 0) (nrf24l01Init (sample 16)) 0 = some (_, _) := rfl
  exact ⟨_, _, does_of_run hrun, recv_in_bounds_iff (sample 16) (sample 16) rfl _ _
    (does_of_run hrun) _ _ (ends_perform (answers 0x44) (recv (sample 16)) 0)⟩

/-- A `STATUS` as it is after a reset names pipe 7; and of a pipe that is 64 bytes wide for the
driver and 32 for the radio, 64 are read. -/
theorem recv_out_of_bounds :
    (perform (answers 0x0E) (recv (sample 16)) 0).2 = none ∧
    ∃ setup r, Does (nrf24l01Init (sample 64)) setup r ∧
      programmed setup (rxPwReg 2) = some 32 ∧
      payloadRead 64 ⟨0, 0⟩ ∈ (perform (answers 0x44) (recv (sample 64)) 0).1 := by
  have hrun : run (answers 0) (nrf24l01Init (sample 64)) 0 = some (_, _) := rfl
  exact ⟨by decide +kernel, _, _, does_of_run hrun, by decide +kernel, by decide +kernel⟩

end MyLibraries.Nrf24
