import MyLibraries.I2cGpio.Bytes
import MyLibraries.SwI2c.Model

/-!
# What the driver does to the lines

Every function of the driver does something to the lines that does not depend on what the
slave answers, and gets an answer to it. `Carries` says what the bus sees of it: the number
of starts and the frames, each a byte and its answer.
-/

namespace MyLibraries.SwI2c

open TwoWire
open I2cGpio (whileMask masks bitsOf whileMask_masks byteOf_bitsOf collect_byteOf)

namespace Driver

variable (d : Driver)

/-- What `Delay_func` adds. -/
def pause : List Event := if d.delayFunc then [.delay] else []

def clockEvents : List Event := .scl true :: (d.pause ++ .scl false :: d.pause)

def bitEvents (level : Bool) : List Event := .sda level :: d.clockEvents

/-- The eight bits of a byte. -/
def dataEvents (data : UInt8) : List Event := (bitsOf data).flatMap d.bitEvents

/-- A byte and the pulse of its answer. -/
def byteEvents (data : UInt8) : List Event := d.dataEvents data ++ d.bitEvents true

/-- The answer to a byte. -/
def answer (bus : Bus) (data : UInt8) : UInt16 :=
  d.ioSdaRead (bus ++ d.dataEvents data ++ .sda true :: .scl true :: d.pause)

/-- The levels that the next pulses read. -/
def levels : Nat → Bus → List Bool
  | 0, _ => []
  | n + 1, bus =>
    decide (d.ioSdaRead (bus ++ .scl true :: d.pause) ≠ 0) :: levels n (bus ++ d.clockEvents)

/-- The byte that is read next. -/
def received (bus : Bus) : UInt8 := byteOf (d.levels 8 bus)

/-- Eight pulses and the answer of the master. -/
def readEvents (ack : Bool) : List Event :=
  (List.replicate 8 d.clockEvents).flatten ++
    (.sda (!ack) :: d.clockEvents ++ if ack then [.sda true] else [])

def checkEvents : List Event := .sda true :: .scl true :: d.pause

def startEvents : List Event := .sda false :: (d.pause ++ .scl false :: d.pause)

def reStartEvents : List Event := d.checkEvents ++ .sda false :: (d.pause ++ [.scl false])

def stopEvents : List Event :=
  d.pause ++ .sda false :: .scl true :: (d.pause ++ .sda true :: d.pause)

variable {d} {bus : Bus}

/-! ## The functions -/

theorem delay_eq : d.delay bus = bus ++ d.pause := by
  unfold delay pause
  split
  · rfl
  · exact (List.append_nil bus).symm

theorem start_eq : d.start bus =
    if d.ioSdaRead (bus ++ d.checkEvents) = 0 then (.busBusy, bus ++ d.checkEvents)
    else (.success, bus ++ d.checkEvents ++ d.startEvents) := by
  have hcheck : d.delay (ioSclWrite true (ioSdaWrite true bus)) = bus ++ d.checkEvents := by
    simp [delay_eq, ioSclWrite, ioSdaWrite, checkEvents]
  rw [start, hcheck]
  simp [delay_eq, ioSclWrite, ioSdaWrite, startEvents]

theorem reStart_eq : d.reStart bus = bus ++ d.reStartEvents := by
  simp [reStart, delay_eq, ioSclWrite, ioSdaWrite, reStartEvents, checkEvents]

theorem stop_eq : d.stop bus = bus ++ d.stopEvents := by
  simp [stop, delay_eq, ioSclWrite, ioSdaWrite, stopEvents]

theorem clock_eq : d.clock bus =
    (d.ioSdaRead (bus ++ .scl true :: d.pause), bus ++ d.clockEvents) := by
  simp [clock, delay_eq, ioSclWrite, clockEvents]

theorem write_eq (data : UInt8) :
    d.write data bus = (d.answer bus data, bus ++ d.byteEvents data) := by
  have hbits : ∀ (l : List UInt8) (bus : Bus),
      l.foldl (fun bus mask => (d.clock (ioSdaWrite (data &&& mask ≠ 0) bus)).2) bus =
        bus ++ (l.map fun mask => decide (data &&& mask ≠ 0)).flatMap d.bitEvents := by
    intro l
    induction l with
    | nil => exact fun bus => (List.append_nil bus).symm
    | cons mask l ih =>
      intro bus
      rw [List.foldl_cons, ih, clock_eq, List.map_cons, List.flatMap_cons, bitEvents, ioSdaWrite]
      simp only [List.append_assoc, List.cons_append, List.nil_append]
  rw [write, whileMask_masks _ 0, hbits, clock_eq, answer, byteEvents, bitEvents, dataEvents,
    ioSdaWrite]
  simp only [bitsOf, List.append_assoc, List.cons_append, List.nil_append]

theorem length_levels (n : Nat) (bus : Bus) : (d.levels n bus).length = n := by
  induction n generalizing bus with
  | zero => rfl
  | succ n ih => exact congrArg Nat.succ (ih _)

theorem readBits_eq (l : List UInt8) (data : UInt8) (bus : Bus) :
    l.foldl (fun p mask => d.readBit mask p) (data, bus) =
      ((l.zip (d.levels l.length bus)).foldl
        (fun data p => if p.2 then data ||| p.1 else data) data,
        bus ++ (List.replicate l.length d.clockEvents).flatten) := by
  induction l generalizing data bus with
  | nil => exact Prod.ext rfl (List.append_nil bus).symm
  | cons mask l ih =>
    rw [List.foldl_cons, readBit, clock_eq, ih, List.length_cons, List.replicate_succ,
      List.flatten_cons, levels, List.zip_cons_cons, List.foldl_cons, List.append_assoc]
    simp only [decide_eq_true_eq]

theorem read_eq (ack : UInt8) : d.read ack bus =
    ((d.received bus).toUInt16, bus ++ d.readEvents (decide (ack ≠ 0))) := by
  have hbyte : ∀ line : List Bool, line.length = 8 → (masks.zip line).foldl
      (fun data p => if p.2 then data ||| p.1 else data) (0 : UInt8) = byteOf line := by
    intro line hlen
    match line, hlen with
    | [b₀, b₁, b₂, b₃, b₄, b₅, b₆, b₇], _ => exact collect_byteOf b₀ b₁ b₂ b₃ b₄ b₅ b₆ b₇
  have hdata := hbyte (d.levels masks.length bus) (length_levels _ _)
  rw [read, whileMask_masks _ 0, readBits_eq, hdata, readEvents, received]
  by_cases hack : ack = 0
  · simp [hack, clock_eq, ioSdaWrite, masks]
  · simp [hack, clock_eq, ioSdaWrite, masks]

end Driver

/-! ## What the bus sees -/

variable {d : Driver} {past : Bus} {m m' m'' : Monitor} {es es' : List Event}
  {ss ss' : List Symbol} {ps ps' : List (Bool × Bool)} {a : Bool}

/-- Whether the others release SDA. -/
def Driver.others (d : Driver) (past : Bus) : Bool := decide (d.ioSdaRead past ≠ 0)

/-- The events after `past` show the symbols and are sampled as the pulses. -/
structure Shown (d : Driver) (past : Bus) (m : Monitor) (es : List Event) (ss : List Symbol)
    (ps : List (Bool × Bool)) (m' : Monitor) : Prop where
  shows : Shows m es ss m'
  pulses : pulses d.others m past es = ps

theorem Shown.append (h : Shown d past m es ss ps m')
    (h' : Shown d (past ++ es) m' es' ss' ps' m'') :
    Shown d past m (es ++ es') (ss ++ ss') (ps ++ ps') m'' := by
  refine ⟨h.shows.append h'.shows, ?_⟩
  rw [pulses_append, h.pulses, h.shows.2, h'.pulses]

theorem shown_clock (past : Bus) (a : Bool) : Shown d past ⟨a, .low⟩ d.clockEvents [.bit a]
    [(a, a && d.others (past ++ .scl true :: d.pause))] ⟨a, .low⟩ := by
  unfold Driver.clockEvents Driver.pause
  split
  · refine ⟨⟨rfl, rfl⟩, ?_⟩
    simp [TwoWire.pulses, sample]
  · refine ⟨⟨rfl, rfl⟩, ?_⟩
    simp [TwoWire.pulses, sample]

theorem shown_bit (past : Bus) (a level : Bool) :
    Shown d past ⟨a, .low⟩ (d.bitEvents level) [.bit level]
      [(level, level && d.others (past ++ .sda level :: .scl true :: d.pause))] ⟨level, .low⟩ := by
  have hplace : Shown d past ⟨a, .low⟩ [.sda level] [] [] ⟨level, .low⟩ := ⟨⟨rfl, rfl⟩, rfl⟩
  have hclock := hplace.append (shown_clock (past ++ [.sda level]) level)
  rw [List.append_assoc] at hclock
  exact hclock

/-- The bits of a byte. -/
theorem shown_bits (past : Bus) (a : Bool) (bits : List Bool) :
    ∃ (line : List Bool) (a' : Bool), line.length = bits.length ∧
      Shown d past ⟨a, .low⟩ (bits.flatMap d.bitEvents) (bits.map .bit) (bits.zip line)
        ⟨a', .low⟩ := by
  induction bits generalizing past a with
  | nil => exact ⟨[], a, rfl, ⟨Shows.nil, rfl⟩⟩
  | cons bit bits ih =>
    obtain ⟨line, a', hlen, hrest⟩ := ih (past ++ d.bitEvents bit) bit
    exact ⟨_ :: line, a', congrArg Nat.succ hlen, (shown_bit past a bit).append hrest⟩

/-- Pulses with a released line. -/
theorem shown_levels (past : Bus) (n : Nat) :
    Shown d past ⟨true, .low⟩ (List.replicate n d.clockEvents).flatten
      ((List.replicate n true).map .bit) ((List.replicate n true).zip (d.levels n past))
      ⟨true, .low⟩ := by
  induction n generalizing past with
  | zero => exact ⟨Shows.nil, rfl⟩
  | succ n ih =>
    have hclock := (shown_clock past true).append (ih (past ++ d.clockEvents))
    rw [Bool.true_and] at hclock
    exact hclock

/-! ## Frames -/

/-- The events after `past` show `n` starts and carry the frames. -/
structure Carries (d : Driver) (past : Bus) (m : Monitor) (es : List Event) (n : Nat)
    (fs : List Frame) (m' : Monitor) : Prop where
  after : after m es = m'
  starts : (symbols m es).count .start = n
  whole : (pulses d.others m past es).length = 9 * fs.length
  frames : frames (pulses d.others m past es) = fs

variable {n n' : Nat} {fs fs' : List Frame}

theorem Carries.append (h : Carries d past m es n fs m')
    (h' : Carries d (past ++ es) m' es' n' fs' m'') :
    Carries d past m (es ++ es') (n + n') (fs ++ fs') m'' := by
  have hshows : Shows m (es ++ es') (symbols m es ++ symbols m' es') m'' :=
    Shows.append ⟨rfl, h.after⟩ ⟨rfl, h'.after⟩
  refine ⟨hshows.2, ?_, ?_, ?_⟩
  · rw [hshows.1, List.count_append, h.starts, h'.starts]
  · rw [pulses_append, h.after, List.length_append, h.whole, h'.whole, List.length_append]
    omega
  · rw [pulses_append, h.after, frames_append h.whole, h.frames, h'.frames]

end MyLibraries.SwI2c
