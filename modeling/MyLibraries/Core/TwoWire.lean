import Mathlib.Data.List.ReduceOption
import MyLibraries.Core.Run

/-!
# Two-wire buses

A master drives a data and a clock line. A monitor of the bus reads a start where the
data line falls while the clock is high, a stop where it rises, and a bit for every clock
pulse without either. `Shows` composes along the events.

Others may hold the data line low. A pulse is sampled at its end: the level that the
master drives, and that of the line. Nine pulses are a frame, a byte and its answer.
-/

namespace MyLibraries.TwoWire

/-- What a master does to the lines; `true` releases a line. -/
inductive Event
  | sda (level : Bool)
  | scl (level : Bool)
  | delay
  deriving DecidableEq, Repr

/-- What is read from the lines. -/
inductive Symbol
  | start
  | stop
  | bit (level : Bool)
  deriving DecidableEq, Repr

/-- The clock is low, or high, or high with the data line unchanged since it rose. -/
inductive Clock
  | low
  | high
  | pulse
  deriving DecidableEq, Repr

def Clock.level : Clock → Bool
  | .low => false
  | .high => true
  | .pulse => true

structure Monitor where
  sda : Bool
  clock : Clock
  deriving DecidableEq, Repr

/-- Both lines are released. -/
def Monitor.idle : Monitor := ⟨true, .high⟩

def Monitor.step (m : Monitor) : Event → Option Symbol × Monitor
  | .delay => (none, m)
  | .sda level =>
    if m.clock = .low ∨ level = m.sda then (none, { m with sda := level })
    else (some (if level then .stop else .start), ⟨level, .high⟩)
  | .scl level =>
    match m.clock, level with
    | .low, true => (none, { m with clock := .pulse })
    | .high, false => (none, { m with clock := .low })
    | .pulse, false => (some (.bit m.sda), { m with clock := .low })
    | _, _ => (none, m)

/-- The symbols of a list of events. -/
def symbols (m : Monitor) (es : List Event) : List Symbol :=
  (Run.exec Monitor.step m es).1.reduceOption

/-- The monitor after a list of events. -/
def after (m : Monitor) (es : List Event) : Monitor := (Run.exec Monitor.step m es).2

variable {m m' m'' : Monitor} {es fs : List Event} {ss ts : List Symbol} {a level : Bool}

/-! ## Steps -/

@[simp] theorem step_delay : m.step .delay = (none, m) := rfl

@[simp] theorem step_sda_low : Monitor.step ⟨a, .low⟩ (.sda level) = (none, ⟨level, .low⟩) :=
  rfl

@[simp] theorem step_rise : Monitor.step ⟨a, .low⟩ (.scl true) = (none, ⟨a, .pulse⟩) := rfl

@[simp] theorem step_fall : Monitor.step ⟨a, .pulse⟩ (.scl false) =
    (some (.bit a), ⟨a, .low⟩) := rfl

@[simp] theorem step_fall_high : Monitor.step ⟨a, .high⟩ (.scl false) = (none, ⟨a, .low⟩) :=
  rfl

@[simp] theorem step_sda_sda : (m.step (.sda level)).2.sda = level := by
  show (if _ then _ else _ : Option Symbol × Monitor).2.sda = level
  split
  · rfl
  · rfl

@[simp] theorem step_sda_level : (m.step (.sda level)).2.clock.level = m.clock.level := by
  obtain ⟨sda, clock⟩ := m
  cases clock <;> cases level <;> cases sda <;> rfl

@[simp] theorem step_scl_sda : (m.step (.scl level)).2.sda = m.sda := by
  obtain ⟨sda, clock⟩ := m
  cases clock <;> cases level <;> rfl

@[simp] theorem step_scl_level : (m.step (.scl level)).2.clock.level = level := by
  obtain ⟨sda, clock⟩ := m
  cases clock <;> cases level <;> rfl

/-! ## Lists of events -/

/-- The events take the monitor from `m` to `m'` and are read as `ss`. -/
def Shows (m : Monitor) (es : List Event) (ss : List Symbol) (m' : Monitor) : Prop :=
  symbols m es = ss ∧ after m es = m'

theorem Shows.nil : Shows m [] [] m := ⟨rfl, rfl⟩

theorem Shows.append (h : Shows m es ss m') (h' : Shows m' fs ts m'') :
    Shows m (es ++ fs) (ss ++ ts) m'' := by
  obtain ⟨hs, ha⟩ := h
  obtain ⟨hs', ha'⟩ := h'
  unfold symbols at hs hs'
  unfold after at ha ha'
  constructor
  · rw [symbols, Run.exec_append, List.reduceOption_append, ha, hs, hs']
  · rw [after, Run.exec_append, ha, ha']

theorem Shows.step (e : Event) : Shows m [e] (m.step e).1.toList (m.step e).2 := by
  constructor
  · rw [symbols, Run.exec_cons, Run.exec_nil]
    cases (m.step e).1 with
    | none => rfl
    | some s => rfl
  · rfl

/-- Event by event. -/
theorem Shows.snoc (h : Shows m es ss m') (e : Event) :
    Shows m (es ++ [e]) (ss ++ (m'.step e).1.toList) (m'.step e).2 :=
  h.append (Shows.step e)

/-! ## Transactions -/

/-- Starts, and frames of nine bits in between. -/
inductive Framed : List Symbol → Prop
  | nil : Framed []
  | start {ss : List Symbol} : Framed ss → Framed (.start :: ss)
  | frame {bits : List Bool} {ss : List Symbol} :
      bits.length = 9 → Framed ss → Framed (bits.map .bit ++ ss)

/-- A start, whole frames, with repeated starts, and a stop. -/
def Transaction (ss : List Symbol) : Prop :=
  ∃ inner, Framed inner ∧ ss = .start :: inner ++ [.stop]

theorem Framed.append (hs : Framed ss) (ht : Framed ts) : Framed (ss ++ ts) := by
  induction hs with
  | nil => exact ht
  | start _ ih => exact .start ih
  | frame hlen _ ih =>
    rw [List.append_assoc]
    exact .frame hlen ih

theorem framed_bits {bits : List Bool} (h : bits.length = 9) : Framed (bits.map .bit) := by
  rw [← List.append_nil (bits.map Symbol.bit)]
  exact .frame h .nil

/-! ## Pulses and frames -/

/-- The sample of a pulse that ends after `past`: the level driven, and that of the line. -/
def sample (others : List Event → Bool) (past : List Event) : Option Symbol → List (Bool × Bool)
  | some (.bit level) => [(level, level && others past)]
  | _ => []

/-- The samples of the clock pulses, when the others release the data line as `others`
says of the events so far. -/
def pulses (others : List Event → Bool) : Monitor → List Event → List Event → List (Bool × Bool)
  | _, _, [] => []
  | m, past, e :: es =>
    sample others past (m.step e).1 ++ pulses others (m.step e).2 (past ++ [e]) es

/-- Eight bits, the most significant first. -/
def byteOf (bits : List Bool) : UInt8 :=
  bits.foldl (fun byte bit => (byte <<< 1) ||| bit.toUInt8) 0

/-- A byte and its answer, as driven by the master and as they are on the line. -/
structure Frame where
  driven : UInt8
  line : UInt8
  drivenAck : Bool
  lineAck : Bool
  deriving DecidableEq, Repr

/-- The frame of nine pulses. -/
def frame (ps : List (Bool × Bool)) : Frame :=
  { driven := byteOf ((ps.take 8).map Prod.fst), line := byteOf ((ps.take 8).map Prod.snd)
    drivenAck := (ps[8]?.map Prod.fst).getD true, lineAck := (ps[8]?.map Prod.snd).getD true }

/-- The first frames of the pulses, by nine. -/
def firstFrames : Nat → List (Bool × Bool) → List Frame
  | 0, _ => []
  | n + 1, ps => frame (ps.take 9) :: firstFrames n (ps.drop 9)

/-- The pulses by nine. -/
def frames (ps : List (Bool × Bool)) : List Frame := firstFrames (ps.length / 9) ps

theorem pulses_append (others : List Event → Bool) (m : Monitor) (past es fs : List Event) :
    pulses others m past (es ++ fs) =
      pulses others m past es ++ pulses others (after m es) (past ++ es) fs := by
  induction es generalizing m past with
  | nil => simp [pulses, after]
  | cons e es ih =>
    rw [List.cons_append, pulses, pulses, ih, List.append_assoc, List.append_assoc]
    rfl

theorem pulses_snoc (others : List Event → Bool) (m : Monitor) (past es : List Event)
    (e : Event) : pulses others m past (es ++ [e]) =
      pulses others m past es ++ sample others (past ++ es) ((after m es).step e).1 := by
  rw [pulses_append, pulses, pulses, List.append_nil]

theorem firstFrames_append {n : Nat} {ps : List (Bool × Bool)} (h : ps.length = 9 * n)
    (k : Nat) (qs : List (Bool × Bool)) :
    firstFrames (n + k) (ps ++ qs) = firstFrames n ps ++ firstFrames k qs := by
  induction n generalizing ps with
  | zero => rw [List.length_eq_zero_iff.mp h, Nat.zero_add, firstFrames, List.nil_append,
      List.nil_append]
  | succ n ih =>
    have hrest : (ps.drop 9).length = 9 * n := by
      rw [List.length_drop, h]
      omega
    rw [Nat.succ_add, firstFrames, firstFrames, List.take_append_of_le_length (by omega),
      List.drop_append_of_le_length (by omega), ih hrest, List.cons_append]

/-- Frames are read off whole frames one after the other. -/
theorem frames_append {n : Nat} {ps : List (Bool × Bool)} (h : ps.length = 9 * n)
    (qs : List (Bool × Bool)) : frames (ps ++ qs) = frames ps ++ frames qs := by
  have hleft : ps.length / 9 = n := by omega
  have hboth : (ps ++ qs).length / 9 = n + qs.length / 9 := by
    rw [List.length_append]
    omega
  rw [frames, frames, frames, hboth, hleft, firstFrames_append h]

theorem frames_one {driven line : List Bool} (hd : driven.length = 8) (hl : line.length = 8)
    (ack : Bool × Bool) : frames (driven.zip line ++ [ack]) =
      [⟨byteOf driven, byteOf line, ack.1, ack.2⟩] := by
  have hzip : (driven.zip line).length = 8 := by rw [List.length_zip, hd, hl, Nat.min_self]
  have hlen : (driven.zip line ++ [ack]).length / 9 = 1 := by
    rw [List.length_append, hzip, List.length_singleton]
  have htake : ((driven.zip line ++ [ack]).take 9).take 8 = driven.zip line := by
    rw [List.take_take, List.take_append_of_le_length (by omega), List.take_of_length_le]
    omega
  have hlast : ((driven.zip line ++ [ack]).take 9)[8]? = some ack := by
    rw [List.getElem?_take_of_lt (by omega), ← hzip, List.getElem?_concat_length]
  rw [frames, hlen, firstFrames, firstFrames, frame, htake, hlast,
    List.map_fst_zip (by omega), List.map_snd_zip (by omega)]
  rfl

end MyLibraries.TwoWire
