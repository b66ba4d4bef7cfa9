import Mathlib.Logic.Function.Basic
import MyLibraries.Core.Run

/-!
# The stepper motor driver

`src/Common/stepper.c` with the 16-bit `stp_t`. Tasks lie in memory and are linked through
`next`; two interrupt handlers work on the task at the head of the queue. What the driver
does to the motor is the list of the calls of its callbacks. Undefined behaviour (a
conversion out of range, an access outside of a buffer, a null pointer) is `none`.
-/

namespace MyLibraries.Stepper

/-- `stp_t` -/
abbrev Stp := UInt16

/-- An address; the null pointer is `none` where one is possible. -/
abbrev Ptr := Nat

/-! ## Arithmetic of the profiles -/

/-- The arithmetic that `stepper_add_task` uses for its `double`s. A conversion back to
`stp_t` truncates and is undefined out of range. -/
structure Arith (δ : Type) where
  ofStp : Stp → δ
  add : δ → δ → δ
  sub : δ → δ → δ
  mul : δ → δ → δ
  div : δ → δ → δ
  toStp : δ → Option Stp

/-- `double` -/
def double : Arith Float where
  ofStp := UInt16.toFloat
  add x y := x + y
  sub x y := x - y
  mul x y := x * y
  div x y := x / y
  toStp x :=
    if x.isFinite ∧ -UInt16.toFloat 1 < x ∧ x < UInt32.toFloat 65536 then some x.toUInt16 else none

/-! ## Data -/

/-- `enum state_t` -/
inductive StateT
  | accl
  | runn
  | decl
  | idle
  | hold
  | done
  | stop
  deriving DecidableEq, Repr

/-- `state > STEPPER_DECL` -/
def StateT.Inactive : StateT → Prop
  | .accl | .runn | .decl => False
  | _ => True

instance : (s : StateT) → Decidable s.Inactive
  | .accl | .runn | .decl => inferInstanceAs (Decidable False)
  | .idle | .hold | .done | .stop => inferInstanceAs (Decidable True)

/-- `struct stp_buf_t`, with the arrays that its pointers point to. -/
structure StpBuf where
  accBuf : List Stp
  decBuf : List Stp
  accBufSize : Stp
  decBufSize : Stp
  deriving Repr

/-- `struct stepper_task_t` -/
structure Task where
  speed : Stp
  runSteps : Stp
  accSteps : Stp
  decSteps : Stp
  acc : Stp
  dec : Stp
  dir : Stp
  state : StateT
  buf : Option Ptr
  next : Option Ptr
  deriving DecidableEq, Repr

/-- `struct stepper_t`; of the optional callbacks it is known whether they are there. -/
structure Dev where
  hasSetDir : Bool
  hasStop : Bool
  curSpeed : Stp
  curDuty : Stp
  preDuty : Stp
  accSteps : Stp
  decSteps : Stp
  nextTask : Option Ptr
  prevState : Stp
  timDuty : Stp
  deriving Repr

/-- The device, and the memory of the tasks and of the buffers. -/
structure State where
  dev : Dev
  tasks : Ptr → Task
  bufs : Ptr → StpBuf

/-- The calls of the callbacks. -/
inductive Call
  | setDuty (duty : Stp)
  | setStep (high : Stp)
  | setDir (dir : Stp)
  deriving DecidableEq, Repr

def State.setTask (s : State) (p : Ptr) (task : Task) : State :=
  { s with tasks := Function.update s.tasks p task }

theorem setTask_self (s : State) (p : Ptr) (t : Task) : (s.setTask p t).tasks p = t :=
  Function.update_self ..

theorem setTask_of_ne (s : State) {p q : Ptr} (h : q ≠ p) (t : Task) :
    (s.setTask p t).tasks q = s.tasks q :=
  Function.update_of_ne h ..

/-! ## Tasks -/

/-- The profile of one ramp: its number of steps and the change of speed at each. -/
def profile {δ : Type} (ar : Arith δ) (speed rate : Stp) : Option (Stp × Stp) := do
  let t := ar.div (ar.ofStp speed) (ar.ofStp rate)
  let n ← ar.toStp (ar.mul (ar.mul t t) (ar.ofStp rate))
  let steps := n >>> 1
  let delta ← ar.toStp (ar.div (ar.ofStp speed) (ar.ofStp steps))
  some (steps, delta)

/-- The end of the queue that begins with `p`; `none` when it is not found in `fuel`
steps. -/
def lastTask (tasks : Ptr → Task) : Nat → Ptr → Option Ptr
  | 0, _ => none
  | fuel + 1, p =>
    match (tasks p).next with
    | none => some p
    | some q => lastTask tasks fuel q

/-- The loops that fill a buffer with `n` duties from the index `i` on: at each step the
speed `v` goes through `change`. -/
def fillBuf {δ : Type} (ar : Arith δ) (change : δ → δ) (duty : Stp) :
    Nat → Nat → δ → List Stp → Option (δ × List Stp)
  | 0, _, v, buf => some (v, buf)
  | n + 1, i, v, buf => do
    let v := change v
    let x ← ar.toStp (ar.div (ar.ofStp duty) v)
    if i < buf.length then fillBuf ar change duty n (i + 1) v (buf.set i x) else none

/-- The first of the buffers of `stepper_add_task`, filled from `prev_speed` on. -/
def fillAcc {δ : Type} (ar : Arith δ) (s : State) (p b : Ptr) (prevSpeed : δ) :
    Option (δ × State) :=
  if (s.bufs b).accBufSize > (s.tasks p).accSteps then do
    let (prevSpeed, accBuf) ← fillBuf ar (fun v => ar.add v (ar.ofStp (s.tasks p).acc))
      s.dev.timDuty (s.tasks p).accSteps.toNat 0 prevSpeed (s.bufs b).accBuf
    some (prevSpeed, { s with
      dev := { s.dev with accSteps := 0 }
      bufs := Function.update s.bufs b { s.bufs b with accBuf := accBuf } })
  else
    some (prevSpeed, s)

/-- The second of the buffers, filled from where the first one has left `prev_speed`. -/
def fillDec {δ : Type} (ar : Arith δ) (s : State) (p b : Ptr) (prevSpeed : δ) : Option State :=
  if (s.bufs b).decBufSize > (s.tasks p).decSteps then do
    let (_, decBuf) ← fillBuf ar (fun v => ar.sub v (ar.ofStp (s.tasks p).dec))
      s.dev.timDuty (s.tasks p).decSteps.toNat 0 prevSpeed (s.bufs b).decBuf
    some { s with
      dev := { s.dev with decSteps := 0 }
      bufs := Function.update s.bufs b { s.bufs b with decBuf := decBuf } }
  else
    some s

def fillBufs {δ : Type} (ar : Arith δ) (s : State) (p : Ptr) (prevSpeed : δ) :
    Option Ptr → Option State
  | none => some s
  | some b => do
    let (prevSpeed, s) ← fillAcc ar s p b prevSpeed
    fillDec ar s p b prevSpeed

/-- The task at `p` becomes the last one of the queue; `prev_speed` is the speed of the
first one. -/
def linkTask {δ : Type} (ar : Arith δ) (fuel : Nat) (s : State) (p : Ptr) : Option (δ × State) :=
  match s.dev.nextTask with
  | none => some (ar.ofStp 0, { s with dev := { s.dev with nextTask := some p } })
  | some q => do
    let last ← lastTask s.tasks fuel q
    some (ar.ofStp (s.tasks q).speed, s.setTask last { s.tasks last with next := some p })

/-- `stepper_add_task`, with `fuel` for the search of the end of the queue. -/
def stepperAddTask {δ : Type} (ar : Arith δ) (fuel : Nat) (s : State) (p : Ptr)
    (steps speed acc dec dir : Stp) (buf : Option Ptr) : Option (Stp × State) := do
  let (accSteps, accDelta) ← profile ar speed acc
  let (decSteps, decDelta) ← profile ar speed dec
  let s := s.setTask p { s.tasks p with
    accSteps := accSteps, acc := accDelta, decSteps := decSteps, dec := decDelta, speed := speed }
  if accSteps.toNat + decSteps.toNat ≥ steps.toNat then
    some (0, s)
  else do
    let runSteps := steps - accSteps - decSteps
    let s := s.setTask p { s.tasks p with runSteps := runSteps, dir := dir, buf := buf }
    let (prevSpeed, s) ← linkTask ar fuel s p
    let s ← fillBufs ar s p prevSpeed buf
    some (runSteps, s.setTask p { s.tasks p with state := .idle })

/-! ## Running -/

/-- `stepper_run` -/
def stepperRun (s : State) : Option (List Call × State) :=
  match s.dev.nextTask with
  | none => none
  | some p =>
    if (s.tasks p).state ≠ .idle then
      some ([], s)
    else
      some (if s.dev.hasSetDir then [.setDir (s.tasks p).dir] else [],
        s.setTask p { s.tasks p with state := .accl })

/-- `stepper_status` -/
def stepperStatus (s : State) : Option StateT := s.dev.nextTask.map fun p => (s.tasks p).state

/-- `stepper_clean_tasks` -/
def stepperCleanTasks (s : State) : State := { s with dev := { s.dev with nextTask := none } }

/-- The duty that is set at the end of an edge, when it has changed. -/
def updateDuty (s : State) : List Call × State :=
  if s.dev.curDuty = s.dev.preDuty then
    ([], s)
  else
    ([.setDuty s.dev.curDuty], { s with dev := { s.dev with preDuty := s.dev.curDuty } })

/-- The next duty of the buffer for the acceleration, if the task has buffers. -/
def accDuty (s : State) : Option Ptr → Option State
  | none => some s
  | some b => do
    let duty ← (s.bufs b).accBuf[s.dev.accSteps.toNat]?
    some { s with dev := { s.dev with curDuty := duty, accSteps := s.dev.accSteps + 1 } }

/-- The next duty of the buffer for the deceleration, if the task has buffers. -/
def decDuty (s : State) : Option Ptr → Option State
  | none => some s
  | some b => do
    let duty ← (s.bufs b).decBuf[s.dev.decSteps.toNat]?
    some { s with dev := { s.dev with curDuty := duty, decSteps := s.dev.decSteps + 1 } }

/-- A rising edge while the task at `p` accelerates. -/
def acclEdge (s : State) (p : Ptr) : Option (List Call × State) := do
  let task := s.tasks p
  let accSteps := task.accSteps - 1
  let s := s.setTask p { task with accSteps := accSteps }
  let s ← accDuty s task.buf
  some (updateDuty
    (if accSteps = 0 then s.setTask p { task with accSteps := accSteps, state := .runn } else s))

/-- A rising edge while the task at `p` runs with its speed. -/
def runnEdge (s : State) (p : Ptr) : List Call × State :=
  let task := s.tasks p
  let runSteps := task.runSteps - 1
  ([], s.setTask p { task with
    runSteps := runSteps, state := if runSteps = 0 then .decl else .runn })

/-- Behind the last edge of the task at `p`: the next task is started, if there is one. -/
def startNext (s : State) (p : Ptr) : Option (List Call × State) :=
  match (s.tasks p).next with
  | some q => stepperRun { s with dev := { s.dev with nextTask := some q } }
  | none => some ([], s.setTask p { s.tasks p with state := .idle })

/-- A rising edge while the task at `p` decelerates. -/
def declEdge (s : State) (p : Ptr) : Option (List Call × State) := do
  let task := s.tasks p
  let decSteps := task.decSteps - 1
  let s := s.setTask p { task with decSteps := decSteps }
  let s ← decDuty s task.buf
  let (calls, s) ← (if decSteps = 0 then startNext s p else some ([], s))
  let (duty, s) := updateDuty s
  some (calls ++ duty, s)

/-- The `switch` of `stepper_isr1`. -/
def risingEdge (s : State) (p : Ptr) : Option (List Call × State) :=
  match (s.tasks p).state with
  | .accl => acclEdge s p
  | .runn => some (runnEdge s p)
  | .decl => declEdge s p
  | _ => some ([], s)

/-- `stepper_isr1` -/
def stepperIsr1 (s : State) : Option (List Call × State) :=
  match s.dev.nextTask with
  | none => some ([], s)
  | some p =>
    if (s.tasks p).state.Inactive then
      some ([], s)
    else if s.dev.prevState ≠ 0 then
      some ([.setStep 0], { s with dev := { s.dev with prevState := 0 } })
    else do
      let s := { s with dev := { s.dev with prevState := 1 } }
      let (calls, s) ← risingEdge s p
      some (.setStep 1 :: calls, s)

/-- The `switch` of `stepper_isr2`. -/
def changeSpeed (s : State) (p : Ptr) : State :=
  match (s.tasks p).state with
  | .accl => { s with dev := { s.dev with curSpeed := s.dev.curSpeed + (s.tasks p).acc } }
  | .decl => { s with dev := { s.dev with curSpeed := s.dev.curSpeed - (s.tasks p).dec } }
  | _ => s

/-- The stop callback of `stepper_isr2`, if there is one, answers `answer`. -/
def askStop (s : State) (p : Ptr) (answer : Stp) : State :=
  if s.dev.hasStop ∧ answer ≠ 0 then s.setTask p { s.tasks p with state := .stop } else s

/-- `stepper_isr2` -/
def stepperIsr2 (s : State) (answer : Stp) : State :=
  match s.dev.nextTask with
  | none => s
  | some p =>
    let s := askStop (changeSpeed s p) p answer
    match (s.tasks p).buf with
    | some _ => s
    | none =>
      { s with dev := { s.dev with
        curDuty := UInt16.ofNat (s.dev.timDuty.toNat / (1 + s.dev.curSpeed.toNat)) } }

/-- The interrupts, in the order in which they come. -/
inductive Isr
  | isr1
  | isr2 (answer : Stp)
  deriving DecidableEq, Repr

def isr (s : State) : Isr → Option (List Call × State)
  | .isr1 => stepperIsr1 s
  | .isr2 answer => some ([], stepperIsr2 s answer)

end MyLibraries.Stepper
