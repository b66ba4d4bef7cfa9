import MyLibraries.Stepper.Accepted
import MyLibraries.Stepper.Pulses

/-!
# The calls of the driver

The functions of the driver as the steps of one machine. A call of `stepper_add_task` is
refused, or appends its task to the queue: which of the two is known from its arguments.
-/

namespace MyLibraries.Stepper

variable {δ : Type}

/-- The arguments of `stepper_add_task`. -/
structure Add where
  task : Ptr
  steps : Stp
  speed : Stp
  acc : Stp
  dec : Stp
  dir : Stp
  buf : Option Ptr
  deriving DecidableEq, Repr

def Add.call (ar : Arith δ) (fuel : Nat) (s : State) (a : Add) : Option (Stp × State) :=
  stepperAddTask ar fuel s a.task a.steps a.speed a.acc a.dec a.dir a.buf

/-- The two ramps have less steps than are asked for. -/
def Add.accepted (ar : Arith δ) (a : Add) : Bool :=
  match profile ar a.speed a.acc, profile ar a.speed a.dec with
  | some (accSteps, _), some (decSteps, _) => accSteps.toNat + decSteps.toNat < a.steps.toNat
  | _, _ => false

/-- The calls that are made of the driver. -/
inductive Op
  | add (a : Add)
  | run
  | isr1
  | isr2 (answer : Stp)
  | clean
  deriving DecidableEq, Repr

def op (ar : Arith δ) (fuel : Nat) (s : State) : Op → Option (List Call × State)
  | .add a => (a.call ar fuel s).map fun r => ([], r.2)
  | .run => stepperRun s
  | .isr1 => stepperIsr1 s
  | .isr2 answer => some ([], stepperIsr2 s answer)
  | .clean => some ([], stepperCleanTasks s)

variable {ar : Arith δ} {fuel : Nat} {s s' : State} {a : Add} {r : Stp} {p q last : Ptr}
  {tasks tasks' : Ptr → Task} {x : Option Ptr} {ps : List Ptr}

/-! ## What a call of `stepper_add_task` does -/

/-- A call that is refused has changed the numbers of its task, and nothing else. -/
structure Refused (a : Add) (s s' : State) : Prop where
  dev : s'.dev = s.dev
  bufs : s'.bufs = s.bufs
  others : ∀ q, q ≠ a.task → s'.tasks q = s.tasks q
  next : (s'.tasks a.task).next = (s.tasks a.task).next

/-- The task at `p` has become the last one of the queue. -/
def Behind (fuel : Nat) (s : State) (p : Ptr) (s' : State) : Prop :=
  match s.dev.nextTask with
  | none => s'.dev.nextTask = some p ∧ ∀ q, (s'.tasks q).next = (s.tasks q).next
  | some q => s'.dev.nextTask = some q ∧ ∃ last, lastTask s.tasks fuel q = some last ∧
      ∀ x, (s'.tasks x).next = if x = last then some p else (s.tasks x).next

/-- A call that is accepted has appended its task, which waits. -/
structure Appended (fuel : Nat) (a : Add) (s s' : State) : Prop where
  state : (s'.tasks a.task).state = .idle
  buf : (s'.tasks a.task).buf = a.buf
  others : ∀ q, q ≠ a.task → ∃ next, s'.tasks q = { s.tasks q with next := next }
  behind : Behind fuel s a.task s'
  keeps : s'.dev.hasSetDir = s.dev.hasSetDir ∧ s'.dev.hasStop = s.dev.hasStop ∧
    s'.dev.prevState = s.dev.prevState

theorem lastTask_congr (h : ∀ q, (tasks' q).next = (tasks q).next) :
    lastTask tasks' fuel p = lastTask tasks fuel p := by
  induction fuel generalizing p with
  | zero => rfl
  | succ fuel ih =>
    unfold lastTask
    rw [h p]
    cases (tasks p).next with
    | none => rfl
    | some q => exact ih

theorem setTask_next {t : Task} (ht : t.next = (s.tasks p).next) (q : Ptr) :
    ((s.setTask p t).tasks q).next = (s.tasks q).next := by
  by_cases hq : q = p
  · rw [hq, setTask_self, ht]
  · rw [setTask_of_ne s hq]

theorem fillAcc_keeps {v v' : δ} {b : Ptr} (h : fillAcc ar s p b v = some (v', s')) :
    Keeps s s' := by
  rcases fillAcc_cases h with ⟨-, accBuf, -, rfl⟩ | ⟨-, rfl⟩
  · exact ⟨rfl, rfl, rfl, rfl⟩
  · exact ⟨rfl, rfl, rfl, rfl⟩

theorem fillDec_keeps {v : δ} {b : Ptr} (h : fillDec ar s p b v = some s') : Keeps s s' := by
  rcases fillDec_cases h with ⟨-, v', decBuf, -, rfl⟩ | ⟨-, rfl⟩
  · exact ⟨rfl, rfl, rfl, rfl⟩
  · exact ⟨rfl, rfl, rfl, rfl⟩

theorem fillBufs_keeps {v : δ} {buf : Option Ptr} (h : fillBufs ar s p v buf = some s') :
    Keeps s s' := by
  cases buf with
  | none =>
    cases h
    exact ⟨rfl, rfl, rfl, rfl⟩
  | some b =>
    obtain ⟨⟨v', s₁⟩, hacc, hdec⟩ := Option.bind_eq_some_iff.mp h
    exact (fillAcc_keeps hacc).trans (fillDec_keeps hdec)

/-- Linking changes the link of the last task only. -/
theorem linkTask_spec {v : δ} (h : linkTask ar fuel s p = some (v, s')) :
    (∀ q, ∃ next, s'.tasks q = { s.tasks q with next := next }) ∧ Behind fuel s p s' ∧
      s'.dev.hasSetDir = s.dev.hasSetDir ∧ s'.dev.hasStop = s.dev.hasStop ∧
      s'.dev.prevState = s.dev.prevState := by
  unfold Behind
  rcases linkTask_cases h with ⟨hnext, -, rfl⟩ | ⟨q, last, hnext, hlast, -, rfl⟩
  · rw [hnext]
    exact ⟨fun q => ⟨_, rfl⟩, ⟨rfl, fun q => rfl⟩, rfl, rfl, rfl⟩
  · rw [hnext]
    refine ⟨fun x => ?_, ⟨hnext, last, hlast, fun x => ?_⟩, rfl, rfl, rfl⟩
    · by_cases hx : x = last
      · rw [hx, setTask_self]
        exact ⟨_, rfl⟩
      · rw [setTask_of_ne s hx]
        exact ⟨_, rfl⟩
    · by_cases hx : x = last
      · rw [hx, setTask_self, if_pos rfl]
      · rw [setTask_of_ne s hx, if_neg hx]

/-- What lies behind what depends on the links only, before and after. -/
theorem behind_congr {s₁ s₁' : State} (h : Behind fuel s p s')
    (hdev : s₁.dev.nextTask = s.dev.nextTask) (hnext : ∀ q, (s₁.tasks q).next = (s.tasks q).next)
    (hdev' : s₁'.dev.nextTask = s'.dev.nextTask)
    (hnext' : ∀ q, (s₁'.tasks q).next = (s'.tasks q).next) : Behind fuel s₁ p s₁' := by
  unfold Behind at h ⊢
  rw [hdev]
  cases hq : s.dev.nextTask with
  | none =>
    rw [hq] at h
    exact ⟨hdev'.trans h.1, fun x => (hnext' x).trans ((h.2 x).trans (hnext x).symm)⟩
  | some q =>
    rw [hq] at h
    obtain ⟨hhead, last, hlast, hlinks⟩ := h
    refine ⟨hdev'.trans hhead, last, (lastTask_congr hnext).trans hlast, fun x => ?_⟩
    rw [hnext' x, hlinks x, hnext x]

/-- **A call is refused, or appends its task.** -/
theorem Add.call_cases (h : a.call ar fuel s = some (r, s')) :
    (a.accepted ar = false ∧ r = 0 ∧ Refused a s s') ∨
      (a.accepted ar = true ∧ r ≠ 0 ∧ Appended fuel a s s') := by
  obtain ⟨accSteps, accDelta, decSteps, decDelta, hacc, hdec, hcases⟩ := stepperAddTask_cases h
  unfold Add.accepted
  rw [hacc, hdec]
  dsimp only
  rcases hcases with ⟨hle, rfl, rfl⟩ | ⟨hlt, rfl, v, s₂, s₃, hlink, hfill, rfl⟩
  · refine .inl ⟨decide_eq_false (Nat.not_lt.mpr hle), rfl, rfl, rfl, fun q hq => ?_, ?_⟩
    · exact setTask_of_ne s hq _
    · rw [setTask_self]
  · obtain ⟨htasks, hbehind, hkeeps⟩ := linkTask_spec hlink
    have hfilled := fillBufs_tasks hfill
    have hkeeps₃ := fillBufs_keeps hfill
    have hrun := toNat_runSteps hlt
    refine .inr ⟨decide_eq_true hlt, ?_, ?_⟩
    · intro hzero
      rw [hzero] at hrun
      change 0 = _ at hrun
      omega
    · obtain ⟨next, hnext⟩ := htasks a.task
      rw [setTask_self] at hnext
      refine ⟨?_, ?_, fun q hq => ?_, ?_, ?_⟩
      · rw [setTask_self]
      · rw [setTask_self, hfilled, hnext]
      · obtain ⟨next, hother⟩ := htasks q
        refine ⟨next, ?_⟩
        rw [setTask_of_ne _ hq, hfilled, hother, setTask_of_ne _ hq]
      · refine behind_congr hbehind rfl (fun q => ?_) hkeeps₃.nextTask fun q => ?_
        · refine (setTask_next ?_ q).symm
          rfl
        · rw [← hfilled]
          exact setTask_next (t := { s₃.tasks a.task with state := .idle }) rfl q
      · exact ⟨hkeeps₃.hasSetDir.trans hkeeps.1, hkeeps₃.hasStop.trans hkeeps.2.1,
          hkeeps₃.prevState.trans hkeeps.2.2⟩

end MyLibraries.Stepper
