import MyLibraries.Stepper.Calls
import MyLibraries.Stepper.Execution

/-!
# A stop is final

The stop callback leaves the task at the head of the queue stopped. No function of the
driver leaves this state again, but for a clean of the queue and for an add of that task.
-/

namespace MyLibraries.Stepper

open Run

/-- The task at an address is reached from the head of the queue. -/
inductive Queued (s : State) : Ptr → Prop
  | head {p : Ptr} : s.dev.nextTask = some p → Queued s p
  | next {p q : Ptr} : Queued s p → (s.tasks p).next = some q → Queued s q

/-- The queue is not cleaned, and tasks that lie in it are not added. -/
def Allowed (s : State) : Op → Prop
  | .add a => ¬Queued s a.task
  | .clean => False
  | _ => True

/-- The head of the queue is the task at `p`, which is stopped. -/
def Stopped (p : Ptr) (s : State) : Prop :=
  s.dev.nextTask = some p ∧ (s.tasks p).state = .stop

variable {δ : Type} {ar : Arith δ} {fuel : Nat} {s s' : State} {a : Add} {r answer : Stp}
  {p : Ptr} {calls : List Call} {o : Op}

theorem levels_flatten {calls : List (List Call)} (h : ∀ cs ∈ calls, levels cs = []) :
    levels calls.flatten = [] := by
  unfold levels
  rw [List.filterMap_flatten, List.flatten_eq_nil_iff]
  intro ls hls
  obtain ⟨cs, hcs, rfl⟩ := List.mem_map.mp hls
  exact h cs hcs

/-! ## One call -/

theorem stopped_add (h : Stopped p s) (hne : a.task ≠ p) (hadd : a.call ar fuel s = some (r, s')) :
    Stopped p s' := by
  obtain ⟨hp, hstate⟩ := h
  rcases Add.call_cases hadd with ⟨-, -, href⟩ | ⟨-, -, happ⟩
  · refine ⟨?_, ?_⟩
    · rw [href.dev]
      exact hp
    · rw [href.others p hne.symm]
      exact hstate
  · obtain ⟨next, htask⟩ := happ.others p hne.symm
    have hbehind := happ.behind
    unfold Behind at hbehind
    rw [hp] at hbehind
    refine ⟨hbehind.1, ?_⟩
    rw [htask]
    exact hstate

theorem stopped_run (h : Stopped p s) : stepperRun s = some ([], s) := by
  obtain ⟨hp, hstate⟩ := h
  apply run_of_not_idle hp
  rw [hstate]
  exact StateT.noConfusion

theorem stopped_isr1 (h : Stopped p s) : stepperIsr1 s = some ([], s) := by
  obtain ⟨hp, hstate⟩ := h
  apply stepperIsr1_idle hp
  rw [hstate]
  exact trivial

theorem stopped_isr2 (h : Stopped p s) (answer : Stp) : Stopped p (stepperIsr2 s answer) := by
  obtain ⟨hp, hstate⟩ := h
  obtain ⟨⟨state, hor, htask⟩, -⟩ := stepperIsr2_leaves hp answer
  refine ⟨(stepperIsr2_keeps s answer).1.nextTask.trans hp, ?_⟩
  rw [htask]
  rcases hor with rfl | rfl
  · exact hstate
  · rfl

/-- The answer of the stop callback stops the head of the queue. -/
theorem stopped_of_answer (hp : s.dev.nextTask = some p) (hstop : s.dev.hasStop = true)
    (hanswer : answer ≠ 0) : Stopped p (stepperIsr2 s answer) := by
  obtain ⟨hkeeps, -, -, htasks⟩ := stepperIsr2_cases hp answer
  refine ⟨hkeeps.nextTask.trans hp, ?_⟩
  rw [htasks, if_pos ⟨hstop, hanswer⟩, Function.update_self]

/-- A stopped device stays stopped, and the step pin is left alone. -/
theorem stopped_step (h : Stopped p s) (ho : Allowed s o)
    (hop : op ar fuel s o = some (calls, s')) : levels calls = [] ∧ Stopped p s' := by
  cases o with
  | add a =>
    obtain ⟨⟨r, s₁⟩, hadd, heq⟩ := Option.map_eq_some_iff.mp hop
    cases heq
    refine ⟨rfl, stopped_add h ?_ hadd⟩
    rintro rfl
    exact ho (.head h.1)
  | run =>
    cases (stopped_run h).symm.trans hop
    exact ⟨rfl, h⟩
  | isr1 =>
    cases (stopped_isr1 h).symm.trans hop
    exact ⟨rfl, h⟩
  | isr2 answer =>
    cases hop
    exact ⟨rfl, stopped_isr2 h answer⟩
  | clean => exact absurd ho id

/-! ## Runs -/

/-- **A stop is final.** Behind an answer of the stop callback other than zero, no calls of
the driver move the step pin, until the queue is cleaned or a task is added that lies in
it. -/
theorem stop_final (hp : s.dev.nextTask = some p) (hstop : s.dev.hasStop = true)
    (hanswer : answer ≠ 0) {ops : List Op} {calls : List (List Call)}
    (hops : AlongRun (op ar fuel) Allowed (stepperIsr2 s answer) ops)
    (hrun : run (op ar fuel) (stepperIsr2 s answer) ops = some (calls, s')) :
    levels calls.flatten = [] := by
  have hstopped := stopped_of_answer hp hstop hanswer
  obtain ⟨hsilent, -⟩ := good_of_alongRun (fun calls => levels calls = [])
    (fun _ _ _ _ h ho hstep => stopped_step h ho hstep) hstopped hops hrun
  exact levels_flatten hsilent

/-- Two tasks of which the first one accelerates, and a stop callback. -/
def watched : State where
  dev := ⟨true, true, 0, 0, 0, 0, 0, some 0, 0, 1000⟩
  tasks p :=
    match p with
    | 0 => ⟨10, 2, 1, 1, 5, 5, 1, .accl, none, some 1⟩
    | _ => ⟨20, 1, 1, 1, 5, 5, 0, .idle, none, none⟩
  bufs _ := ⟨[], [], 0, 0⟩

theorem stop_final_watched : ∃ calls s',
    run (op double 8) (stepperIsr2 watched 1) [.isr1, .run, .isr2 0, .isr1] = some (calls, s') ∧
      levels calls.flatten = [] := by
  obtain ⟨⟨calls, s'⟩, hrun⟩ : ∃ r, run (op double 8) (stepperIsr2 watched 1)
      [.isr1, .run, .isr2 0, .isr1] = some r := ⟨_, rfl⟩
  refine ⟨calls, s', hrun, stop_final rfl rfl (by decide) ?_ hrun⟩
  exact ⟨trivial, fun _ _ _ => ⟨trivial, fun _ _ _ => ⟨trivial, fun _ _ _ =>
    ⟨trivial, fun _ _ _ => trivial⟩⟩⟩⟩

end MyLibraries.Stepper
