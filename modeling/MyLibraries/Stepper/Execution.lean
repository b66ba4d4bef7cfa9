import MyLibraries.Stepper.Pulses

/-!
# Every queued pulse is executed

The edges and the changes of direction that a queue owes are a supply from which every
interrupt takes what it makes. The number of interrupts of the step timer that it takes to
use up the supply is known from the beginning.
-/

namespace MyLibraries.Stepper

open Run

/-! ## What is seen of the calls -/

/-- The directions and the rising edges. -/
def marks (calls : List Call) : List Call :=
  calls.filter fun
    | .setDir _ => true
    | .setStep high => high = 1
    | .setDuty _ => false

/-- The values that the step pin is set to. -/
def levels (calls : List Call) : List Stp :=
  calls.filterMap fun
    | .setStep high => some high
    | _ => none

def rises (calls : List Call) : Nat := calls.count (.setStep 1)

/-- The step pin changes its level. -/
def Toggles (x y : Stp) : Prop := x = 0 ∧ y = 1 ∨ x = 1 ∧ y = 0

def total : List (Stp × Nat) → Nat
  | [] => 0
  | (_, n) :: rest => n + total rest

/-- The directions and the rising edges of the jobs, in their order. -/
def ordered (jobs : List (Stp × Nat)) : List Call :=
  jobs.flatMap fun job => .setDir job.1 :: List.replicate job.2 (.setStep 1)

/-- What is to come while the first of the jobs is at work. -/
def owed : List (Stp × Nat) → List Call
  | [] => []
  | (_, n) :: rest => List.replicate n (.setStep 1) ++ ordered rest

/-- Each job has an edge. -/
def Busy (jobs : List (Stp × Nat)) : Prop := ∀ job ∈ jobs, 1 ≤ job.2

variable {a : Pulser} {is : List Isr} {jobs rest : List (Stp × Nat)} {calls : List Call}
  {d : Stp} {n : Nat}

theorem marks_motion (calls : List Call) : marks (motion calls) = marks calls := by
  unfold marks motion
  rw [List.filter_filter]
  congr 1
  funext call
  cases call with
  | setDuty duty => rfl
  | setStep high => exact Bool.and_true _
  | setDir d => rfl

theorem motion_motion (calls : List Call) : motion (motion calls) = motion calls := by
  unfold motion
  rw [List.filter_filter]
  simp only [Bool.and_self]

theorem levels_motion (calls : List Call) : levels (motion calls) = levels calls := by
  unfold levels motion
  rw [List.filterMap_filter]
  congr 1
  funext call
  cases call with
  | setDuty duty => rfl
  | setStep high => rfl
  | setDir d => rfl

theorem rises_marks (calls : List Call) : rises (marks calls) = rises calls :=
  List.count_filter rfl

theorem rises_append (calls calls' : List Call) :
    rises (calls ++ calls') = rises calls + rises calls' :=
  List.count_append

theorem rises_replicate (n : Nat) : rises (List.replicate n (.setStep 1)) = n :=
  List.count_replicate_self

theorem rises_ordered (jobs : List (Stp × Nat)) : rises (ordered jobs) = total jobs := by
  induction jobs with
  | nil => rfl
  | cons job rest ih =>
    show rises (.setDir job.1 :: List.replicate job.2 (.setStep 1) ++ ordered rest) =
      job.2 + total rest
    rw [rises_append, ih]
    show rises (List.replicate job.2 (.setStep 1)) + _ = _
    rw [rises_replicate]

theorem rises_owed (jobs : List (Stp × Nat)) : rises (owed jobs) = total jobs := by
  cases jobs with
  | nil => rfl
  | cons job rest =>
    show rises (List.replicate job.2 (.setStep 1) ++ ordered rest) = job.2 + total rest
    rw [rises_append, rises_replicate, rises_ordered]

theorem total_eq_zero (h : Busy jobs) : total jobs = 0 ↔ jobs = [] := by
  cases jobs with
  | nil => exact Iff.intro (fun _ => rfl) fun _ => rfl
  | cons job rest =>
    have hjob := h job (List.mem_cons_self ..)
    refine ⟨fun htotal => ?_, fun h => nomatch h⟩
    change job.2 + total rest = 0 at htotal
    omega

/-! ## One interrupt -/

theorem marks_starts (rest : List (Stp × Nat)) :
    marks (starts rest) ++ owed rest = ordered rest := by
  cases rest with
  | nil => rfl
  | cons job rest => rfl

/-- An interrupt takes its marks off the front of what is owed. -/
theorem isr_owed (i : Isr) (h : Busy a.work) : Busy (a.isr i).2.work ∧
    marks (a.isr i).1 ++ owed (a.isr i).2.work = owed a.work := by
  obtain ⟨high, work⟩ := a
  cases i with
  | isr2 answer => exact ⟨h, rfl⟩
  | isr1 =>
    cases work with
    | nil => exact ⟨h, rfl⟩
    | cons job rest =>
      obtain ⟨d, n⟩ := job
      have hn : 1 ≤ n := h (d, n) (List.mem_cons_self ..)
      have hrest : Busy rest := fun job hjob => h job (List.mem_cons_of_mem _ hjob)
      cases high with
      | true => exact ⟨h, rfl⟩
      | false =>
        by_cases hmore : 1 < n
        · rw [isr1_more hmore]
          obtain ⟨m, rfl⟩ := Nat.exists_eq_add_of_le' hn
          refine ⟨?_, rfl⟩
          rintro job (_ | ⟨_, hjob⟩)
          · show 1 ≤ m + 1 - 1
            omega
          · exact hrest job hjob
        · rw [isr1_last hmore]
          obtain rfl : n = 1 := by omega
          refine ⟨hrest, ?_⟩
          show .setStep 1 :: (marks (starts rest) ++ owed rest) = .setStep 1 :: ordered rest
          rw [marks_starts]

/-- The number of interrupts of the step timer until the work is done. -/
def Pulser.left (a : Pulser) : Nat := 2 * total a.work - if a.high then 0 else 1

theorem left_le (a : Pulser) : a.left ≤ 2 * total a.work := Nat.sub_le ..

theorem total_of_left (h : a.left = 0) : total a.work = 0 := by
  unfold Pulser.left at h
  split at h
  · omega
  · omega

theorem isr_left (i : Isr) (h : Busy a.work) :
    (a.isr i).2.left = a.left - if i = .isr1 then 1 else 0 := by
  obtain ⟨high, work⟩ := a
  cases i with
  | isr2 answer => rfl
  | isr1 =>
    rw [if_pos rfl]
    cases work with
    | nil =>
      show 2 * 0 - _ = 2 * 0 - _ - 1
      omega
    | cons job rest =>
      obtain ⟨d, n⟩ := job
      have hn : 1 ≤ n := h (d, n) (List.mem_cons_self ..)
      cases high with
      | true => rfl
      | false =>
        by_cases hmore : 1 < n
        · rw [isr1_more hmore]
          show 2 * (n - 1 + total rest) - 0 = 2 * (n + total rest) - 1 - 1
          omega
        · rw [isr1_last hmore]
          show 2 * total rest - 0 = 2 * (n + total rest) - 1 - 1
          omega

/-- The value of the step pin. -/
def level (high : Bool) : Stp := if high then 1 else 0

theorem levels_starts (rest : List (Stp × Nat)) : levels (starts rest) = [] := by
  cases rest with
  | nil => rfl
  | cons job rest => rfl

theorem isr_levels (a : Pulser) (i : Isr) :
    levels (a.isr i).1 = [] ∧ (a.isr i).2.high = a.high ∨
      levels (a.isr i).1 = [level (!a.high)] ∧ (a.isr i).2.high = !a.high := by
  obtain ⟨high, work⟩ := a
  cases i with
  | isr2 answer => exact .inl ⟨rfl, rfl⟩
  | isr1 =>
    cases work with
    | nil => exact .inl ⟨rfl, rfl⟩
    | cons job rest =>
      obtain ⟨d, n⟩ := job
      cases high with
      | true => exact .inr ⟨rfl, rfl⟩
      | false =>
        by_cases hmore : 1 < n
        · rw [isr1_more hmore]
          exact .inr ⟨rfl, rfl⟩
        · rw [isr1_last hmore]
          refine .inr ⟨?_, rfl⟩
          show 1 :: levels (starts rest) = [1]
          rw [levels_starts]

/-! ## Runs of interrupts -/

theorem run_owed (is : List Isr) (h : Busy a.work) : Busy (exec Pulser.isr a is).2.work ∧
    marks (exec Pulser.isr a is).1.flatten ++ owed (exec Pulser.isr a is).2.work =
      owed a.work := by
  have hmarks : marks (exec Pulser.isr a is).1.flatten =
      (exec Pulser.isr a is).1.flatMap marks := List.filter_flatten
  rw [hmarks]
  exact exec_supply (fun a : Pulser => Busy a.work) marks (fun a => owed a.work)
    (fun a i => isr_owed i) h

theorem run_left (is : List Isr) (h : Busy a.work) :
    (exec Pulser.isr a is).2.left = a.left - is.count .isr1 := by
  induction is generalizing a with
  | nil => rfl
  | cons i is ih =>
    rw [exec_cons, ih (isr_owed i h).1, isr_left i h, List.count_cons, Nat.sub_sub, Nat.add_comm]
    simp only [beq_iff_eq]

theorem toggles_level (high : Bool) : Toggles (level high) (level !high) := by
  cases high with
  | true => exact .inr ⟨rfl, rfl⟩
  | false => exact .inl ⟨rfl, rfl⟩

theorem run_levels (a : Pulser) (is : List Isr) :
    (level a.high :: levels (exec Pulser.isr a is).1.flatten).IsChain Toggles := by
  induction is generalizing a with
  | nil => exact .singleton _
  | cons i is ih =>
    have hih := ih (a.isr i).2
    have happend : levels (exec Pulser.isr a (i :: is)).1.flatten =
        levels (a.isr i).1 ++ levels (exec Pulser.isr (a.isr i).2 is).1.flatten := by
      rw [exec_cons]
      exact List.filterMap_append ..
    rw [happend]
    rcases isr_levels a i with ⟨hsilent, hsame⟩ | ⟨hone, hflip⟩
    · rw [hsilent, List.nil_append, ← hsame]
      exact hih
    · rw [hone, List.singleton_append, ← hflip]
      refine .cons_cons ?_ hih
      rw [hflip]
      exact toggles_level a.high

/-- Without work no interrupt does anything. -/
theorem run_idle (h : a.work = []) (is : List Isr) : (exec Pulser.isr a is).1.flatten = [] := by
  induction is generalizing a with
  | nil => rfl
  | cons i is ih =>
    obtain ⟨high, work⟩ := a
    obtain rfl : work = [] := h
    rw [exec_cons]
    cases i with
    | isr1 => exact ih rfl
    | isr2 answer => exact ih rfl

/-! ## The driver -/

theorem busy_jobs {tasks : Ptr → Task} {ps : List Ptr} (hready : ∀ p ∈ ps, Ready (tasks p)) :
    Busy (ps.map fun p => (tasks p).job) := by
  intro job hjob
  obtain ⟨p, hp, rfl⟩ := List.mem_map.mp hjob
  have hacc := (hready p hp).acc_pos
  show 1 ≤ (tasks p).edges
  unfold Task.edges
  omega

/-- What the motor sees when the jobs are executed, with the step pin at `high` before it
and `ticks` interrupts of the step timer. -/
structure Executes (jobs : List (Stp × Nat)) (high : Bool) (ticks : Nat) (calls : List Call) :
    Prop where
  rises_le : rises calls ≤ total jobs
  rises_eq : 2 * total jobs ≤ ticks → rises calls = total jobs
  toggles : (level high :: levels calls).IsChain Toggles
  in_order : marks calls <+: ordered jobs
  complete : rises calls = total jobs → marks calls = ordered jobs

theorem rises_of_marks {left : List (Stp × Nat)} (h : marks calls ++ owed left = ordered jobs) :
    rises calls + total left = total jobs := by
  rw [← rises_marks, ← rises_owed, ← rises_append, h, rises_ordered]

/-- The calls since the first job was started. -/
def trace (a : Pulser) (d : Stp) (is : List Isr) : List Call :=
  .setDir d :: (exec Pulser.isr a is).1.flatten

theorem trace_marks (high : Bool) (hbusy : Busy ((d, n) :: rest)) (is : List Isr) :
    marks (trace ⟨high, (d, n) :: rest⟩ d is) ++
        owed (exec Pulser.isr ⟨high, (d, n) :: rest⟩ is).2.work = ordered ((d, n) :: rest) :=
  congrArg (List.cons (Call.setDir d)) (run_owed is (a := ⟨high, (d, n) :: rest⟩) hbusy).2

/-- Behind the last edge the pulser is without work. -/
theorem work_of_rises {high : Bool} (hbusy : Busy ((d, n) :: rest))
    (hall : rises (trace ⟨high, (d, n) :: rest⟩ d is) = total ((d, n) :: rest)) :
    (exec Pulser.isr ⟨high, (d, n) :: rest⟩ is).2.work = [] := by
  have hrises := rises_of_marks (trace_marks high hbusy is)
  apply (total_eq_zero (run_owed is (a := ⟨high, (d, n) :: rest⟩) hbusy).1).mp
  omega

/-- The pulser executes its jobs. -/
theorem pulser_executes (high : Bool) (hbusy : Busy ((d, n) :: rest)) (is : List Isr) :
    Executes ((d, n) :: rest) high (is.count .isr1) (trace ⟨high, (d, n) :: rest⟩ d is) := by
  have hmarks := trace_marks high hbusy is
  have hrises := rises_of_marks hmarks
  constructor
  · omega
  · intro hticks
    have hleft := run_left is (a := ⟨high, (d, n) :: rest⟩) hbusy
    have hstart := left_le ⟨high, (d, n) :: rest⟩
    have hend := total_of_left (hleft.trans (Nat.sub_eq_zero_of_le (Nat.le_trans hstart hticks)))
    omega
  · exact run_levels ⟨high, (d, n) :: rest⟩ is
  · exact ⟨_, hmarks⟩
  · intro hall
    rw [work_of_rises hbusy hall] at hmarks
    rw [← hmarks]
    exact (List.append_nil _).symm

theorem motion_trace (h : motion calls = (exec Pulser.isr a is).1.flatten) :
    motion (.setDir d :: calls) = motion (trace a d is) := by
  show .setDir d :: motion calls = .setDir d :: motion _
  rw [← h, motion_motion]

theorem rises_congr {calls' : List Call} (h : motion calls' = motion calls) :
    rises calls' = rises calls := by
  rw [← rises_marks, ← marks_motion, h, marks_motion, rises_marks]

theorem executes_congr {high : Bool} {ticks : Nat} {calls' : List Call}
    (h : motion calls' = motion calls) (hcalls : Executes jobs high ticks calls) :
    Executes jobs high ticks calls' := by
  have hmarks : marks calls' = marks calls := by rw [← marks_motion, h, marks_motion]
  have hlevels : levels calls' = levels calls := by rw [← levels_motion, h, levels_motion]
  have hrises := rises_congr h
  obtain ⟨hle, heq, htoggles, hin, hcomplete⟩ := hcalls
  rw [← hrises] at hle heq hcomplete
  rw [← hmarks] at hin hcomplete
  rw [← hlevels] at htoggles
  exact ⟨hle, heq, htoggles, hin, hcomplete⟩

/-- **Every queued pulse is executed.** The tasks of a queue make their edges in order under
every interleaving of the interrupts, and nothing moves behind the last edge. -/
theorem queue_executed {s : State} {ps : List Ptr} (hne : ps ≠ [])
    (hlinked : Linked s.tasks s.dev.nextTask ps) (hready : ∀ p ∈ ps, Ready (s.tasks p))
    (hdir : s.dev.hasSetDir = true) (hstop : s.dev.hasStop = false) :
    ∃ start s₀, stepperRun s = some (start, s₀) ∧ ∀ is, ∃ calls s',
      run isr s₀ is = some (calls, s') ∧
      Executes (ps.map fun p => (s.tasks p).job) (s.dev.prevState ≠ 0) (is.count .isr1)
        (start ++ calls.flatten) ∧
      (rises (start ++ calls.flatten) = total (ps.map fun p => (s.tasks p).job) →
        ∀ js, ∃ calls' s'', run isr s' js = some (calls', s'') ∧ levels calls'.flatten = []) := by
  cases ps with
  | nil => exact absurd rfl hne
  | cons p ps =>
    cases hp : s.dev.nextTask with
    | none =>
      rw [hp] at hlinked
      exact absurd hlinked id
    | some q =>
      rw [hp] at hlinked
      obtain ⟨rfl, hqueue⟩ := hlinked
      obtain ⟨s₀, hrun, hkeeps, hserves⟩ := stepperRun_spec hdir hp ⟨rfl, hqueue⟩ hready
      have hfollows : Follows s₀ ⟨s.dev.prevState ≠ 0,
          ((s.tasks q).dir, (s.tasks q).edges) :: ps.map fun r => (s.tasks r).job⟩ :=
        ⟨by rw [hkeeps.prevState]; exact decide_eq_true_iff, hkeeps.hasSetDir.trans hdir,
          hkeeps.hasStop.trans hstop, hserves⟩
      have hbusy := busy_jobs hready
      refine ⟨_, s₀, hrun, fun is => ?_⟩
      obtain ⟨calls, s', hcalls, hmotion, hfollows'⟩ := run_follows hfollows is
      have hmotion' := motion_trace (d := (s.tasks q).dir) hmotion
      refine ⟨calls, s', hcalls, executes_congr hmotion' (pulser_executes _ hbusy is), ?_⟩
      intro hall js
      have hidle := work_of_rises hbusy ((rises_congr hmotion').symm.trans hall)
      obtain ⟨calls', s'', hcalls', hsilent, -⟩ := run_follows hfollows' js
      refine ⟨calls', s'', hcalls', ?_⟩
      rw [← levels_motion, hsilent, run_idle hidle]
      rfl

/-- Two tasks in a queue, with 4 and with 3 edges. -/
def pair : State where
  dev := ⟨true, false, 0, 0, 0, 0, 0, some 0, 0, 1000⟩
  tasks p :=
    match p with
    | 0 => ⟨10, 2, 1, 1, 5, 5, 1, .idle, none, some 1⟩
    | _ => ⟨20, 1, 1, 1, 5, 5, 0, .idle, none, none⟩
  bufs _ := ⟨[], [], 0, 0⟩

theorem queue_executed_pair : ∃ start s₀, stepperRun pair = some (start, s₀) ∧
    ∀ is, ∃ calls s', run isr s₀ is = some (calls, s') ∧
      Executes [(1, 4), (0, 3)] false (is.count .isr1) (start ++ calls.flatten) ∧
      (rises (start ++ calls.flatten) = 7 →
        ∀ js, ∃ calls' s'', run isr s' js = some (calls', s'') ∧ levels calls'.flatten = []) :=
  queue_executed (s := pair) (List.cons_ne_nil 0 [1]) ⟨rfl, rfl, trivial⟩
    (by
      rintro p (_ | ⟨_, _ | ⟨_, hp⟩⟩)
      · exact ⟨rfl, rfl, by decide, by decide, by decide⟩
      · exact ⟨rfl, rfl, by decide, by decide, by decide⟩
      · cases hp)
    rfl rfl

end MyLibraries.Stepper
