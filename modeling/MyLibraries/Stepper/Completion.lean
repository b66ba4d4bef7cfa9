import Mathlib.Algebra.GroupWithZero.Nat
import MyLibraries.Stepper.Calls
import MyLibraries.Stepper.Schedule

/-!
# A completed queue

The last edge of a queue leaves its last task in the state in which it was added, and
`stepper_status` reports this state. `stepper_run` takes the task for one that waits, and
the next interrupts make edges again.
-/

namespace MyLibraries.Stepper

open Run

/-- A call that neither adds a task nor cleans the queue. -/
def Drives : Op → Prop
  | .run | .isr1 | .isr2 _ => True
  | .add _ | .clean => False

/-- No calls make an edge, until a task is added. -/
def Quiet {δ : Type} (ar : Arith δ) (fuel : Nat) (s : State) : Prop :=
  ∀ ops, (∀ o ∈ ops, Drives o) →
    ∃ calls s', run (op ar fuel) s ops = some (calls, s') ∧ rises calls.flatten = 0

/-- A task that waits in the queue, with a step in each phase. -/
structure Waits (t : Task) : Prop where
  state : t.state = .idle
  acc_pos : 1 ≤ t.accSteps.toNat
  run_pos : 1 ≤ t.runSteps.toNat
  dec_pos : 1 ≤ t.decSteps.toNat

/-- The edges of all tasks of a queue. -/
def edgesOf (tasks : Ptr → Task) (ps : List Ptr) : Nat := (ps.map fun p => (tasks p).edges).sum

/-- The head of the queue begins to accelerate. -/
def Restarted (s : State) : Prop := ∃ p, s.dev.nextTask = some p ∧ (s.tasks p).state = .accl

/-- How far a queue with `total` edges is when `k` edges have been made. -/
inductive Progress (total : Nat) : Nat → State → Prop
  | waits {s : State} {ps : List Ptr} : s.dev.hasStop = false →
      Linked s.tasks s.dev.nextTask ps → (∀ p ∈ ps, (s.tasks p).state = .idle) →
      (waiting s.tasks ps).length = total → Progress total 0 s
  | ahead {s : State} {k : Nat} {es : List (Ptr × StateT)} : s.dev.hasStop = false →
      Ahead s es → k + es.length = total → Progress total k s
  | again {s : State} : s.dev.hasStop = false → Restarted s → Progress total total s
  | beyond {s : State} {k : Nat} : total < k → Progress total k s

variable {δ : Type} {ar : Arith δ} {fuel : Nat} {s s' : State} {p : Ptr} {ps : List Ptr}
  {calls : List Call} {o : Op} {total k : Nat} {tasks : Ptr → Task} {es : List (Ptr × StateT)}

/-! ## One call -/

theorem readable_of_some (hruns : Runs p s) (hlow : s.dev.prevState = 0)
    (h : stepperIsr1 s = some (calls, s')) : Readable s p := by
  by_contra hread
  cases (isr1_unreadable hruns hlow hread).symm.trans h

/-- A rising edge is made, or is undefined. -/
theorem rises_of_low (hruns : Runs p s) (hlow : s.dev.prevState = 0)
    (h : stepperIsr1 s = some (calls, s')) : rises calls = 1 := by
  have hread := readable_of_some hruns hlow h
  apply rises_of_one
  by_cases hend : (s.tasks p).AtEnd
  · obtain ⟨calls', s'', hisr, hlevels, -⟩ := isr1_finishes hruns hlow hend hread
    cases hisr.symm.trans h
    exact hlevels
  · obtain ⟨calls', s'', hisr, hlevels, -⟩ := isr1_goes hruns hlow hend hread
    cases hisr.symm.trans h
    exact hlevels

theorem runs_of_accl (hp : s.dev.nextTask = some p) (h : (s.tasks p).state = .accl) :
    Runs p s := by
  refine ⟨hp, ?_⟩
  rw [h]
  exact id

theorem run_of_accl (hp : s.dev.nextTask = some p) (h : (s.tasks p).state = .accl) :
    stepperRun s = some ([], s) := by
  apply run_of_not_idle hp
  rw [h]
  exact StateT.noConfusion

theorem progress_isr2 (h : Progress total k s) (answer : Stp) :
    Progress total k (stepperIsr2 s answer) := by
  cases h with
  | beyond hlt => exact .beyond hlt
  | waits hstop hlinked hidle htotal =>
    obtain ⟨htasks, hkeeps⟩ := stepperIsr2_spec hstop answer
    rw [← htasks, ← hkeeps.nextTask] at hlinked
    rw [← htasks] at hidle htotal
    exact .waits (hkeeps.hasStop.trans hstop) hlinked hidle htotal
  | ahead hstop hahead htotal =>
    obtain ⟨htasks, hkeeps⟩ := stepperIsr2_spec hstop answer
    exact .ahead (hkeeps.hasStop.trans hstop) (ahead_congr htasks hkeeps.nextTask hahead) htotal
  | again hstop hrestarted =>
    obtain ⟨htasks, hkeeps⟩ := stepperIsr2_spec hstop answer
    obtain ⟨p, hp, haccl⟩ := hrestarted
    rw [← htasks] at haccl
    exact .again (hkeeps.hasStop.trans hstop) ⟨p, hkeeps.nextTask.trans hp, haccl⟩

theorem progress_run (h : Progress total k s) (hrun : stepperRun s = some (calls, s')) :
    Progress total (k + rises calls) s' := by
  cases h with
  | beyond hlt => exact .beyond (Nat.lt_add_right _ hlt)
  | waits hstop hlinked hidle htotal =>
    obtain ⟨hahead, hsilent⟩ := ahead_start hlinked hidle hrun
    rw [rises_of_silent hsilent]
    exact .ahead ((stepperRun_hasStop hrun).trans hstop) hahead ((Nat.zero_add _).trans htotal)
  | ahead hstop hahead htotal =>
    cases hahead with
    | work hruns hlinked hidle =>
      have hne : (s.tasks _).state ≠ .idle := fun h => hruns.2 (h ▸ trivial)
      cases (run_of_not_idle hruns.1 hne).symm.trans hrun
      exact .ahead hstop (.work hruns hlinked hidle) htotal
    | @done p hp hidle =>
      obtain rfl : k = total := htotal
      rw [stepperRun_idle hp hidle] at hrun
      cases hrun
      have hsilent : rises (if s.dev.hasSetDir then [.setDir (s.tasks p).dir] else []) = 0 := by
        split
        · rfl
        · rfl
      rw [hsilent]
      refine .again hstop ⟨p, hp, ?_⟩
      rw [setTask_self]
  | again hstop hrestarted =>
    obtain ⟨p, hp, haccl⟩ := hrestarted
    cases (run_of_accl hp haccl).symm.trans hrun
    exact .again hstop ⟨p, hp, haccl⟩

theorem progress_isr1 (h : Progress total k s) (hisr : stepperIsr1 s = some (calls, s')) :
    Progress total (k + rises calls) s' := by
  cases h with
  | beyond hlt => exact .beyond (Nat.lt_add_right _ hlt)
  | @waits _ ps hstop hlinked hidle htotal =>
    have hsame : stepperIsr1 s = some ([], s) := by
      cases hp : s.dev.nextTask with
      | none =>
        unfold stepperIsr1
        rw [hp]
      | some p =>
        rw [hp] at hlinked
        cases ps with
        | nil => exact absurd hlinked id
        | cons q ps =>
          obtain ⟨rfl, -⟩ := hlinked
          apply stepperIsr1_idle hp
          rw [hidle p (List.mem_cons_self ..)]
          exact trivial
    cases hsame.symm.trans hisr
    exact .waits hstop hlinked hidle htotal
  | @ahead _ _ es hstop hahead htotal =>
    cases es with
    | nil =>
      cases (isr1_done hahead).symm.trans hisr
      exact .ahead hstop hahead htotal
    | cons e es =>
      by_cases hlow : s.dev.prevState = 0
      · have hread := readable_of_some (ahead_head hahead).1 hlow hisr
        obtain ⟨calls', s'', hisr', hlevels, hahead', hstop', -⟩ := isr1_rises hahead hlow hread
        cases hisr'.symm.trans hisr
        rw [rises_of_one hlevels]
        refine .ahead (hstop'.trans hstop) hahead' ?_
        rw [List.length_cons] at htotal
        omega
      · obtain ⟨hfall, hahead'⟩ := isr1_falls hahead hlow
        cases hfall.symm.trans hisr
        exact .ahead hstop hahead' htotal
  | again hstop hrestarted =>
    obtain ⟨p, hp, haccl⟩ := hrestarted
    have hruns := runs_of_accl hp haccl
    by_cases hlow : s.dev.prevState = 0
    · rw [rises_of_low hruns hlow hisr]
      exact .beyond (Nat.lt_succ_self _)
    · cases (stepperIsr1_fall hruns hlow).symm.trans hisr
      exact .again hstop ⟨p, hp, haccl⟩

theorem progress_step (h : Progress total k s) (ho : Drives o)
    (hop : op ar fuel s o = some (calls, s')) : Progress total (k + rises calls) s' := by
  cases o with
  | run => exact progress_run h hop
  | isr1 => exact progress_isr1 h hop
  | isr2 answer =>
    cases hop
    exact progress_isr2 h answer
  | add a => exact absurd ho id
  | clean => exact absurd ho id

/-! ## Runs -/

theorem progress_ops {ops : List Op} {calls : List (List Call)} (h : Progress total k s)
    (hops : ∀ o ∈ ops, Drives o) (hrun : run (op ar fuel) s ops = some (calls, s')) :
    Progress total (k + rises calls.flatten) s' := by
  induction ops generalizing s k calls with
  | nil =>
    cases hrun
    exact h
  | cons o ops ih =>
    obtain ⟨r, s₁, rs, h₁, h₂, rfl⟩ := run_cons_eq_some hrun
    have hstep := progress_step h (hops o (List.mem_cons_self ..)) h₁
    rw [List.flatten_cons, rises_append, ← Nat.add_assoc]
    exact ih hstep (fun o ho => hops o (List.mem_cons_of_mem _ ho)) h₂

theorem waiting_length (h : ∀ p ∈ ps, Waits (tasks p)) :
    (waiting tasks ps).length = edgesOf tasks ps := by
  induction ps with
  | nil => rfl
  | cons p ps ih =>
    obtain ⟨-, hacc, hrun, hdec⟩ := h p (List.mem_cons_self ..)
    rw [waiting_cons, List.length_append, List.length_map, planned_length, passes_of_pos hacc,
      passes_of_pos hrun, passes_of_pos hdec, ih fun q hq => h q (List.mem_cons_of_mem p hq)]
    rfl

theorem edgesOf_pos (hne : ps ≠ []) (h : ∀ p ∈ ps, Waits (tasks p)) : 1 ≤ edgesOf tasks ps := by
  cases ps with
  | nil => exact absurd rfl hne
  | cons p ps =>
    have hpos := (h p (List.mem_cons_self ..)).run_pos
    show 1 ≤ ((tasks p).accSteps.toNat + (tasks p).runSteps.toNat + (tasks p).decSteps.toNat) +
      edgesOf tasks ps
    omega

/-- Behind all edges the head of the queue waits, or begins to accelerate. -/
theorem head_of_progress (hpos : 1 ≤ total) (h : Progress total total s) :
    ∃ p, s.dev.nextTask = some p ∧ ((s.tasks p).state = .idle ∨ (s.tasks p).state = .accl) := by
  generalize hk : total = k at h
  cases h with
  | waits => omega
  | beyond hlt => omega
  | again hstop hrestarted =>
    obtain ⟨p, hp, haccl⟩ := hrestarted
    exact ⟨p, hp, .inr haccl⟩
  | @ahead _ _ es hstop hahead htotal =>
    obtain rfl : es = [] := by
      apply List.eq_nil_of_length_eq_zero
      omega
    generalize hes : [] = es at hahead
    cases hahead with
    | done hp hidle => exact ⟨_, hp, .inl hidle⟩
    | work hruns hlinked hidle =>
      have hlength := congrArg List.length hes
      have hahead := ahead_length_pos hruns.2
      rw [List.length_append, List.length_map] at hlength
      change 0 = _ at hlength
      omega

/-- A task that begins to accelerate makes an edge with the second interrupt at the latest. -/
theorem rises_of_restarted {calls : List (List Call)} (h : Restarted s)
    (hrun : run (op ar fuel) s [.isr1, .isr1] = some (calls, s')) : 1 ≤ rises calls.flatten := by
  obtain ⟨p, hp, haccl⟩ := h
  obtain ⟨⟨c₁, s₁⟩, h₁, hrest⟩ := Option.bind_eq_some_iff.mp hrun
  obtain ⟨⟨cs, s₂⟩, h₂, hend⟩ := Option.bind_eq_some_iff.mp hrest
  cases hend
  rw [List.flatten_cons, rises_append]
  by_cases hlow : s.dev.prevState = 0
  · rw [rises_of_low (runs_of_accl hp haccl) hlow h₁]
    omega
  · cases (stepperIsr1_fall (runs_of_accl hp haccl) hlow).symm.trans h₁
    obtain ⟨⟨c₂, s₃⟩, h₃, hrest₃⟩ := Option.bind_eq_some_iff.mp h₂
    cases hrest₃
    have hone := rises_of_low
      (s := { s with dev := { s.dev with prevState := 0 } }) (runs_of_accl hp haccl) rfl h₃
    rw [List.flatten_cons, rises_append, hone]
    omega

theorem not_quiet (hp : s.dev.nextTask = some p)
    (h : (s.tasks p).state = .idle ∨ (s.tasks p).state = .accl) : ¬Quiet ar fuel s := by
  intro hquiet
  obtain ⟨calls, s', hrun, hzero⟩ := hquiet [.run, .isr1, .isr1] (by
    rintro o (_ | ⟨_, _ | ⟨_, _ | ⟨_, ho⟩⟩⟩)
    · trivial
    · trivial
    · trivial
    · cases ho)
  obtain ⟨⟨c₁, s₁⟩, h₁, hrest⟩ := Option.bind_eq_some_iff.mp hrun
  obtain ⟨⟨cs, s₂⟩, h₂, hend⟩ := Option.bind_eq_some_iff.mp hrest
  cases hend
  have hrestarted : Restarted s₁ := by
    rcases h with hidle | haccl
    · cases (stepperRun_idle hp hidle).symm.trans h₁
      refine ⟨p, hp, ?_⟩
      rw [setTask_self]
    · cases (run_of_accl hp haccl).symm.trans h₁
      exact ⟨p, hp, haccl⟩
  have hpos := rises_of_restarted hrestarted h₂
  rw [List.flatten_cons, rises_append] at hzero
  omega

/-- **A completed queue is not done.** When a queue has made all its edges, its status is that
of a task that waits, or that was started again, and further calls make an edge. -/
theorem completed_restarts {ops : List Op} {calls : List (List Call)} (hne : ps ≠ [])
    (hlinked : Linked s.tasks s.dev.nextTask ps) (hwaits : ∀ p ∈ ps, Waits (s.tasks p))
    (hstop : s.dev.hasStop = false) (hops : ∀ o ∈ ops, Drives o)
    (hrun : run (op ar fuel) s ops = some (calls, s'))
    (hall : rises calls.flatten = edgesOf s.tasks ps) :
    (stepperStatus s' = some .idle ∨ stepperStatus s' = some .accl) ∧ ¬Quiet ar fuel s' := by
  have hstart : Progress (edgesOf s.tasks ps) 0 s :=
    .waits hstop hlinked (fun p hp => (hwaits p hp).state) (waiting_length hwaits)
  have hend := progress_ops hstart hops hrun
  rw [Nat.zero_add, hall] at hend
  obtain ⟨p, hp, hstate⟩ := head_of_progress (edgesOf_pos hne hwaits) hend
  refine ⟨?_, not_quiet hp hstate⟩
  unfold stepperStatus
  rw [hp]
  rcases hstate with hidle | haccl
  · exact .inl (congrArg some hidle)
  · exact .inr (congrArg some haccl)

/-- A queue of one task with a step in each phase. -/
def single : State where
  dev := ⟨true, false, 0, 0, 0, 0, 0, some 0, 0, 1000⟩
  tasks _ := ⟨10, 1, 1, 1, 5, 5, 1, .idle, none, none⟩
  bufs _ := ⟨[], [], 0, 0⟩

theorem completed_restarts_single : ∃ calls s',
    run (op double 0) single [.run, .isr1, .isr1, .isr1, .isr1, .isr1] = some (calls, s') ∧
      rises calls.flatten = 3 ∧
      (stepperStatus s' = some .idle ∨ stepperStatus s' = some .accl) ∧ ¬Quiet double 0 s' := by
  obtain ⟨⟨calls, s'⟩, hrun, hall⟩ : ∃ r,
      run (op double 0) single [.run, .isr1, .isr1, .isr1, .isr1, .isr1] = some r ∧
        rises r.1.flatten = 3 := ⟨_, rfl, rfl⟩
  have hlinked : Linked single.tasks single.dev.nextTask [0] := ⟨rfl, trivial⟩
  have hwaits : ∀ p ∈ [0], Waits (single.tasks p) := fun p _ =>
    ⟨rfl, Nat.le_refl 1, Nat.le_refl 1, Nat.le_refl 1⟩
  refine ⟨calls, s', hrun, hall, completed_restarts (List.cons_ne_nil 0 []) hlinked hwaits rfl ?_
    hrun hall⟩
  rintro o (_ | ⟨_, _ | ⟨_, _ | ⟨_, _ | ⟨_, _ | ⟨_, _ | ⟨_, ho⟩⟩⟩⟩⟩⟩)
  · trivial
  · trivial
  · trivial
  · trivial
  · trivial
  · trivial
  · cases ho

/-- The task waits behind its three edges, and makes a fourth one. -/
theorem fourth_edge : ∃ calls s' calls' s'',
    run (op double 0) single [.run, .isr1, .isr1, .isr1, .isr1, .isr1] = some (calls, s') ∧
      rises calls.flatten = edgesOf single.tasks [0] ∧ stepperStatus s' ≠ some .done ∧
      run (op double 0) s' [.run, .isr1, .isr1] = some (calls', s'') ∧
      rises calls'.flatten = 1 := by
  refine ⟨_, _, _, _, rfl, rfl, ?_, rfl, rfl⟩
  decide

end MyLibraries.Stepper
