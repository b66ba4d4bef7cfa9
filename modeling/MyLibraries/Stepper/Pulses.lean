import MyLibraries.Stepper.Interrupts

/-!
# The pulses of a queue

What the interrupts do to the motor, apart from the duty of the timer, does not depend on
the speed: a `Pulser` that counts the edges left of each task makes the same calls. The
driver refines it, and what is to be shown of the pulses is shown of the `Pulser`.
-/

namespace MyLibraries.Stepper

open Run

/-! ## Counting edges -/

/-- The level of the step pin, and the directions and the edges left of the task at work
and of those behind it. -/
structure Pulser where
  high : Bool
  work : List (Stp × Nat)
  deriving DecidableEq, Repr

/-- The calls that start the next of the jobs that are left. -/
def starts (rest : List (Stp × Nat)) : List Call := (rest.take 1).map fun job => .setDir job.1

/-- An interrupt, as far as the pins for step and direction see it. -/
def Pulser.isr (a : Pulser) : Isr → List Call × Pulser
  | .isr2 _ => ([], a)
  | .isr1 =>
    match a.work with
    | [] => ([], a)
    | (d, n) :: rest =>
      if a.high then
        ([.setStep 0], { a with high := false })
      else if n > 1 then
        ([.setStep 1], ⟨true, (d, n - 1) :: rest⟩)
      else
        (.setStep 1 :: starts rest, ⟨true, rest⟩)

theorem isr1_more {d : Stp} {n : Nat} {rest : List (Stp × Nat)} (hn : 1 < n) :
    (Pulser.mk false ((d, n) :: rest)).isr .isr1 =
      ([.setStep 1], ⟨true, (d, n - 1) :: rest⟩) :=
  if_pos hn

theorem isr1_last {d : Stp} {n : Nat} {rest : List (Stp × Nat)} (hn : ¬1 < n) :
    (Pulser.mk false ((d, n) :: rest)).isr .isr1 = (.setStep 1 :: starts rest, ⟨true, rest⟩) :=
  if_neg hn

/-- The edges that a task will make. -/
def Task.edges (t : Task) : Nat := t.accSteps.toNat + t.runSteps.toNat + t.decSteps.toNat

def Task.job (t : Task) : Stp × Nat := (t.dir, t.edges)

/-! ## Queues in memory -/

/-- The tasks of the list are linked through `next`, from `x` on, up to a null pointer. -/
def Linked (tasks : Ptr → Task) : Option Ptr → List Ptr → Prop
  | none, [] => True
  | some p, q :: ps => p = q ∧ Linked tasks (tasks p).next ps
  | _, _ => False

/-- A task that waits in the queue: without a buffer, and with a step in each phase. -/
structure Ready (t : Task) : Prop where
  state : t.state = .idle
  buf : t.buf = none
  acc_pos : 1 ≤ t.accSteps.toNat
  run_pos : 1 ≤ t.runSteps.toNat
  dec_pos : 1 ≤ t.decSteps.toNat

/-- A task at work, with `n` edges left. -/
structure Working (t : Task) (n : Nat) : Prop where
  buf : t.buf = none
  phase :
    match t.state with
    | .accl => 1 ≤ t.accSteps.toNat ∧ 1 ≤ t.runSteps.toNat ∧ 1 ≤ t.decSteps.toNat ∧ n = t.edges
    | .runn => 1 ≤ t.runSteps.toNat ∧ 1 ≤ t.decSteps.toNat ∧
        n = t.runSteps.toNat + t.decSteps.toNat
    | .decl => 1 ≤ t.decSteps.toNat ∧ n = t.decSteps.toNat
    | _ => False

variable {tasks tasks' : Ptr → Task} {x : Option Ptr} {p q : Ptr} {ps qs : List Ptr} {t : Task}
  {n : Nat} {s s' : State} {a : Pulser}

theorem linked_congr (h : ∀ q, (tasks' q).next = (tasks q).next) :
    Linked tasks' x ps ↔ Linked tasks x ps := by
  induction ps generalizing x with
  | nil => cases x <;> exact Iff.rfl
  | cons q ps ih =>
    cases x with
    | none => exact Iff.rfl
    | some p =>
      show p = q ∧ Linked tasks' (tasks' p).next ps ↔ p = q ∧ Linked tasks (tasks p).next ps
      rw [h p, ih]

theorem linked_unique (h : Linked tasks x ps) (h' : Linked tasks x qs) : ps = qs := by
  induction ps generalizing x qs with
  | nil =>
    cases x with
    | none => cases qs with
      | nil => rfl
      | cons q qs => exact absurd h' id
    | some p => exact absurd h id
  | cons p ps ih =>
    cases x with
    | none => exact absurd h id
    | some r =>
      obtain ⟨rfl, hps⟩ := h
      cases qs with
      | nil => exact absurd h' id
      | cons q qs =>
        obtain ⟨rfl, hqs⟩ := h'
        rw [ih hps hqs]

theorem linked_of_mem (h : Linked tasks x ps) (hp : p ∈ ps) :
    ∃ qs, qs.length < ps.length ∧ Linked tasks (tasks p).next qs := by
  induction ps generalizing x with
  | nil => cases hp
  | cons q ps ih =>
    cases x with
    | none => exact absurd h id
    | some r =>
      obtain ⟨rfl, hps⟩ := h
      rcases List.mem_cons.mp hp with rfl | hmem
      · exact ⟨ps, Nat.lt_succ_self _, hps⟩
      · obtain ⟨qs, hlt, hqs⟩ := ih hps hmem
        exact ⟨qs, Nat.lt_succ_of_lt hlt, hqs⟩

/-- A queue that ends has no task twice. -/
theorem linked_not_mem (h : Linked tasks (tasks p).next ps) : p ∉ ps := by
  intro hp
  obtain ⟨qs, hlt, hqs⟩ := linked_of_mem h hp
  rw [linked_unique h hqs] at hlt
  exact Nat.lt_irrefl _ hlt

/-! ## One edge of the driver -/

/-- The three phases of a task at work. -/
theorem working_cases (h : Working t n) :
    (t.state = .accl ∧ 1 ≤ t.accSteps.toNat ∧ 1 ≤ t.runSteps.toNat ∧ 1 ≤ t.decSteps.toNat ∧
      n = t.edges) ∨
    (t.state = .runn ∧ 1 ≤ t.runSteps.toNat ∧ 1 ≤ t.decSteps.toNat ∧
      n = t.runSteps.toNat + t.decSteps.toNat) ∨
    (t.state = .decl ∧ 1 ≤ t.decSteps.toNat ∧ n = t.decSteps.toNat) := by
  have hphase := h.phase
  cases hst : t.state with
  | accl =>
    rw [hst] at hphase
    exact .inl ⟨rfl, hphase⟩
  | runn =>
    rw [hst] at hphase
    exact .inr (.inl ⟨rfl, hphase⟩)
  | decl =>
    rw [hst] at hphase
    exact .inr (.inr ⟨rfl, hphase⟩)
  | idle | hold | done | stop =>
    rw [hst] at hphase
    exact absurd hphase id

theorem active_of_working (h : Working t n) : ¬t.state.Inactive := by
  rcases working_cases h with ⟨hst, -⟩ | ⟨hst, -⟩ | ⟨hst, -⟩
  · rw [hst]
    exact id
  · rw [hst]
    exact id
  · rw [hst]
    exact id

/-- An edge leaves the task at `p` with one edge less, and its link as it was. -/
def Steps (s : State) (p : Ptr) (n : Nat) (s' : State) : Prop :=
  Keeps s s' ∧ ∃ t, s'.tasks = Function.update s.tasks p t ∧ t.next = (s.tasks p).next ∧
    Working t (n - 1)

theorem acclEdge_steps (hbuf : (s.tasks p).buf = none) (hst : (s.tasks p).state = .accl)
    (hphase : 1 ≤ (s.tasks p).accSteps.toNat ∧ 1 ≤ (s.tasks p).runSteps.toNat ∧
      1 ≤ (s.tasks p).decSteps.toNat ∧ n = (s.tasks p).edges) :
    ∃ calls s', acclEdge s p = some (calls, s') ∧ motion calls = [] ∧ Steps s p n s' := by
  obtain ⟨hacc, hrun, hdec, hn⟩ := hphase
  have hpred := toNat_pred hacc
  have hzero := pred_eq_zero hacc
  unfold Task.edges at hn
  obtain ⟨⟨calls, s'⟩, hedge⟩ := acclEdge_some hbuf
  obtain ⟨hmotion, hbecomes⟩ := acclEdge_spec hedge
  refine ⟨calls, s', hedge, hmotion, hbecomes.toKeeps, _, hbecomes.tasks, rfl, hbuf, ?_⟩
  dsimp only
  by_cases hlast : (s.tasks p).accSteps - 1 = 0
  · rw [if_pos hlast]
    have hone := hzero.mp hlast
    exact ⟨hrun, hdec, by omega⟩
  · rw [if_neg hlast, hst]
    have hmore := mt hzero.mpr hlast
    refine ⟨by omega, hrun, hdec, ?_⟩
    show n - 1 = ((s.tasks p).accSteps - 1).toNat + (s.tasks p).runSteps.toNat +
      (s.tasks p).decSteps.toNat
    omega

theorem runnEdge_steps (hbuf : (s.tasks p).buf = none)
    (hphase : 1 ≤ (s.tasks p).runSteps.toNat ∧ 1 ≤ (s.tasks p).decSteps.toNat ∧
      n = (s.tasks p).runSteps.toNat + (s.tasks p).decSteps.toNat) :
    Steps s p n (runnEdge s p).2 := by
  obtain ⟨hrun, hdec, hn⟩ := hphase
  have hpred := toNat_pred hrun
  have hzero := pred_eq_zero hrun
  have hbecomes := runnEdge_spec s p
  refine ⟨hbecomes.toKeeps, _, hbecomes.tasks, rfl, hbuf, ?_⟩
  dsimp only
  by_cases hlast : (s.tasks p).runSteps - 1 = 0
  · rw [if_pos hlast]
    have hone := hzero.mp hlast
    exact ⟨hdec, by omega⟩
  · rw [if_neg hlast]
    have hmore := mt hzero.mpr hlast
    exact ⟨by omega, hdec, by omega⟩

theorem declEdge_eq (hbuf : (s.tasks p).buf = none) : declEdge s p =
    let s := s.setTask p { s.tasks p with decSteps := (s.tasks p).decSteps - 1 }
    (if (s.tasks p).decSteps = 0 then startNext s p else some ([], s)).bind
      fun r => some (r.1 ++ (updateDuty r.2).1, (updateDuty r.2).2) := by
  unfold declEdge
  dsimp only
  rw [hbuf, setTask_self]
  rfl

theorem declEdge_steps (hbuf : (s.tasks p).buf = none) (hst : (s.tasks p).state = .decl)
    (hphase : 1 ≤ (s.tasks p).decSteps.toNat ∧ n = (s.tasks p).decSteps.toNat) (hn : 1 < n) :
    ∃ calls s', declEdge s p = some (calls, s') ∧ motion calls = [] ∧ Steps s p n s' := by
  obtain ⟨hdec, hn'⟩ := hphase
  have hpred := toNat_pred hdec
  have hmore := mt (pred_eq_zero hdec).mp (by omega)
  obtain ⟨hmotion, honly⟩ := updateDuty_spec (s.setTask p { s.tasks p with
    decSteps := (s.tasks p).decSteps - 1 })
  have hbecomes := (becomes_setTask s p _).duty honly
  refine ⟨_, _, (declEdge_eq hbuf).trans ?_, hmotion, hbecomes.toKeeps, _, hbecomes.tasks, rfl,
    hbuf, ?_⟩
  · dsimp only
    rw [setTask_self, if_neg hmore]
    rfl
  · dsimp only
    rw [hst]
    exact ⟨by omega, by omega⟩

/-- A task has its last edge only while it decelerates. -/
theorem decl_of_last (hw : Working t n) (hn : n ≤ 1) : t.state = .decl ∧ t.decSteps - 1 = 0 := by
  rcases working_cases hw with ⟨-, hacc, hrun, hdec, rfl⟩ | ⟨-, hrun, hdec, rfl⟩ | ⟨hst, hdec, rfl⟩
  · unfold Task.edges at hn
    omega
  · omega
  · exact ⟨hst, (pred_eq_zero hdec).mpr (by omega)⟩

/-! ## The driver as a pulser -/

/-- The task at work and the queue behind it have the edges that are listed. -/
def Serves (s : State) : List (Stp × Nat) → Prop
  | [] => ∃ p, s.dev.nextTask = some p ∧ (s.tasks p).state.Inactive
  | (_, n) :: rest => ∃ p ps, s.dev.nextTask = some p ∧ Working (s.tasks p) n ∧
      Linked s.tasks (s.tasks p).next ps ∧ (∀ q ∈ ps, Ready (s.tasks q)) ∧
      rest = ps.map fun q => (s.tasks q).job

/-- The driver behaves as the pulser. -/
structure Follows (s : State) (a : Pulser) : Prop where
  high : a.high = true ↔ s.dev.prevState ≠ 0
  hasSetDir : s.dev.hasSetDir = true
  hasStop : s.dev.hasStop = false
  serves : Serves s a.work

theorem serves_congr {work : List (Stp × Nat)} (htasks : s'.tasks = s.tasks)
    (hnext : s'.dev.nextTask = s.dev.nextTask) (h : Serves s work) : Serves s' work := by
  cases work with
  | nil =>
    obtain ⟨p, hp, hinactive⟩ := h
    refine ⟨p, hnext.trans hp, ?_⟩
    rw [htasks]
    exact hinactive
  | cons job rest =>
    obtain ⟨p, ps, hp, hw, hlinked, hready, hrest⟩ := h
    refine ⟨p, ps, hnext.trans hp, ?_⟩
    rw [htasks]
    exact ⟨hw, hlinked, hready, hrest⟩

/-- A change of a task outside of the queue changes nothing for the queue. -/
theorem queue_update (hnext : t.next = (tasks p).next) (hp : p ∉ ps)
    (hlinked : Linked tasks x ps) (hready : ∀ q ∈ ps, Ready (tasks q)) :
    Linked (Function.update tasks p t) x ps ∧
      (∀ q ∈ ps, Ready (Function.update tasks p t q)) ∧
      ps.map (fun q => (Function.update tasks p t q).job) = ps.map fun q => (tasks q).job := by
  have hne : ∀ q ∈ ps, Function.update tasks p t q = tasks q := by
    intro q hq
    apply Function.update_of_ne
    rintro rfl
    exact hp hq
  refine ⟨(linked_congr fun q => ?_).mpr hlinked, fun q hq => ?_, ?_⟩
  · by_cases hqp : q = p
    · rw [hqp, Function.update_self, hnext]
    · rw [Function.update_of_ne hqp]
  · rw [hne q hq]
    exact hready q hq
  · apply List.map_congr_left
    intro q hq
    rw [hne q hq]

/-- An edge that is not the last one of its task. -/
theorem serves_step {d : Stp} {rest : List (Stp × Nat)} (hp : s.dev.nextTask = some p)
    (hserves : Serves s ((d, n) :: rest)) (h : Steps s p n s') :
    Serves s' ((d, n - 1) :: rest) := by
  obtain ⟨q, ps, hq, -, hlinked, hready, rfl⟩ := hserves
  cases hp.symm.trans hq
  obtain ⟨hkeeps, t, htasks, hnext, hw⟩ := h
  obtain ⟨hlinked', hready', hjobs⟩ :=
    queue_update hnext (linked_not_mem hlinked) hlinked hready
  refine ⟨p, ps, hkeeps.nextTask.trans hp, ?_⟩
  rw [htasks, Function.update_self, hnext]
  exact ⟨hw, hlinked', hready', hjobs.symm⟩

theorem edge_of_more (hw : Working (s.tasks p) n) (hn : 1 < n) :
    ∃ calls s', risingEdge s p = some (calls, s') ∧ motion calls = [] ∧ Steps s p n s' := by
  unfold risingEdge
  rcases working_cases hw with ⟨hst, hphase⟩ | ⟨hst, hphase⟩ | ⟨hst, hphase⟩
  · rw [hst]
    exact acclEdge_steps hw.buf hst hphase
  · rw [hst]
    exact ⟨_, _, rfl, rfl, runnEdge_steps hw.buf hphase⟩
  · rw [hst]
    exact declEdge_steps hw.buf hst hphase hn

theorem working_of_ready (h : Ready t) : Working { t with state := .accl } t.edges :=
  ⟨h.buf, h.acc_pos, h.run_pos, h.dec_pos, rfl⟩

/-- `stepper_run` with a waiting task at the head of the queue. -/
theorem stepperRun_spec (hdir : s.dev.hasSetDir = true) (hq : s.dev.nextTask = some q)
    (hlinked : Linked s.tasks (some q) (q :: qs)) (hready : ∀ r ∈ q :: qs, Ready (s.tasks r)) :
    ∃ s', stepperRun s = some ([.setDir (s.tasks q).dir], s') ∧ Keeps s s' ∧
      Serves s' ((q :: qs).map fun r => (s.tasks r).job) := by
  have hq' := hready q (List.mem_cons_self ..)
  obtain ⟨-, hqs⟩ := hlinked
  obtain ⟨hlinked', hready', hjobs⟩ := queue_update (t := { s.tasks q with state := .accl }) rfl
    (linked_not_mem hqs) hqs fun r hr => hready r (List.mem_cons_of_mem q hr)
  refine ⟨s.setTask q { s.tasks q with state := .accl }, ?_, ⟨rfl, rfl, rfl, rfl⟩, q, qs, hq, ?_⟩
  · rw [stepperRun_idle hq hq'.state, hdir, if_pos rfl]
  · rw [setTask_self]
    exact ⟨working_of_ready hq', hlinked', hready', hjobs.symm⟩

theorem startNext_spec {rest : List (Stp × Nat)} (hdir : s.dev.hasSetDir = true)
    (hp : s.dev.nextTask = some p) (hnext : (s.tasks p).next = x) (hlinked : Linked s.tasks x ps)
    (hready : ∀ r ∈ ps, Ready (s.tasks r)) (hjobs : ps.map (fun r => (s.tasks r).job) = rest) :
    ∃ s', startNext s p = some (starts rest, s') ∧ s'.dev.hasSetDir = s.dev.hasSetDir ∧
      s'.dev.hasStop = s.dev.hasStop ∧ s'.dev.prevState = s.dev.prevState ∧ Serves s' rest := by
  subst hjobs
  unfold startNext
  cases ps with
  | nil =>
    cases x with
    | none =>
      rw [hnext]
      refine ⟨_, rfl, rfl, rfl, rfl, p, hp, ?_⟩
      rw [setTask_self]
      exact trivial
    | some q => exact absurd hlinked id
  | cons q qs =>
    cases x with
    | none => exact absurd hlinked id
    | some r =>
      obtain ⟨rfl, hqs⟩ := hlinked
      rw [hnext]
      obtain ⟨s', hrun, hkeeps, hserves⟩ := stepperRun_spec
        (s := { s with dev := { s.dev with nextTask := some r } }) hdir rfl ⟨rfl, hqs⟩ hready
      exact ⟨s', hrun, hkeeps.2, hkeeps.3, hkeeps.4, hserves⟩

theorem motion_starts (rest : List (Stp × Nat)) : motion (starts rest) = starts rest := by
  cases rest with
  | nil => rfl
  | cons job rest => rfl

/-- The last edge of a task. -/
theorem edge_of_last {d : Stp} {rest : List (Stp × Nat)} (hdir : s.dev.hasSetDir = true)
    (hp : s.dev.nextTask = some p) (hn : n ≤ 1) (hserves : Serves s ((d, n) :: rest)) :
    ∃ calls s', risingEdge s p = some (calls, s') ∧ motion calls = starts rest ∧
      s'.dev.hasSetDir = s.dev.hasSetDir ∧ s'.dev.hasStop = s.dev.hasStop ∧
      s'.dev.prevState = s.dev.prevState ∧ Serves s' rest := by
  obtain ⟨q, ps, hq, hw, hlinked, hready, rfl⟩ := hserves
  cases hp.symm.trans hq
  obtain ⟨hst, hlast⟩ := decl_of_last hw hn
  obtain ⟨hlinked', hready', hjobs⟩ := queue_update
    (t := { s.tasks p with decSteps := (s.tasks p).decSteps - 1 }) rfl (linked_not_mem hlinked)
    hlinked hready
  have hnext := congrArg Task.next
    (setTask_self s p { s.tasks p with decSteps := (s.tasks p).decSteps - 1 })
  obtain ⟨s₁, hstart, hdir₁, hstop₁, hprev₁, hserves₁⟩ :=
    startNext_spec (s := s.setTask p _) hdir hp hnext hlinked' hready' hjobs
  obtain ⟨hmotion, honly⟩ := updateDuty_spec s₁
  have hedge : risingEdge s p = declEdge s p := by
    unfold risingEdge
    rw [hst]
  refine ⟨starts (ps.map fun q => (s.tasks q).job) ++ (updateDuty s₁).1, (updateDuty s₁).2,
    hedge.trans ((declEdge_eq hw.buf).trans ?_), ?_, honly.hasSetDir.trans hdir₁,
    honly.hasStop.trans hstop₁, honly.prevState.trans hprev₁,
    serves_congr honly.tasks honly.nextTask hserves₁⟩
  · dsimp only
    rw [setTask_self, if_pos hlast, hstart]
    rfl
  · rw [motion_append, motion_starts, hmotion, List.append_nil]

/-- Without a stop callback the second interrupt touches nothing but speed and duty. -/
theorem stepperIsr2_spec (hstop : s.dev.hasStop = false) (answer : Stp) :
    (stepperIsr2 s answer).tasks = s.tasks ∧ Keeps s (stepperIsr2 s answer) := by
  refine ⟨?_, (stepperIsr2_keeps s answer).1⟩
  cases hp : s.dev.nextTask with
  | none => rw [stepperIsr2_empty hp]
  | some p =>
    obtain ⟨-, -, -, htasks⟩ := stepperIsr2_cases hp answer
    rw [htasks, hstop]
    exact if_neg fun h => Bool.false_ne_true h.1

theorem high_of_prev (h : s.dev.prevState = 1) : true = true ↔ s.dev.prevState ≠ 0 := by
  rw [h]
  exact ⟨fun _ => by decide, fun _ => rfl⟩

/-- A rising edge. -/
theorem rise_refines {d : Stp} {rest : List (Stp × Nat)}
    (h : Follows s ⟨false, (d, n) :: rest⟩) :
    ∃ calls s', stepperIsr1 s = some (calls, s') ∧
      motion calls = (Pulser.isr ⟨false, (d, n) :: rest⟩ .isr1).1 ∧
      Follows s' (Pulser.isr ⟨false, (d, n) :: rest⟩ .isr1).2 := by
  obtain ⟨hhigh, hdir, hstop, hserves⟩ := h
  obtain ⟨p, ps, hp, hw, -⟩ := id hserves
  have hlow : s.dev.prevState = 0 := not_not.mp (mt hhigh.mpr Bool.false_ne_true)
  have hserves₁ : Serves { s with dev := { s.dev with prevState := 1 } } ((d, n) :: rest) :=
    serves_congr (s := s) rfl rfl hserves
  rw [stepperIsr1_rise ⟨hp, active_of_working hw⟩ hlow]
  by_cases hn : 1 < n
  · obtain ⟨calls, s', hedge, hmotion, hsteps⟩ :=
      edge_of_more (s := { s with dev := { s.dev with prevState := 1 } }) hw hn
    have hkeeps := hsteps.1
    have hserves' := serves_step (s := { s with dev := { s.dev with prevState := 1 } }) hp
      hserves₁ hsteps
    rw [hedge, isr1_more hn]
    refine ⟨_, _, rfl, congrArg (List.cons (Call.setStep 1)) hmotion, ?_⟩
    exact ⟨high_of_prev (hkeeps.prevState.trans rfl), hkeeps.hasSetDir.trans hdir,
      hkeeps.hasStop.trans hstop, hserves'⟩
  · obtain ⟨calls, s', hedge, hmotion, hdir', hstop', hprev', hserves'⟩ :=
      edge_of_last (s := { s with dev := { s.dev with prevState := 1 } }) hdir hp
        (Nat.le_of_not_lt hn) hserves₁
    rw [hedge, isr1_last hn]
    refine ⟨_, _, rfl, congrArg (List.cons (Call.setStep 1)) hmotion, ?_⟩
    exact ⟨high_of_prev (hprev'.trans rfl), hdir'.trans hdir, hstop'.trans hstop, hserves'⟩

/-- An interrupt of the step timer. -/
theorem isr1_refines (h : Follows s a) :
    ∃ calls s', stepperIsr1 s = some (calls, s') ∧ motion calls = (a.isr .isr1).1 ∧
      Follows s' (a.isr .isr1).2 := by
  obtain ⟨high, work⟩ := a
  cases work with
  | nil =>
    obtain ⟨p, hp, hinactive⟩ := h.serves
    exact ⟨[], s, stepperIsr1_idle hp hinactive, rfl, h⟩
  | cons job rest =>
    obtain ⟨d, n⟩ := job
    cases high with
    | true =>
      obtain ⟨hhigh, hdir, hstop, hserves⟩ := h
      obtain ⟨p, ps, hp, hw, -⟩ := id hserves
      refine ⟨_, _, stepperIsr1_fall ⟨hp, active_of_working hw⟩ (hhigh.mp rfl), rfl, ?_⟩
      refine ⟨?_, hdir, hstop, serves_congr (s := s) rfl rfl hserves⟩
      exact ⟨fun h => absurd h Bool.false_ne_true, fun h => absurd rfl h⟩
    | false => exact rise_refines h

/-- **The driver does what the pulser does**, with its duties left out. -/
theorem isr_refines : Refines (fun s i => (isr s i).map (Prod.map motion id)) Pulser.isr Follows
    fun _ _ => True := by
  intro s a i h _
  cases i with
  | isr2 answer =>
    obtain ⟨htasks, hkeeps⟩ := stepperIsr2_spec h.hasStop answer
    refine ⟨stepperIsr2 s answer, rfl, ?_, hkeeps.2.trans h.hasSetDir, hkeeps.3.trans h.hasStop,
      serves_congr htasks hkeeps.nextTask h.serves⟩
    show a.high = true ↔ _
    rw [hkeeps.4]
    exact h.high
  | isr1 =>
    obtain ⟨calls, s', hisr, hmotion, hfollows⟩ := isr1_refines h
    refine ⟨s', ?_, hfollows⟩
    show (stepperIsr1 s).map _ = _
    rw [hisr, ← hmotion]
    rfl

theorem run_follows (h : Follows s a) (is : List Isr) : ∃ calls s',
    run isr s is = some (calls, s') ∧
      motion calls.flatten = (exec Pulser.isr a is).1.flatten ∧
      Follows s' (exec Pulser.isr a is).2 := by
  obtain ⟨s', hrun, hfollows⟩ := run_refines isr_refines h (along_of_forall (fun _ _ => trivial) is)
  rw [run_map] at hrun
  obtain ⟨⟨calls, s''⟩, hisr, heq⟩ := Option.map_eq_some_iff.mp hrun
  obtain ⟨hcalls, rfl⟩ := Prod.mk.inj heq
  refine ⟨calls, s'', hisr, ?_, hfollows⟩
  rw [← hcalls]
  exact List.filter_flatten

end MyLibraries.Stepper
