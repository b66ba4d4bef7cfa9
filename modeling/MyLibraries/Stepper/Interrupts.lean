import MyLibraries.Stepper.Model

/-!
# What the interrupts do

For each part of the two interrupts what it changes in the task at the head of the queue and
in the device, whatever buffers and callbacks there are.
-/

namespace MyLibraries.Stepper

variable {p : Ptr} {s s' s'' : State} {t : Task} {calls : List Call} {b : Option Ptr}

/-- The calls that move the motor. -/
def motion (calls : List Call) : List Call :=
  calls.filter fun
    | .setDuty _ => false
    | _ => true

theorem motion_append (calls calls' : List Call) :
    motion (calls ++ calls') = motion calls ++ motion calls' :=
  List.filter_append ..

/-! ## Counters -/

theorem toNat_pred {x : Stp} (h : 1 ≤ x.toNat) : (x - 1).toNat = x.toNat - 1 :=
  UInt16.toNat_sub_of_le _ _ h

theorem pred_eq_zero {x : Stp} (h : 1 ≤ x.toNat) : x - 1 = 0 ↔ x.toNat = 1 := by
  rw [← UInt16.toNat_inj, toNat_pred h]
  show x.toNat - 1 = 0 ↔ _
  omega

/-! ## What stays -/

/-- Nothing changes that the step and direction pins depend on, the tasks apart. -/
structure Keeps (s s' : State) : Prop where
  nextTask : s'.dev.nextTask = s.dev.nextTask
  hasSetDir : s'.dev.hasSetDir = s.dev.hasSetDir
  hasStop : s'.dev.hasStop = s.dev.hasStop
  prevState : s'.dev.prevState = s.dev.prevState

theorem Keeps.trans (h : Keeps s s') (h' : Keeps s' s'') : Keeps s s'' :=
  ⟨h'.nextTask.trans h.nextTask, h'.hasSetDir.trans h.hasSetDir, h'.hasStop.trans h.hasStop,
    h'.prevState.trans h.prevState⟩

/-- Nothing changes but the duty, and where it is read from. -/
structure OnlyDuty (s s' : State) : Prop extends Keeps s s' where
  tasks : s'.tasks = s.tasks
  curSpeed : s'.dev.curSpeed = s.dev.curSpeed

/-- The buffers and the indices into them are the same. -/
structure SameIndices (s s' : State) : Prop where
  bufs : s'.bufs = s.bufs
  accSteps : s'.dev.accSteps = s.dev.accSteps
  decSteps : s'.dev.decSteps = s.dev.decSteps

/-- The task at `p` becomes `task`, and nothing else changes but the duty. -/
structure Becomes (s : State) (p : Ptr) (task : Task) (s' : State) : Prop
    extends Keeps s s' where
  tasks : s'.tasks = Function.update s.tasks p task
  curSpeed : s'.dev.curSpeed = s.dev.curSpeed

/-- The task at `p` is left as `task`, whatever becomes of the others. -/
structure Leaves (s : State) (p : Ptr) (task : Task) (s' : State) : Prop where
  task : s'.tasks p = task
  curSpeed : s'.dev.curSpeed = s.dev.curSpeed
  prevState : s'.dev.prevState = s.dev.prevState

theorem SameIndices.trans {s'' : State} (h : SameIndices s s') (h' : SameIndices s' s'') :
    SameIndices s s'' :=
  ⟨h'.bufs.trans h.bufs, h'.accSteps.trans h.accSteps, h'.decSteps.trans h.decSteps⟩

theorem becomes_setTask (s : State) (p : Ptr) (t : Task) : Becomes s p t (s.setTask p t) :=
  ⟨⟨rfl, rfl, rfl, rfl⟩, rfl, rfl⟩

theorem Becomes.task (h : Becomes s p t s') : s'.tasks p = t := by
  rw [h.tasks, Function.update_self]

theorem Becomes.leaves (h : Becomes s p t s') : Leaves s p t s' :=
  ⟨h.task, h.curSpeed, h.prevState⟩

theorem Becomes.duty (h : Becomes s p t s') (h' : OnlyDuty s' s'') : Becomes s p t s'' :=
  ⟨h.toKeeps.trans h'.toKeeps, h'.tasks.trans h.tasks, h'.curSpeed.trans h.curSpeed⟩

theorem Becomes.setTask (h : Becomes s p t s') (u : Task) :
    Becomes s p u (s'.setTask p u) := by
  refine ⟨h.toKeeps.trans ⟨rfl, rfl, rfl, rfl⟩, ?_, h.curSpeed⟩
  show Function.update s'.tasks p u = _
  rw [h.tasks, Function.update_idem]

/-! ## The duty -/

theorem updateDuty_spec (s : State) :
    motion (updateDuty s).1 = [] ∧ OnlyDuty s (updateDuty s).2 := by
  unfold updateDuty
  split
  · exact ⟨rfl, ⟨rfl, rfl, rfl, rfl⟩, rfl, rfl⟩
  · exact ⟨rfl, ⟨rfl, rfl, rfl, rfl⟩, rfl, rfl⟩

/-- A duty that is read, if at all, and what is stored then. -/
theorem onlyDuty_of_read {x : Option Stp} {f : Stp → State}
    (h : (x.bind fun duty => some (f duty)) = some s') (hf : ∀ duty, OnlyDuty s (f duty)) :
    OnlyDuty s s' := by
  obtain ⟨duty, -, hs'⟩ := Option.bind_eq_some_iff.mp h
  cases hs'
  exact hf duty

theorem accDuty_onlyDuty (h : accDuty s b = some s') : OnlyDuty s s' := by
  cases b with
  | none =>
    cases h
    exact ⟨⟨rfl, rfl, rfl, rfl⟩, rfl, rfl⟩
  | some b => exact onlyDuty_of_read h fun _ => ⟨⟨rfl, rfl, rfl, rfl⟩, rfl, rfl⟩

theorem decDuty_onlyDuty (h : decDuty s b = some s') : OnlyDuty s s' := by
  cases b with
  | none =>
    cases h
    exact ⟨⟨rfl, rfl, rfl, rfl⟩, rfl, rfl⟩
  | some b => exact onlyDuty_of_read h fun _ => ⟨⟨rfl, rfl, rfl, rfl⟩, rfl, rfl⟩

/-! ## The edges -/

theorem acclEdge_spec (h : acclEdge s p = some (calls, s')) :
    motion calls = [] ∧ Becomes s p { s.tasks p with
      accSteps := (s.tasks p).accSteps - 1
      state := if (s.tasks p).accSteps - 1 = 0 then .runn else (s.tasks p).state } s' := by
  obtain ⟨s₁, hduty, hs'⟩ := Option.bind_eq_some_iff.mp h
  have hbecomes := (becomes_setTask s p _).duty (accDuty_onlyDuty hduty)
  by_cases hlast : (s.tasks p).accSteps - 1 = 0
  · rw [if_pos hlast] at hs' ⊢
    obtain ⟨hmotion, honly⟩ := updateDuty_spec (s₁.setTask p { s.tasks p with
      accSteps := (s.tasks p).accSteps - 1, state := .runn })
    rw [Option.some.inj hs'] at hmotion honly
    exact ⟨hmotion, (hbecomes.setTask _).duty honly⟩
  · rw [if_neg hlast] at hs' ⊢
    obtain ⟨hmotion, honly⟩ := updateDuty_spec s₁
    rw [Option.some.inj hs'] at hmotion honly
    exact ⟨hmotion, hbecomes.duty honly⟩

/-- Without a buffer the edge cannot read outside of it. -/
theorem acclEdge_some (hbuf : (s.tasks p).buf = none) : ∃ r, acclEdge s p = some r := by
  unfold acclEdge
  dsimp only
  rw [hbuf]
  exact ⟨_, rfl⟩

theorem runnEdge_spec (s : State) (p : Ptr) :
    Becomes s p { s.tasks p with
      runSteps := (s.tasks p).runSteps - 1
      state := if (s.tasks p).runSteps - 1 = 0 then .decl else .runn } (runnEdge s p).2 :=
  becomes_setTask ..

theorem run_of_not_idle (hp : s.dev.nextTask = some p) (h : (s.tasks p).state ≠ .idle) :
    stepperRun s = some ([], s) := by
  unfold stepperRun
  rw [hp]
  exact if_pos h

theorem stepperRun_idle (hp : s.dev.nextTask = some p) (hidle : (s.tasks p).state = .idle) :
    stepperRun s = some (if s.dev.hasSetDir then [.setDir (s.tasks p).dir] else [],
      s.setTask p { s.tasks p with state := .accl }) := by
  unfold stepperRun
  rw [hp]
  exact if_neg (not_not.mpr hidle)

/-- `stepper_run` starts the head of the queue if it waits, and does nothing if not. -/
theorem stepperRun_cases (h : stepperRun s = some (calls, s')) :
    ∃ q, s.dev.nextTask = some q ∧
      (((s.tasks q).state ≠ .idle ∧ calls = [] ∧ s' = s) ∨
        ((s.tasks q).state = .idle ∧
          calls = (if s.dev.hasSetDir then [.setDir (s.tasks q).dir] else []) ∧
          s' = s.setTask q { s.tasks q with state := .accl })) := by
  cases hq : s.dev.nextTask with
  | none =>
    unfold stepperRun at h
    rw [hq] at h
    cases h
  | some q =>
    by_cases hidle : (s.tasks q).state = .idle
    · cases (stepperRun_idle hq hidle).symm.trans h
      exact ⟨q, rfl, .inr ⟨hidle, rfl, rfl⟩⟩
    · cases (run_of_not_idle hq hidle).symm.trans h
      exact ⟨q, rfl, .inl ⟨hidle, rfl, rfl⟩⟩

/-- `stepper_run` leaves a task alone that does not wait. -/
theorem stepperRun_leaves (h : stepperRun s = some (calls, s')) (hp : (s.tasks p).state ≠ .idle) :
    Leaves s p (s.tasks p) s' := by
  obtain ⟨q, -, ⟨-, -, rfl⟩ | ⟨hidle, -, rfl⟩⟩ := stepperRun_cases h
  · exact ⟨rfl, rfl, rfl⟩
  · have hne : p ≠ q := by
      rintro rfl
      exact hp hidle
    exact ⟨setTask_of_ne s hne _, rfl, rfl⟩

theorem startNext_leaves (h : startNext s p = some (calls, s')) (hp : (s.tasks p).state ≠ .idle) :
    ∃ state, (state = (s.tasks p).state ∨ state = .idle) ∧
      Leaves s p { s.tasks p with state := state } s' := by
  unfold startNext at h
  split at h
  · rename_i q hq
    obtain ⟨htask, hspeed, hprev⟩ := stepperRun_leaves
      (s := { s with dev := { s.dev with nextTask := some q } }) h hp
    exact ⟨_, .inl rfl, htask, hspeed, hprev⟩
  · cases h
    exact ⟨_, .inr rfl, setTask_self .., rfl, rfl⟩

theorem declEdge_leaves (h : declEdge s p = some (calls, s')) (hp : (s.tasks p).state ≠ .idle) :
    ∃ state, (state = (s.tasks p).state ∨ state = .idle) ∧
      Leaves s p { s.tasks p with decSteps := (s.tasks p).decSteps - 1, state := state } s' := by
  obtain ⟨s₁, hduty, hs₁⟩ := Option.bind_eq_some_iff.mp h
  have hbecomes := (becomes_setTask s p _).duty (decDuty_onlyDuty hduty)
  have htask := hbecomes.task
  obtain ⟨⟨calls₂, s₂⟩, hstart, hs'⟩ := Option.bind_eq_some_iff.mp hs₁
  have hend : (updateDuty s₂).2 = s' := congrArg Prod.snd (Option.some.inj hs')
  subst hend
  have honly := (updateDuty_spec s₂).2
  split at hstart
  · have hp' : (s₁.tasks p).state ≠ .idle := by
      rw [htask]
      exact hp
    obtain ⟨state, hstate, htask₂, hspeed₂, hprev₂⟩ := startNext_leaves hstart hp'
    rw [htask] at hstate htask₂
    refine ⟨state, hstate, ?_, honly.curSpeed.trans (hspeed₂.trans hbecomes.curSpeed),
      honly.prevState.trans (hprev₂.trans hbecomes.prevState)⟩
    rw [honly.tasks, htask₂]
  · cases hstart
    exact ⟨_, .inl rfl, (hbecomes.duty honly).leaves⟩

/-! ## The first interrupt -/

/-- The task at `p` is at work. -/
def Runs (p : Ptr) (s : State) : Prop :=
  s.dev.nextTask = some p ∧ ¬(s.tasks p).state.Inactive

instance (p : Ptr) (s : State) : Decidable (Runs p s) := inferInstanceAs (Decidable (_ ∧ _))

theorem stepperIsr1_idle (hp : s.dev.nextTask = some p) (h : (s.tasks p).state.Inactive) :
    stepperIsr1 s = some ([], s) := by
  unfold stepperIsr1
  rw [hp]
  exact if_pos h

theorem stepperIsr1_fall (h : Runs p s) (hprev : s.dev.prevState ≠ 0) :
    stepperIsr1 s = some ([.setStep 0], { s with dev := { s.dev with prevState := 0 } }) := by
  unfold stepperIsr1
  rw [h.1]
  dsimp only
  rw [if_neg h.2, if_pos hprev]

theorem stepperIsr1_rise (h : Runs p s) (hprev : s.dev.prevState = 0) :
    stepperIsr1 s = (risingEdge { s with dev := { s.dev with prevState := 1 } } p).bind
      fun r => some (.setStep 1 :: r.1, r.2) := by
  unfold stepperIsr1
  rw [h.1]
  dsimp only
  rw [if_neg h.2, if_neg (not_not.mpr hprev)]
  rfl

/-! ## The second interrupt -/

theorem changeSpeed_spec (s : State) (p : Ptr) :
    (changeSpeed s p).tasks = s.tasks ∧ Keeps s (changeSpeed s p) := by
  unfold changeSpeed
  split
  · exact ⟨rfl, rfl, rfl, rfl, rfl⟩
  · exact ⟨rfl, rfl, rfl, rfl, rfl⟩
  · exact ⟨rfl, rfl, rfl, rfl, rfl⟩

theorem changeSpeed_same (s : State) (p : Ptr) : SameIndices s (changeSpeed s p) := by
  unfold changeSpeed
  split
  · exact ⟨rfl, rfl, rfl⟩
  · exact ⟨rfl, rfl, rfl⟩
  · exact ⟨rfl, rfl, rfl⟩

/-- The stop callback touches the state of the task only. -/
theorem askStop_spec (s : State) (p : Ptr) (answer : Stp) :
    Keeps s (askStop s p answer) ∧ SameIndices s (askStop s p answer) ∧
      (askStop s p answer).dev.curSpeed = s.dev.curSpeed ∧
      (askStop s p answer).tasks = if s.dev.hasStop ∧ answer ≠ 0 then
        Function.update s.tasks p { s.tasks p with state := .stop } else s.tasks := by
  unfold askStop
  split
  · exact ⟨⟨rfl, rfl, rfl, rfl⟩, ⟨rfl, rfl, rfl⟩, rfl, rfl⟩
  · exact ⟨⟨rfl, rfl, rfl, rfl⟩, ⟨rfl, rfl, rfl⟩, rfl, rfl⟩

/-- What the second interrupt does while a task is at the head of the queue. -/
theorem stepperIsr2_cases (hp : s.dev.nextTask = some p) (answer : Stp) :
    Keeps s (stepperIsr2 s answer) ∧ SameIndices s (stepperIsr2 s answer) ∧
      (stepperIsr2 s answer).dev.curSpeed = (changeSpeed s p).dev.curSpeed ∧
      (stepperIsr2 s answer).tasks = if s.dev.hasStop ∧ answer ≠ 0 then
        Function.update s.tasks p { s.tasks p with state := .stop } else s.tasks := by
  obtain ⟨htasks, hkeeps⟩ := changeSpeed_spec s p
  have hsame := changeSpeed_same s p
  obtain ⟨hkeeps₁, hsame₁, hspeed, hask⟩ := askStop_spec (changeSpeed s p) p answer
  rw [htasks, hkeeps.hasStop] at hask
  have hkept := hkeeps.trans hkeeps₁
  have hindices := hsame.trans hsame₁
  unfold stepperIsr2
  rw [hp]
  dsimp only
  split
  · exact ⟨hkept, hindices, hspeed, hask⟩
  · exact ⟨⟨hkept.nextTask, hkept.hasSetDir, hkept.hasStop, hkept.prevState⟩,
      ⟨hindices.bufs, hindices.accSteps, hindices.decSteps⟩, hspeed, hask⟩

theorem stepperIsr2_empty (hp : s.dev.nextTask = none) (answer : Stp) :
    stepperIsr2 s answer = s := by
  unfold stepperIsr2
  rw [hp]

theorem stepperIsr2_keeps (s : State) (answer : Stp) :
    Keeps s (stepperIsr2 s answer) ∧ SameIndices s (stepperIsr2 s answer) := by
  cases hp : s.dev.nextTask with
  | none =>
    rw [stepperIsr2_empty hp]
    exact ⟨⟨rfl, rfl, rfl, rfl⟩, ⟨rfl, rfl, rfl⟩⟩
  | some p =>
    obtain ⟨hkeeps, hsame, -⟩ := stepperIsr2_cases hp answer
    exact ⟨hkeeps, hsame⟩

/-- The task that the second interrupt leaves behind. -/
theorem stepperIsr2_leaves (hp : s.dev.nextTask = some p) (answer : Stp) :
    (∃ state, (state = (s.tasks p).state ∨ state = .stop) ∧
      (stepperIsr2 s answer).tasks p = { s.tasks p with state := state }) ∧
    (stepperIsr2 s answer).dev.curSpeed = (changeSpeed s p).dev.curSpeed ∧
    (stepperIsr2 s answer).dev.prevState = s.dev.prevState := by
  obtain ⟨hkeeps, -, hspeed, htasks⟩ := stepperIsr2_cases hp answer
  refine ⟨?_, hspeed, hkeeps.prevState⟩
  rw [htasks]
  split
  · exact ⟨.stop, .inr rfl, Function.update_self ..⟩
  · exact ⟨_, .inl rfl, rfl⟩

end MyLibraries.Stepper
