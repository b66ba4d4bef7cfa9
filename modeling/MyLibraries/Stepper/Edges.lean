import MyLibraries.Stepper.Execution

/-!
# The edges of any task

Counters are decremented before they are tested, so that a phase of no steps takes as many
edges as there are values of `stp_t`. With this the edges that a task still makes are known
from its counters alone, whatever they are and whatever buffers it has.
-/

namespace MyLibraries.Stepper

/-- The number of edges until a counter is decremented to zero. -/
def passes (n : Stp) : Nat := (n - 1).toNat + 1

/-- The phases in which a task at work makes the edges that are left. -/
def Task.ahead (t : Task) : List StateT :=
  match t.state with
  | .accl => List.replicate (passes t.accSteps) .accl ++
      (List.replicate (passes t.runSteps) .runn ++ List.replicate (passes t.decSteps) .decl)
  | .runn => List.replicate (passes t.runSteps) .runn ++ List.replicate (passes t.decSteps) .decl
  | .decl => List.replicate (passes t.decSteps) .decl
  | _ => []

/-- The phases of the edges that a waiting task will make. -/
def Task.planned (t : Task) : List StateT := { t with state := .accl }.ahead

/-- A task behind an edge that is not its last one. -/
def Task.edge (t : Task) : Task :=
  match t.state with
  | .accl => { t with
      accSteps := t.accSteps - 1
      state := if t.accSteps - 1 = 0 then .runn else t.state }
  | .runn => { t with
      runSteps := t.runSteps - 1
      state := if t.runSteps - 1 = 0 then .decl else .runn }
  | .decl => { t with decSteps := t.decSteps - 1 }
  | _ => t

/-- The next edge is the last one of the task. -/
def Task.AtEnd (t : Task) : Prop := t.state = .decl ∧ t.decSteps - 1 = 0

instance (t : Task) : Decidable t.AtEnd := inferInstanceAs (Decidable (_ ∧ _))

/-- The element of a buffer that the next edge reads is there. -/
def Readable (s : State) (p : Ptr) : Prop :=
  match (s.tasks p).state, (s.tasks p).buf with
  | .accl, some b => s.dev.accSteps.toNat < (s.bufs b).accBuf.length
  | .decl, some b => s.dev.decSteps.toNat < (s.bufs b).decBuf.length
  | _, _ => True

/-- The buffers stay under an edge of the task at `p`, and one index advances if it reads. -/
structure Advances (s : State) (p : Ptr) (s' : State) : Prop where
  bufs : s'.bufs = s.bufs
  accSteps : s'.dev.accSteps =
    if (s.tasks p).state = .accl ∧ (s.tasks p).buf.isSome then s.dev.accSteps + 1
    else s.dev.accSteps
  decSteps : s'.dev.decSteps =
    if (s.tasks p).state = .decl ∧ (s.tasks p).buf.isSome then s.dev.decSteps + 1
    else s.dev.decSteps

/-- `stepper_run` of a task. -/
def Task.started (t : Task) : Task := if t.state = .idle then { t with state := .accl } else t

/-- An edge has been made that is not the last one of the task at `p`. -/
structure Goes (s : State) (p : Ptr) (s' : State) : Prop where
  hasStop : s'.dev.hasStop = s.dev.hasStop
  prevState : s'.dev.prevState = 1
  advances : Advances s p s'
  nextTask : s'.dev.nextTask = s.dev.nextTask
  tasks : s'.tasks = Function.update s.tasks p (s.tasks p).edge

/-- The tasks behind the last edge of the task at `p`: it waits again, or hands over. -/
def handsOver (tasks : Ptr → Task) (p : Ptr) : Option Ptr → Ptr → Task
  | none => Function.update tasks p
      { tasks p with decSteps := (tasks p).decSteps - 1, state := .idle }
  | some q =>
    let tasks := Function.update tasks p { tasks p with decSteps := (tasks p).decSteps - 1 }
    Function.update tasks q (tasks q).started

/-- The last edge of the task at `p` has been made. -/
structure Finishes (s : State) (p : Ptr) (s' : State) : Prop where
  hasStop : s'.dev.hasStop = s.dev.hasStop
  prevState : s'.dev.prevState = 1
  advances : Advances s p s'
  nextTask : s'.dev.nextTask = ((s.tasks p).next <|> s.dev.nextTask)
  tasks : s'.tasks = handsOver s.tasks p (s.tasks p).next

variable {t : Task} {s s' : State} {p q : Ptr} {n : Stp} {calls : List Call}

/-! ## Pulses -/

theorem rises_of_levels (calls : List Call) : rises calls = (levels calls).count 1 := by
  induction calls with
  | nil => rfl
  | cons call calls ih =>
    unfold rises levels at ih ⊢
    cases call with
    | setStep high =>
      rw [List.count_cons, List.filterMap_cons, List.count_cons, ih]
      by_cases h : high = 1
      · rw [h]
        rfl
      · rw [if_neg (by simpa using h), if_neg (by simpa using h)]
    | setDuty duty =>
      rw [List.count_cons, List.filterMap_cons, ih]
      rfl
    | setDir d =>
      rw [List.count_cons, List.filterMap_cons, ih]
      rfl

theorem rises_of_silent (h : levels calls = []) : rises calls = 0 := by
  rw [rises_of_levels, h]
  rfl

theorem rises_of_one (h : levels calls = [1]) : rises calls = 1 := by
  rw [rises_of_levels, h]
  rfl

/-! ## Counters -/

theorem passes_of_pos (h : 1 ≤ n.toNat) : passes n = n.toNat := by
  unfold passes
  rw [toNat_pred h]
  omega

theorem passes_of_last (h : n - 1 = 0) : passes n = 1 := by
  unfold passes
  rw [h]
  rfl

theorem passes_of_more (h : n - 1 ≠ 0) : passes n = passes (n - 1) + 1 := by
  have hpos : 1 ≤ (n - 1).toNat := by
    apply Nat.pos_of_ne_zero
    intro hzero
    exact h (UInt16.toNat_inj.mp hzero)
  rw [passes_of_pos hpos]
  rfl

theorem replicate_last {x : StateT} (h : n - 1 = 0) : List.replicate (passes n) x = [x] := by
  rw [passes_of_last h]
  rfl

theorem replicate_more {x : StateT} (h : n - 1 ≠ 0) :
    List.replicate (passes n) x = x :: List.replicate (passes (n - 1)) x := by
  rw [passes_of_more h]
  rfl

/-! ## One edge of a task -/

theorem edge_accl (h : t.state = .accl) : t.edge = { t with
    accSteps := t.accSteps - 1
    state := if t.accSteps - 1 = 0 then .runn else t.state } := by
  unfold Task.edge
  rw [h]

theorem edge_runn (h : t.state = .runn) : t.edge = { t with
    runSteps := t.runSteps - 1
    state := if t.runSteps - 1 = 0 then .decl else .runn } := by
  unfold Task.edge
  rw [h]

theorem edge_decl (h : t.state = .decl) : t.edge = { t with decSteps := t.decSteps - 1 } := by
  unfold Task.edge
  rw [h]

theorem ahead_atEnd (h : t.AtEnd) : t.ahead = [.decl] := by
  obtain ⟨hst, hlast⟩ := h
  unfold Task.ahead
  rw [hst]
  exact replicate_last hlast

/-- An edge that is not the last one takes the first of the phases that are ahead. -/
theorem ahead_edge (hact : ¬t.state.Inactive) (hend : ¬t.AtEnd) :
    ¬t.edge.state.Inactive ∧ t.ahead = t.state :: t.edge.ahead := by
  unfold Task.ahead Task.edge
  cases hst : t.state with
  | accl =>
    dsimp only
    by_cases hlast : t.accSteps - 1 = 0
    · rw [if_pos hlast, replicate_last hlast]
      exact ⟨id, rfl⟩
    · rw [if_neg hlast, replicate_more hlast]
      exact ⟨id, rfl⟩
  | runn =>
    dsimp only
    by_cases hlast : t.runSteps - 1 = 0
    · rw [if_pos hlast, replicate_last hlast]
      exact ⟨id, rfl⟩
    · rw [if_neg hlast, replicate_more hlast]
      exact ⟨id, rfl⟩
  | decl =>
    have hmore : t.decSteps - 1 ≠ 0 := fun hlast => hend ⟨hst, hlast⟩
    dsimp only
    rw [replicate_more hmore]
    exact ⟨id, rfl⟩
  | idle | hold | done | stop =>
    rw [hst] at hact
    exact absurd trivial hact

theorem edge_next (t : Task) : t.edge.next = t.next ∧ t.edge.buf = t.buf := by
  unfold Task.edge
  cases t.state with
  | accl | runn | decl | idle | hold | done | stop => exact ⟨rfl, rfl⟩

theorem ahead_length_pos (h : ¬t.state.Inactive) : 1 ≤ t.ahead.length := by
  by_cases hend : t.AtEnd
  · rw [ahead_atEnd hend]
    exact Nat.le_refl 1
  · rw [(ahead_edge h hend).2]
    exact Nat.succ_pos _

theorem planned_length (t : Task) :
    t.planned.length = passes t.accSteps + passes t.runSteps + passes t.decSteps := by
  show (List.replicate _ _ ++ (List.replicate _ _ ++ List.replicate _ _)).length = _
  rw [List.length_append, List.length_append, List.length_replicate, List.length_replicate,
    List.length_replicate, Nat.add_assoc]

/-! ## One edge of the driver -/

theorem Advances.same {s'' : State} (h : Advances s p s') (h' : SameIndices s' s'') :
    Advances s p s'' :=
  ⟨h'.bufs.trans h.bufs, h'.accSteps.trans h.accSteps, h'.decSteps.trans h.decSteps⟩

theorem updateDuty_same (s : State) : SameIndices s (updateDuty s).2 := by
  unfold updateDuty
  split
  · exact ⟨rfl, rfl, rfl⟩
  · exact ⟨rfl, rfl, rfl⟩

/-- A task without buffers reads nothing. -/
theorem advances_of_buf (hbuf : (s.tasks p).buf = none) (h : SameIndices s s') :
    Advances s p s' := by
  refine ⟨h.bufs, h.accSteps.trans ?_, h.decSteps.trans ?_⟩
  · rw [hbuf]
    exact (if_neg fun h => Bool.false_ne_true h.2).symm
  · rw [hbuf]
    exact (if_neg fun h => Bool.false_ne_true h.2).symm

/-- The read of an accelerating edge. -/
theorem accDuty_reads (hst : (s.tasks p).state = .accl) (hread : Readable s p) (t : Task) :
    ∃ s₁, accDuty (s.setTask p t) (s.tasks p).buf = some s₁ ∧ Becomes s p t s₁ ∧
      Advances s p s₁ := by
  have hset := becomes_setTask s p t
  unfold Readable at hread
  rw [hst] at hread
  cases hbuf : (s.tasks p).buf with
  | none =>
    exact ⟨_, rfl, hset, advances_of_buf hbuf ⟨rfl, rfl, rfl⟩⟩
  | some b =>
    rw [hbuf] at hread
    have hduty : accDuty (s.setTask p t) (some b) = some { s.setTask p t with
        dev := { s.dev with
          curDuty := (s.bufs b).accBuf[s.dev.accSteps.toNat]
          accSteps := s.dev.accSteps + 1 } } := by
      unfold accDuty
      show ((s.bufs b).accBuf[s.dev.accSteps.toNat]?).bind _ = _
      rw [List.getElem?_eq_getElem hread]
      rfl
    refine ⟨_, hduty, hset.duty (accDuty_onlyDuty hduty), rfl, ?_, ?_⟩
    · rw [hst, hbuf]
      rfl
    · rw [hst]
      exact (if_neg fun h => by cases h.1).symm

/-- The read of a decelerating edge. -/
theorem decDuty_reads (hst : (s.tasks p).state = .decl) (hread : Readable s p) (t : Task) :
    ∃ s₁, decDuty (s.setTask p t) (s.tasks p).buf = some s₁ ∧ Becomes s p t s₁ ∧
      Advances s p s₁ := by
  have hset := becomes_setTask s p t
  unfold Readable at hread
  rw [hst] at hread
  cases hbuf : (s.tasks p).buf with
  | none =>
    exact ⟨_, rfl, hset, advances_of_buf hbuf ⟨rfl, rfl, rfl⟩⟩
  | some b =>
    rw [hbuf] at hread
    have hduty : decDuty (s.setTask p t) (some b) = some { s.setTask p t with
        dev := { s.dev with
          curDuty := (s.bufs b).decBuf[s.dev.decSteps.toNat]
          decSteps := s.dev.decSteps + 1 } } := by
      unfold decDuty
      show ((s.bufs b).decBuf[s.dev.decSteps.toNat]?).bind _ = _
      rw [List.getElem?_eq_getElem hread]
      rfl
    refine ⟨_, hduty, hset.duty (decDuty_onlyDuty hduty), rfl, ?_, ?_⟩
    · rw [hst]
      exact (if_neg fun h => by cases h.1).symm
    · rw [hst, hbuf]
      rfl

theorem acclEdge_reads (hst : (s.tasks p).state = .accl) (hread : Readable s p) :
    ∃ calls s', acclEdge s p = some (calls, s') ∧ motion calls = [] ∧
      Becomes s p (s.tasks p).edge s' ∧ Advances s p s' := by
  obtain ⟨s₁, hduty, -, hadvances⟩ := accDuty_reads hst hread
    { s.tasks p with accSteps := (s.tasks p).accSteps - 1 }
  have hedge : acclEdge s p = some (updateDuty
      (if (s.tasks p).accSteps - 1 = 0 then
        s₁.setTask p { s.tasks p with accSteps := (s.tasks p).accSteps - 1, state := .runn }
      else s₁)) := by
    unfold acclEdge
    dsimp only
    rw [hduty]
    rfl
  obtain ⟨hmotion, hbecomes⟩ := acclEdge_spec hedge
  refine ⟨_, _, hedge, hmotion, ?_, ?_⟩
  · rw [edge_accl hst]
    exact hbecomes
  · refine hadvances.same (SameIndices.trans ?_ (updateDuty_same _))
    split
    · exact ⟨rfl, rfl, rfl⟩
    · exact ⟨rfl, rfl, rfl⟩

theorem declEdge_reads (hst : (s.tasks p).state = .decl) (hmore : (s.tasks p).decSteps - 1 ≠ 0)
    (hread : Readable s p) :
    ∃ calls s', declEdge s p = some (calls, s') ∧ motion calls = [] ∧
      Becomes s p (s.tasks p).edge s' ∧ Advances s p s' := by
  obtain ⟨s₁, hduty, hbecomes, hadvances⟩ := decDuty_reads hst hread
    { s.tasks p with decSteps := (s.tasks p).decSteps - 1 }
  obtain ⟨hmotion, honly⟩ := updateDuty_spec s₁
  refine ⟨_, _, ?_, hmotion, ?_, hadvances.same (updateDuty_same s₁)⟩
  · unfold declEdge
    dsimp only
    rw [hduty, Option.bind_eq_bind, Option.bind_some, if_neg hmore]
    rfl
  · rw [edge_decl hst]
    exact hbecomes.duty honly

theorem runnEdge_advances (hst : (s.tasks p).state = .runn) : Advances s p (runnEdge s p).2 := by
  refine ⟨rfl, ?_, ?_⟩
  · rw [hst]
    exact (if_neg fun h => by cases h.1).symm
  · rw [hst]
    exact (if_neg fun h => by cases h.1).symm

/-- An edge that is not the last one of its task. -/
theorem edge_of_not_atEnd (hact : ¬(s.tasks p).state.Inactive) (hend : ¬(s.tasks p).AtEnd)
    (hread : Readable s p) :
    ∃ calls s', risingEdge s p = some (calls, s') ∧ motion calls = [] ∧
      Becomes s p (s.tasks p).edge s' ∧ Advances s p s' := by
  unfold risingEdge
  cases hst : (s.tasks p).state with
  | accl => exact acclEdge_reads hst hread
  | runn =>
    refine ⟨_, _, rfl, rfl, ?_, runnEdge_advances hst⟩
    rw [edge_runn hst]
    exact runnEdge_spec s p
  | decl => exact declEdge_reads hst (fun hlast => hend ⟨hst, hlast⟩) hread
  | idle | hold | done | stop =>
    rw [hst] at hact
    exact absurd trivial hact

/-- The last edge of a task, up to the start of the next one. -/
theorem edge_of_atEnd (hend : (s.tasks p).AtEnd) (hread : Readable s p) :
    ∃ s₁, Becomes s p { s.tasks p with decSteps := (s.tasks p).decSteps - 1 } s₁ ∧
      Advances s p s₁ ∧ risingEdge s p = (startNext s₁ p).bind fun r =>
        some (r.1 ++ (updateDuty r.2).1, (updateDuty r.2).2) := by
  obtain ⟨hst, hlast⟩ := hend
  obtain ⟨s₁, hduty, hbecomes, hadvances⟩ := decDuty_reads hst hread
    { s.tasks p with decSteps := (s.tasks p).decSteps - 1 }
  refine ⟨s₁, hbecomes, hadvances, ?_⟩
  unfold risingEdge
  rw [hst]
  dsimp only
  unfold declEdge
  dsimp only
  rw [hduty, Option.bind_eq_bind, Option.bind_some, if_pos hlast]
  rfl

theorem startNext_some (hnext : (s.tasks p).next = some q) :
    ∃ calls s', startNext s p = some (calls, s') ∧ levels calls = [] ∧ SameIndices s s' ∧
      s'.dev.hasStop = s.dev.hasStop ∧ s'.dev.prevState = s.dev.prevState ∧
      s'.dev.nextTask = some q ∧ s'.tasks = Function.update s.tasks q (s.tasks q).started := by
  unfold startNext stepperRun Task.started
  rw [hnext]
  dsimp only
  by_cases hidle : (s.tasks q).state = .idle
  · rw [if_neg (not_not.mpr hidle), if_pos hidle]
    refine ⟨_, _, rfl, ?_, ⟨rfl, rfl, rfl⟩, rfl, rfl, rfl, rfl⟩
    split
    · rfl
    · rfl
  · rw [if_pos hidle, if_neg hidle]
    exact ⟨_, _, rfl, rfl, ⟨rfl, rfl, rfl⟩, rfl, rfl, rfl, (Function.update_eq_self ..).symm⟩

theorem levels_of_motion (h : motion calls = []) : levels calls = [] := by
  rw [← levels_motion, h]
  rfl

/-- An edge that reads outside of a buffer is undefined. -/
theorem risingEdge_none (h : ¬Readable s p) : risingEdge s p = none := by
  unfold Readable at h
  unfold risingEdge
  split at h
  · rename_i b hst hbuf
    have hread : (s.bufs b).accBuf[s.dev.accSteps.toNat]? = none :=
      List.getElem?_eq_none (Nat.le_of_not_lt h)
    rw [hst]
    unfold acclEdge accDuty
    dsimp only
    rw [hbuf]
    show (((s.bufs b).accBuf[s.dev.accSteps.toNat]?).bind _).bind _ = none
    rw [hread]
    rfl
  · rename_i b hst hbuf
    have hread : (s.bufs b).decBuf[s.dev.decSteps.toNat]? = none :=
      List.getElem?_eq_none (Nat.le_of_not_lt h)
    rw [hst]
    unfold declEdge decDuty
    dsimp only
    rw [hbuf]
    show (((s.bufs b).decBuf[s.dev.decSteps.toNat]?).bind _).bind _ = none
    rw [hread]
    rfl
  · exact absurd trivial h

/-! ## Starting and handing over -/

theorem stepperRun_hasStop (h : stepperRun s = some (calls, s')) :
    s'.dev.hasStop = s.dev.hasStop := by
  obtain ⟨q, -, ⟨-, -, rfl⟩ | ⟨-, -, rfl⟩⟩ := stepperRun_cases h
  · rfl
  · rfl

theorem handsOver_none (tasks : Ptr → Task) (p : Ptr) : handsOver tasks p none p =
    { tasks p with decSteps := (tasks p).decSteps - 1, state := .idle } :=
  Function.update_self ..

theorem handsOver_self {tasks : Ptr → Task} (h : (tasks p).state = .decl) :
    handsOver tasks p (some p) p = { tasks p with decSteps := (tasks p).decSteps - 1 } := by
  unfold handsOver Task.started
  dsimp only
  rw [Function.update_self, Function.update_self, h]
  rfl

theorem goes_buf (h : Goes s p s') (q : Ptr) : (s'.tasks q).buf = (s.tasks q).buf := by
  rw [h.tasks]
  by_cases hq : q = p
  · rw [hq, Function.update_self]
    exact (edge_next _).2
  · rw [Function.update_of_ne hq]

theorem started_buf (t : Task) : t.started.buf = t.buf := by
  unfold Task.started
  split
  · rfl
  · rfl

theorem finishes_buf (h : Finishes s p s') (q : Ptr) : (s'.tasks q).buf = (s.tasks q).buf := by
  have hupdate : ∀ {tasks : Ptr → Task} {r : Ptr} {t : Task}, t.buf = (tasks r).buf →
      (Function.update tasks r t q).buf = (tasks q).buf := by
    intro tasks r t ht
    by_cases hq : q = r
    · rw [hq, Function.update_self, ht]
    · rw [Function.update_of_ne hq]
  rw [h.tasks]
  unfold handsOver
  cases (s.tasks p).next with
  | none => exact hupdate rfl
  | some r => exact (hupdate (started_buf _)).trans (hupdate rfl)

/-! ## One interrupt of the step timer -/

theorem isr1_goes (h : Runs p s) (hlow : s.dev.prevState = 0) (hend : ¬(s.tasks p).AtEnd)
    (hread : Readable s p) :
    ∃ calls s', stepperIsr1 s = some (calls, s') ∧ levels calls = [1] ∧ Goes s p s' := by
  obtain ⟨calls, s', hedge, hmotion, hbecomes, hadvances⟩ := edge_of_not_atEnd
    (s := { s with dev := { s.dev with prevState := 1 } }) h.2 hend hread
  rw [stepperIsr1_rise h hlow, hedge]
  refine ⟨_, _, rfl, ?_, hbecomes.hasStop, hbecomes.prevState, ?_, hbecomes.nextTask,
    hbecomes.tasks⟩
  · show 1 :: levels calls = [1]
    rw [levels_of_motion hmotion]
  · exact ⟨hadvances.bufs, hadvances.accSteps, hadvances.decSteps⟩

theorem isr1_finishes (h : Runs p s) (hlow : s.dev.prevState = 0) (hend : (s.tasks p).AtEnd)
    (hread : Readable s p) :
    ∃ calls s', stepperIsr1 s = some (calls, s') ∧ levels calls = [1] ∧ Finishes s p s' := by
  obtain ⟨s₁, hbecomes, hadvances, hedge⟩ := edge_of_atEnd
    (s := { s with dev := { s.dev with prevState := 1 } }) hend hread
  have hadvances₁ : Advances s p s₁ :=
    ⟨hadvances.bufs, hadvances.accSteps, hadvances.decSteps⟩
  rw [stepperIsr1_rise h hlow, hedge]
  cases hnext : (s.tasks p).next with
  | none =>
    have hstart : startNext s₁ p = some ([], s₁.setTask p { s₁.tasks p with state := .idle }) := by
      unfold startNext
      rw [hbecomes.task]
      dsimp only
      rw [hnext]
    have hsame := updateDuty_same (s₁.setTask p { s₁.tasks p with state := .idle })
    obtain ⟨hmotion, honly⟩ := updateDuty_spec (s₁.setTask p { s₁.tasks p with state := .idle })
    rw [hstart]
    refine ⟨_, _, rfl, ?_, honly.hasStop.trans hbecomes.hasStop,
      honly.prevState.trans hbecomes.prevState,
      hadvances₁.same ⟨hsame.bufs, hsame.accSteps, hsame.decSteps⟩, ?_, ?_⟩
    · show 1 :: levels (updateDuty _).1 = [1]
      rw [levels_of_motion hmotion]
    · rw [hnext]
      exact honly.nextTask.trans hbecomes.nextTask
    · rw [hnext, honly.tasks, hbecomes.task]
      exact (hbecomes.setTask _).tasks
  | some q =>
    have hnext₁ : (s₁.tasks p).next = some q := by
      rw [hbecomes.task]
      exact hnext
    obtain ⟨calls, s₂, hstart, hlevels, hsame, hstop, hprev, hhead, htasks⟩ :=
      startNext_some hnext₁
    obtain ⟨hmotion, honly⟩ := updateDuty_spec s₂
    rw [hstart]
    refine ⟨_, _, rfl, ?_, honly.hasStop.trans (hstop.trans hbecomes.hasStop),
      honly.prevState.trans (hprev.trans hbecomes.prevState),
      hadvances₁.same (hsame.trans (updateDuty_same _)), ?_, ?_⟩
    · show 1 :: levels (calls ++ (updateDuty s₂).1) = [1]
      have hduty := levels_of_motion hmotion
      unfold levels at hlevels hduty ⊢
      rw [List.filterMap_append, hlevels, hduty]
      rfl
    · rw [hnext]
      exact honly.nextTask.trans hhead
    · rw [hnext, honly.tasks, htasks, hbecomes.tasks]
      rfl

end MyLibraries.Stepper
