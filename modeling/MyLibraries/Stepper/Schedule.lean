import MyLibraries.Stepper.Edges

/-!
# The schedule of a queue

The edges of all tasks of a queue, each with its task and its phase, in the order in which
they are made. The interrupts take them off the front one by one, whatever buffers the tasks
have, as long as no edge reads outside of a buffer.
-/

namespace MyLibraries.Stepper

open Run

/-- The edges of the tasks that wait. -/
def waiting (tasks : Ptr → Task) (ps : List Ptr) : List (Ptr × StateT) :=
  ps.flatMap fun q => (tasks q).planned.map (Prod.mk q)

/-- The edges that are ahead of a queue at work, or behind its last edge. -/
inductive Ahead (s : State) : List (Ptr × StateT) → Prop
  | work {p : Ptr} {ps : List Ptr} : Runs p s → Linked s.tasks (s.tasks p).next ps →
      (∀ q ∈ ps, (s.tasks q).state = .idle) →
      Ahead s ((s.tasks p).ahead.map (Prod.mk p) ++ waiting s.tasks ps)
  | done {p : Ptr} : s.dev.nextTask = some p → (s.tasks p).state = .idle → Ahead s []

variable {s s' : State} {p : Ptr} {ps : List Ptr} {t : Task} {e : Ptr × StateT}
  {es : List (Ptr × StateT)} {tasks tasks' : Ptr → Task} {calls : List Call} {is : List Isr}

theorem waiting_cons (tasks : Ptr → Task) (q : Ptr) (ps : List Ptr) :
    waiting tasks (q :: ps) = (tasks q).planned.map (Prod.mk q) ++ waiting tasks ps :=
  List.flatMap_cons

theorem waiting_congr (h : ∀ q ∈ ps, tasks' q = tasks q) :
    waiting tasks' ps = waiting tasks ps := by
  induction ps with
  | nil => rfl
  | cons q ps ih =>
    rw [waiting_cons, waiting_cons, h q (List.mem_cons_self ..),
      ih fun r hr => h r (List.mem_cons_of_mem q hr)]

theorem ahead_congr (htasks : s'.tasks = s.tasks) (hnext : s'.dev.nextTask = s.dev.nextTask)
    (h : Ahead s es) : Ahead s' es := by
  cases h with
  | @work p ps hruns hlinked hidle =>
    rw [← htasks] at hlinked hidle ⊢
    refine .work ⟨hnext.trans hruns.1, ?_⟩ hlinked hidle
    rw [htasks]
    exact hruns.2
  | done hp hidle =>
    refine .done (hnext.trans hp) ?_
    rw [htasks]
    exact hidle

/-- A task outside of the queue that keeps its link leaves the queue as it is. -/
theorem linked_update (hnext : t.next = (tasks p).next) {x : Option Ptr}
    (h : Linked tasks x ps) : Linked (Function.update tasks p t) x ps := by
  apply (linked_congr fun q => ?_).mpr h
  by_cases hq : q = p
  · rw [hq, Function.update_self, hnext]
  · rw [Function.update_of_ne hq]

theorem update_of_not_mem (hp : p ∉ ps) {q : Ptr} (hq : q ∈ ps) :
    Function.update tasks p t q = tasks q := by
  apply Function.update_of_ne
  rintro rfl
  exact hp hq

/-! ## The first edge -/

/-- The first edge that is ahead is the one of the task at work, in its phase; the others are
those of that task and of the tasks that wait. -/
theorem ahead_cons (h : Ahead s (e :: es)) : Runs e.1 s ∧ (s.tasks e.1).state = e.2 ∧
    ∃ ps, Linked s.tasks (s.tasks e.1).next ps ∧ (∀ q ∈ ps, (s.tasks q).state = .idle) ∧
      e :: es = (s.tasks e.1).ahead.map (Prod.mk e.1) ++ waiting s.tasks ps := by
  generalize hes : e :: es = es' at h
  cases h with
  | done => cases hes
  | @work p ps hruns hlinked hidle =>
    have hfirst : p = e.1 ∧ (s.tasks p).state = e.2 := by
      by_cases hend : (s.tasks p).AtEnd
      · rw [ahead_atEnd hend] at hes
        obtain ⟨rfl, -⟩ := List.cons.inj hes
        exact ⟨rfl, hend.1⟩
      · rw [(ahead_edge hruns.2 hend).2] at hes
        obtain ⟨rfl, -⟩ := List.cons.inj hes
        exact ⟨rfl, rfl⟩
    obtain ⟨rfl, hstate⟩ := hfirst
    exact ⟨hruns, hstate, ps, hlinked, hidle, rfl⟩

theorem ahead_head (h : Ahead s (e :: es)) : Runs e.1 s ∧ (s.tasks e.1).state = e.2 :=
  ⟨(ahead_cons h).1, (ahead_cons h).2.1⟩

/-- What an edge takes is the first of what is ahead. -/
theorem ahead_goes (h : Ahead s (e :: es)) (hend : ¬(s.tasks e.1).AtEnd)
    (hgoes : Goes s e.1 s') : Ahead s' es := by
  obtain ⟨hruns, -, ps, hlinked, hidle, hes⟩ := ahead_cons h
  obtain ⟨hact, hahead⟩ := ahead_edge hruns.2 hend
  have hp := linked_not_mem hlinked
  have hnext := (edge_next (s.tasks e.1)).1
  have htask : s'.tasks e.1 = (s.tasks e.1).edge := by
    rw [hgoes.tasks, Function.update_self]
  rw [hahead] at hes
  obtain ⟨-, rfl⟩ := List.cons.inj hes
  have hwaiting : waiting s'.tasks ps = waiting s.tasks ps := by
    rw [hgoes.tasks]
    exact waiting_congr fun q hq => update_of_not_mem hp hq
  show Ahead s' ((s.tasks e.1).edge.ahead.map (Prod.mk e.1) ++ waiting s.tasks ps)
  rw [← hwaiting, ← htask]
  refine .work ⟨hgoes.nextTask.trans hruns.1, ?_⟩ ?_ fun q hq => ?_
  · rw [htask]
    exact hact
  · rw [htask, hnext, hgoes.tasks]
    exact linked_update hnext hlinked
  · rw [hgoes.tasks, update_of_not_mem hp hq]
    exact hidle q hq

/-- The next task of the queue starts, and another one, in front of it, is at rest. -/
theorem ahead_starts {q : Ptr} (hnextTask : s'.dev.nextTask = some q)
    (hlinked : Linked s.tasks (some q) (q :: ps)) (hp : p ∉ q :: ps)
    (hidle : ∀ r ∈ q :: ps, (s.tasks r).state = .idle) (hnext : t.next = (s.tasks p).next)
    (htasks : s'.tasks = Function.update (Function.update s.tasks p t) q
      { s.tasks q with state := .accl }) : Ahead s' (waiting s.tasks (q :: ps)) := by
  obtain ⟨-, hrest⟩ := hlinked
  have hq := linked_not_mem hrest
  have hne : q ≠ p := by
    rintro rfl
    exact hp (List.mem_cons_self ..)
  have htask : s'.tasks q = { s.tasks q with state := .accl } := by
    rw [htasks, Function.update_self]
  have hothers : ∀ r ∈ ps, s'.tasks r = s.tasks r := by
    intro r hr
    rw [htasks, update_of_not_mem hq hr,
      update_of_not_mem (fun h => hp (List.mem_cons_of_mem q h)) hr]
  have hplanned : (s'.tasks q).ahead = (s.tasks q).planned := by
    rw [htask]
    rfl
  rw [waiting_cons, ← waiting_congr hothers, ← hplanned]
  refine .work ⟨hnextTask, ?_⟩ ?_ fun r hr => ?_
  · rw [htask]
    exact id
  · rw [htask, htasks]
    refine linked_update ?_ (linked_update hnext hrest)
    rw [Function.update_of_ne hne]
  · rw [hothers r hr]
    exact hidle r (List.mem_cons_of_mem q hr)

theorem ahead_finishes (h : Ahead s (e :: es)) (hend : (s.tasks e.1).AtEnd)
    (hfin : Finishes s e.1 s') : Ahead s' es := by
  obtain ⟨hruns, -, ps, hlinked, hidle, hes⟩ := ahead_cons h
  rw [ahead_atEnd hend] at hes
  obtain ⟨-, rfl⟩ := List.cons.inj hes
  have hp := linked_not_mem hlinked
  have hnextTask := hfin.nextTask
  have htasks := hfin.tasks
  show Ahead s' (waiting s.tasks ps)
  cases hnext : (s.tasks e.1).next with
  | none =>
    rw [hnext] at hnextTask htasks hlinked
    cases ps with
    | cons q ps => exact absurd hlinked id
    | nil =>
      refine .done (hnextTask.trans hruns.1) ?_
      rw [htasks, handsOver_none]
  | some q =>
    rw [hnext] at hnextTask htasks hlinked
    cases ps with
    | nil => exact absurd hlinked id
    | cons r ps =>
      obtain rfl : q = r := hlinked.1
      apply ahead_starts hnextTask hlinked hp hidle
        (t := { s.tasks e.1 with decSteps := (s.tasks e.1).decSteps - 1 }) rfl
      rw [htasks]
      unfold handsOver Task.started
      dsimp only
      rw [Function.update_of_ne, if_pos (hidle q (List.mem_cons_self ..))]
      rintro rfl
      exact hp (List.mem_cons_self ..)

/-! ## One interrupt -/

theorem isr1_done (h : Ahead s []) : stepperIsr1 s = some ([], s) := by
  generalize hes : [] = es at h
  cases h with
  | done hp hidle =>
    apply stepperIsr1_idle hp
    rw [hidle]
    exact trivial
  | @work p ps hruns hlinked hidle =>
    have hpos := ahead_length_pos hruns.2
    have hlength := congrArg List.length hes
    rw [List.length_append, List.length_map] at hlength
    change 0 = _ at hlength
    omega

theorem isr1_falls (h : Ahead s (e :: es)) (hhigh : s.dev.prevState ≠ 0) :
    stepperIsr1 s = some ([.setStep 0], { s with dev := { s.dev with prevState := 0 } }) ∧
      Ahead { s with dev := { s.dev with prevState := 0 } } (e :: es) :=
  ⟨stepperIsr1_fall (ahead_head h).1 hhigh, ahead_congr (s := s) rfl rfl h⟩

/-- A rising edge that reads inside of the buffers. -/
theorem isr1_rises (h : Ahead s (e :: es)) (hlow : s.dev.prevState = 0)
    (hread : Readable s e.1) :
    ∃ calls s', stepperIsr1 s = some (calls, s') ∧ levels calls = [1] ∧ Ahead s' es ∧
      s'.dev.hasStop = s.dev.hasStop ∧ Advances s e.1 s' ∧
      ∀ q, (s'.tasks q).buf = (s.tasks q).buf := by
  have hruns := (ahead_head h).1
  by_cases hend : (s.tasks e.1).AtEnd
  · obtain ⟨calls, s', hisr, hlevels, hfin⟩ := isr1_finishes hruns hlow hend hread
    exact ⟨calls, s', hisr, hlevels, ahead_finishes h hend hfin, hfin.hasStop, hfin.advances,
      finishes_buf hfin⟩
  · obtain ⟨calls, s', hisr, hlevels, hgoes⟩ := isr1_goes hruns hlow hend hread
    exact ⟨calls, s', hisr, hlevels, ahead_goes h hend hgoes, hgoes.hasStop, hgoes.advances,
      goes_buf hgoes⟩

theorem isr1_unreadable (h : Runs p s) (hlow : s.dev.prevState = 0) (hread : ¬Readable s p) :
    stepperIsr1 s = none := by
  rw [stepperIsr1_rise h hlow, risingEdge_none]
  · rfl
  · exact hread

/-- `stepper_run` starts the first task of a queue that waits. -/
theorem ahead_start (hlinked : Linked s.tasks s.dev.nextTask ps)
    (hidle : ∀ p ∈ ps, (s.tasks p).state = .idle) (hrun : stepperRun s = some (calls, s')) :
    Ahead s' (waiting s.tasks ps) ∧ levels calls = [] := by
  obtain ⟨p, hp, hcases⟩ := stepperRun_cases hrun
  rw [hp] at hlinked
  cases ps with
  | nil => exact absurd hlinked id
  | cons q ps =>
    obtain ⟨rfl, hrest⟩ := hlinked
    have hnot := linked_not_mem hrest
    rcases hcases with ⟨hbusy, -, -⟩ | ⟨-, rfl, rfl⟩
    · exact absurd (hidle p (List.mem_cons_self ..)) hbusy
    · refine ⟨?_, ?_⟩
      · have hplanned : ((s.setTask p { s.tasks p with state := .accl }).tasks p).ahead =
            (s.tasks p).planned := by
          rw [setTask_self]
          rfl
        have hothers : ∀ r ∈ ps,
            (s.setTask p { s.tasks p with state := .accl }).tasks r = s.tasks r :=
          fun r hr => update_of_not_mem hnot hr
        rw [waiting_cons, ← waiting_congr hothers, ← hplanned]
        refine .work ⟨hp, ?_⟩ ?_ fun r hr => ?_
        · rw [setTask_self]
          exact id
        · rw [setTask_self]
          exact linked_update (t := { s.tasks p with state := .accl }) rfl hrest
        · rw [hothers r hr]
          exact hidle r (List.mem_cons_of_mem p hr)
      · split
        · rfl
        · rfl

end MyLibraries.Stepper
