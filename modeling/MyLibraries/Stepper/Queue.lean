import MyLibraries.Stepper.Calls

/-!
# What lies in the queue

`stepper_add_task` links an accepted task behind the last one, and never writes the link of
the task itself. The queue is what was added exactly as long as the links of the tasks are
null pointers before they are added.
-/

namespace MyLibraries.Stepper

open Run

/-- The calls that change what lies in the queue. -/
inductive Edit
  | add (a : Add)
  | clean
  deriving DecidableEq, Repr

/-- A call, with the list of the tasks that were accepted since the last clean. The result
is what the call returns, zero for a clean. -/
def edit {δ : Type} (ar : Arith δ) (fuel : Nat) (x : State × List Ptr) :
    Edit → Option (Stp × State × List Ptr)
  | .add a => (a.call ar fuel x.1).map fun (r, s) =>
    (r, s, if r ≠ 0 then x.2 ++ [a.task] else x.2)
  | .clean => some (0, stepperCleanTasks x.1, [])

/-- What is reached from `next_task` is what was accepted, in the order of the calls. -/
def Exact (x : State × List Ptr) : Prop := Linked x.1.tasks x.1.dev.nextTask x.2

/-- A task is not added while it is queued. -/
def Distinct (x : State × List Ptr) : Edit → Prop
  | .add a => a.task ∉ x.2
  | .clean => True

/-- The link of a task that will be accepted is a null pointer before the call. -/
def EndsAtTask {δ : Type} (ar : Arith δ) (x : State × List Ptr) : Edit → Prop
  | .add a => a.accepted ar = true → (x.1.tasks a.task).next = none
  | .clean => True

instance decidableLinked (tasks : Ptr → Task) :
    (x : Option Ptr) → (ps : List Ptr) → Decidable (Linked tasks x ps)
  | none, [] => .isTrue trivial
  | none, _ :: _ => .isFalse id
  | some _, [] => .isFalse id
  | some p, q :: ps =>
    have := decidableLinked tasks (tasks p).next ps
    inferInstanceAs (Decidable (p = q ∧ Linked tasks (tasks p).next ps))

instance (x : State × List Ptr) : Decidable (Exact x) :=
  inferInstanceAs (Decidable (Linked _ _ _))

instance (x : State × List Ptr) : (e : Edit) → Decidable (Distinct x e)
  | .add a => inferInstanceAs (Decidable (a.task ∉ x.2))
  | .clean => inferInstanceAs (Decidable True)

instance {δ : Type} (ar : Arith δ) (x : State × List Ptr) :
    (e : Edit) → Decidable (EndsAtTask ar x e)
  | .add a => inferInstanceAs (Decidable (a.accepted ar = true → (x.1.tasks a.task).next = none))
  | .clean => inferInstanceAs (Decidable True)

variable {δ : Type} {ar : Arith δ} {fuel : Nat} {s s' : State} {x x' : State × List Ptr}
  {a : Add} {r : Stp} {p q last : Ptr} {ps : List Ptr} {tasks tasks' : Ptr → Task} {e : Edit}

/-! ## The end of a queue -/

/-- The search from the head of a queue ends at its last task. -/
theorem lastTask_linked (h : Linked tasks (some q) ps) (hlast : lastTask tasks fuel q = some last) :
    ∃ front, ps = front ++ [last] := by
  induction fuel generalizing q ps with
  | zero => cases hlast
  | succ fuel ih =>
    cases ps with
    | nil => exact absurd h id
    | cons p ps =>
      obtain ⟨rfl, hrest⟩ := h
      unfold lastTask at hlast
      cases hnext : (tasks q).next with
      | none =>
        rw [hnext] at hlast hrest
        cases hlast
        cases ps with
        | nil => exact ⟨[], rfl⟩
        | cons r ps => exact absurd hrest id
      | some r =>
        rw [hnext] at hlast hrest
        obtain ⟨front, rfl⟩ := ih hrest hlast
        exact ⟨q :: front, rfl⟩

/-- The list goes on behind its last task when that one is linked to another one. -/
theorem linked_behind {front : List Ptr} {x : Option Ptr}
    (h : Linked tasks x (front ++ [last])) (hp : p ∉ front ++ [last])
    (hnext : ∀ q, (tasks' q).next = if q = last then some p else (tasks q).next) :
    Linked tasks' x (front ++ [last] ++ [p]) ↔ (tasks p).next = none := by
  induction front generalizing x with
  | nil =>
    cases x with
    | none => exact absurd h id
    | some r =>
      obtain ⟨rfl, -⟩ := h
      have hne : p ≠ r := fun h => hp (h ▸ List.mem_singleton_self r)
      show r = r ∧ Linked tasks' (tasks' r).next [p] ↔ _
      rw [hnext r, if_pos rfl]
      show r = r ∧ p = p ∧ Linked tasks' (tasks' p).next [] ↔ _
      rw [hnext p, if_neg hne]
      cases (tasks p).next with
      | none => exact iff_of_true ⟨rfl, rfl, trivial⟩ rfl
      | some q => exact iff_of_false (fun h => h.2.2) (fun h => Option.some_ne_none q h)
  | cons f front ih =>
    cases x with
    | none => exact absurd h id
    | some r =>
      obtain ⟨rfl, hrest⟩ := h
      have hne : r ≠ last := by
        rintro rfl
        exact linked_not_mem hrest (List.mem_append_right _ (List.mem_singleton_self r))
      show r = r ∧ Linked tasks' (tasks' r).next (front ++ [last] ++ [p]) ↔ _
      rw [hnext r, if_neg hne, ih hrest fun hmem => hp (List.mem_cons_of_mem r hmem)]
      exact and_iff_right rfl

/-! ## One call -/

/-- A task that is refused changes nothing of the queue. -/
theorem exact_refused (h : Refused a s s') :
    Linked s'.tasks s'.dev.nextTask ps ↔ Linked s.tasks s.dev.nextTask ps := by
  rw [h.dev]
  apply linked_congr
  intro q
  by_cases hq : q = a.task
  · rw [hq, h.next]
  · rw [h.others q hq]

/-- A task that is accepted ends the queue exactly when its link is a null pointer. -/
theorem exact_appended (hps : Linked s.tasks s.dev.nextTask ps) (hp : p ∉ ps)
    (h : Behind fuel s p s') :
    Linked s'.tasks s'.dev.nextTask (ps ++ [p]) ↔ (s.tasks p).next = none := by
  unfold Behind at h
  cases hhead : s.dev.nextTask with
  | none =>
    rw [hhead] at h hps
    obtain ⟨hhead', hnext⟩ := h
    cases ps with
    | cons q ps => exact absurd hps id
    | nil =>
      rw [hhead', ← hnext p]
      show p = p ∧ Linked s'.tasks (s'.tasks p).next [] ↔ _
      cases (s'.tasks p).next with
      | none => exact iff_of_true ⟨rfl, trivial⟩ rfl
      | some q => exact iff_of_false (fun h => h.2) (fun h => Option.some_ne_none q h)
  | some q =>
    rw [hhead] at h hps
    obtain ⟨hhead', last, hlast, hnext⟩ := h
    obtain ⟨front, rfl⟩ := lastTask_linked hps hlast
    rw [hhead']
    exact linked_behind hps hp hnext

/-- After a call the queue is what was added exactly when the call ends it at its task. -/
theorem edit_exact (hx : Exact x) (hdistinct : Distinct x e)
    (h : edit ar fuel x e = some (r, x')) : Exact x' ↔ EndsAtTask ar x e := by
  cases e with
  | clean =>
    cases h
    exact iff_of_true trivial trivial
  | add a =>
    obtain ⟨⟨r', s'⟩, hcall, heq⟩ := Option.map_eq_some_iff.mp h
    cases heq
    rcases Add.call_cases hcall with ⟨hacc, rfl, href⟩ | ⟨hacc, hr, happ⟩
    · refine iff_of_true ?_ fun h => absurd (hacc.symm.trans h) Bool.false_ne_true
      exact (exact_refused href).mpr hx
    · show Linked s'.tasks s'.dev.nextTask (if r ≠ 0 then x.2 ++ [a.task] else x.2) ↔ _
      rw [if_pos hr, exact_appended hx hdistinct happ.behind]
      exact ⟨fun h _ => h, fun h => h hacc⟩

/-! ## Runs -/

/-- **The queue is what was added**, in every state of a run from an empty queue, exactly
when the link of each task that is accepted is a null pointer before the call. -/
theorem exact_iff (hempty : s.dev.nextTask = none) {edits : List Edit} {rs : List Stp}
    (hdistinct : AlongRun (edit ar fuel) Distinct (s, []) edits)
    (hrun : run (edit ar fuel) (s, []) edits = some (rs, x')) :
    Throughout (edit ar fuel) Exact (s, []) edits ↔
      AlongRun (edit ar fuel) (EndsAtTask ar) (s, []) edits := by
  have hstart : Exact (s, []) := by
    show Linked s.tasks s.dev.nextTask []
    rw [hempty]
    exact trivial
  exact throughout_iff_alongRun (fun _ _ _ _ hx hd h => edit_exact hx hd h) hstart hdistinct hrun

/-- An empty queue, and memory of tasks that is filled with zeros. -/
def blank : State where
  dev := ⟨true, false, 0, 0, 0, 0, 0, none, 0, 1000⟩
  tasks _ := ⟨0, 0, 0, 0, 0, 0, 0, .accl, none, none⟩
  bufs _ := ⟨[], [], 0, 0⟩

/-- The task at `p` with 100 steps, 5 for each ramp. -/
def hundred (p : Ptr) : Add := ⟨p, 100, 10, 10, 10, 0, none⟩

/-- Each task is accepted, the third one into a queue that was cleaned. -/
theorem exact_fresh_task : ∃ rs x',
    run (edit double 8) (blank, []) [.add (hundred 0), .add (hundred 1), .clean, .add (hundred 2)] =
        some (rs, x') ∧
      Throughout (edit double 8) Exact (blank, [])
        [.add (hundred 0), .add (hundred 1), .clean, .add (hundred 2)] := by
  have h : (run (edit double 8) (blank, [])
      [.add (hundred 0), .add (hundred 1), .clean, .add (hundred 2)]).isSome := by
    decide +kernel
  obtain ⟨⟨rs, x'⟩, hrun⟩ := Option.isSome_iff_exists.mp h
  refine ⟨rs, x', hrun, (exact_iff rfl ?_ hrun).mpr ?_⟩
  · decide +kernel
  · decide +kernel

/-- The task that is added again still points to the one that was left over. -/
theorem left_over_reached : ∃ rs x',
    run (edit double 8) (blank, []) [.add (hundred 0), .add (hundred 1), .clean, .add (hundred 0)] =
        some (rs, x') ∧
      AlongRun (edit double 8) Distinct (blank, [])
        [.add (hundred 0), .add (hundred 1), .clean, .add (hundred 0)] ∧
      x'.2 = [0] ∧ Linked x'.1.tasks x'.1.dev.nextTask [0, 1] ∧ ¬Exact x' := by
  have h : (run (edit double 8) (blank, [])
      [.add (hundred 0), .add (hundred 1), .clean, .add (hundred 0)]).any fun r =>
        r.2.2 = [0] ∧ Linked r.2.1.tasks r.2.1.dev.nextTask [0, 1] := by
    decide +kernel
  obtain ⟨⟨rs, x'⟩, hrun, hend⟩ := (Option.any_eq_true _ _).mp h
  obtain ⟨haccepted, hreached⟩ := of_decide_eq_true hend
  refine ⟨rs, x', hrun, ?_, haccepted, hreached, fun hexact => ?_⟩
  · decide +kernel
  · unfold Exact at hexact
    rw [haccepted] at hexact
    cases linked_unique hexact hreached

end MyLibraries.Stepper
