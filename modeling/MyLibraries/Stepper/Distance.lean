import Mathlib.Data.Rat.Floor
import MyLibraries.Stepper.Edges
import MyLibraries.Stepper.Queue

/-!
# The distance of one task

A task moves its distance when it makes as many edges as steps were asked for. In exact
arithmetic it is known which tasks do: a ramp of no steps takes as many edges as its counter
has values, and a task that is linked to itself never ends.
-/

namespace MyLibraries.Stepper

open Run

/-- Exact arithmetic. A quotient by zero has no value; `z` is what its conversion to `stp_t`
yields. -/
def rational (z : Option Stp) : Arith (Option ℚ) where
  ofStp x := some x.toNat
  add x y := x.bind fun x => y.map fun y => x + y
  sub x y := x.bind fun x => y.map fun y => x - y
  mul x y := x.bind fun x => y.map fun y => x * y
  div x y := x.bind fun x => y.bind fun y => if y = 0 then none else some (x / y)
  toStp
    | none => z
    | some x => if -1 < x ∧ x < 65536 then some (UInt16.ofNat ⌊x⌋.toNat) else none

/-- The task at `p`, which is at work, moves `steps` edges, however the interrupts come. -/
structure Moves (p : Ptr) (steps : Nat) (s : State) : Prop where
  returns : ∀ is, AlongRun isr (fun s _ => Runs p s) s is → ∃ r, run isr s is = some r
  ends : ∃ n, ∀ is, AlongRun isr (fun s _ => Runs p s) s is → is.count .isr1 ≤ n
  rises_eq : ∀ is calls s', AlongRun isr (fun s _ => Runs p s) s is →
    run isr s is = some (calls, s') → ¬Runs p s' → rises calls.flatten = steps

/-- The task at `p` is at work, linked to `x`; it has no buffer and nothing stops it. -/
structure Moving (p : Ptr) (x : Option Ptr) (s : State) : Prop where
  runs : Runs p s
  buf : (s.tasks p).buf = none
  next : (s.tasks p).next = x
  hasStop : s.dev.hasStop = false

/-- The edges of the task at `p` that are left. -/
def State.edges (s : State) (p : Ptr) : Nat := (s.tasks p).ahead.length

/-- The interrupts of the step timer that are left for the task at `p`. -/
def State.ticks (s : State) (p : Ptr) : Nat :=
  2 * s.edges p - if s.dev.prevState = 0 then 1 else 0

variable {p q : Ptr} {x : Option Ptr} {s s' : State} {calls : List Call} {n : Nat}
  {is : List Isr} {i : Isr}

/-! ## One interrupt -/

theorem Moving.edges_pos (h : Moving p x s) : 1 ≤ s.edges p := ahead_length_pos h.runs.2

theorem readable_of_buf (h : (s.tasks p).buf = none) : Readable s p := by
  unfold Readable
  rw [h]
  split
  · cases ‹none = some _›
  · cases ‹none = some _›
  · trivial

/-- The task goes on, with the edges that have been made taken from those that are left. -/
structure GoesOn (p : Ptr) (x : Option Ptr) (s : State) (i : Isr) (rises : Nat) (s' : State) :
    Prop where
  moving : Moving p x s'
  edges : rises + s'.edges p = s.edges p
  ticks : s'.ticks p + (if i = .isr1 then 1 else 0) = s.ticks p

theorem moving_isr2 (h : Moving p x s) (answer : Stp) :
    GoesOn p x s (.isr2 answer) 0 (stepperIsr2 s answer) := by
  obtain ⟨htasks, hkeeps⟩ := stepperIsr2_spec h.hasStop answer
  have hedges : (stepperIsr2 s answer).edges p = s.edges p := by
    unfold State.edges
    rw [htasks]
  refine ⟨⟨⟨hkeeps.nextTask.trans h.runs.1, ?_⟩, ?_, ?_, hkeeps.hasStop.trans h.hasStop⟩, ?_, ?_⟩
  · rw [htasks]
    exact h.runs.2
  · rw [htasks]
    exact h.buf
  · rw [htasks]
    exact h.next
  · rw [hedges, Nat.zero_add]
  · unfold State.ticks
    rw [hedges, hkeeps.prevState]
    rfl

theorem moving_fall (h : Moving p x s) (hhigh : s.dev.prevState ≠ 0) :
    ∃ calls s', stepperIsr1 s = some (calls, s') ∧ GoesOn p x s .isr1 (rises calls) s' := by
  have hpos := h.edges_pos
  refine ⟨_, _, stepperIsr1_fall h.runs hhigh, ⟨h.runs, h.buf, h.next, h.hasStop⟩, ?_, ?_⟩
  · exact Nat.zero_add _
  · unfold State.ticks
    rw [if_neg hhigh]
    show 2 * s.edges p - 1 + 1 = 2 * s.edges p - 0
    omega

theorem moving_rise (h : Moving p x s) (hlow : s.dev.prevState = 0)
    (hend : ¬(s.tasks p).AtEnd) :
    ∃ calls s', stepperIsr1 s = some (calls, s') ∧ GoesOn p x s .isr1 (rises calls) s' := by
  obtain ⟨calls, s', hisr, hlevels, hgoes⟩ :=
    isr1_goes h.runs hlow hend (readable_of_buf h.buf)
  obtain ⟨hact, hahead⟩ := ahead_edge h.runs.2 hend
  obtain ⟨hnext, hbuf⟩ := edge_next (s.tasks p)
  have htask : s'.tasks p = (s.tasks p).edge := by rw [hgoes.tasks, Function.update_self]
  have hrises := rises_of_one hlevels
  have hedges : s.edges p = s'.edges p + 1 := by
    unfold State.edges
    rw [hahead, htask, List.length_cons]
  refine ⟨calls, s', hisr, ⟨⟨hgoes.nextTask.trans h.runs.1, ?_⟩, ?_, ?_, ?_⟩, ?_, ?_⟩
  · rw [htask]
    exact hact
  · rw [htask, hbuf, h.buf]
  · rw [htask, hnext, h.next]
  · exact hgoes.hasStop.trans h.hasStop
  · omega
  · have hprev : s'.dev.prevState ≠ 0 := by
      rw [hgoes.prevState]
      decide
    unfold State.ticks
    rw [if_pos hlow, if_neg hprev, if_pos rfl]
    omega

/-- Behind its last edge a task is no more at work, if it is not linked to itself. -/
theorem moving_end (h : Moving p x s) (hlow : s.dev.prevState = 0) (hend : (s.tasks p).AtEnd) :
    ∃ calls s', stepperIsr1 s = some (calls, s') ∧
      (x ≠ some p → ¬Runs p s' ∧ rises calls = s.edges p) ∧ (x = some p → Moving p x s') := by
  obtain ⟨calls, s', hisr, hlevels, hfin⟩ :=
    isr1_finishes h.runs hlow hend (readable_of_buf h.buf)
  have hhead := hfin.nextTask
  have htasks := hfin.tasks
  rw [h.next] at hhead htasks
  have hrises : rises calls = s.edges p := by
    unfold State.edges
    rw [rises_of_one hlevels, ahead_atEnd hend]
    rfl
  refine ⟨calls, s', hisr, fun hx => ⟨fun hruns => ?_, hrises⟩, fun hx => ?_⟩
  · cases x with
    | none =>
      have hact := hruns.2
      rw [htasks, handsOver_none] at hact
      exact hact trivial
    | some q =>
      have hq : some q = some p := hhead.symm.trans hruns.1
      exact hx hq
  · subst hx
    have hdecl := hend.1
    have htask : s'.tasks p = { s.tasks p with decSteps := (s.tasks p).decSteps - 1 } := by
      rw [htasks]
      exact handsOver_self hdecl
    refine ⟨⟨hhead, ?_⟩, ?_, ?_, hfin.hasStop.trans h.hasStop⟩
    · rw [htask, hdecl]
      exact id
    · rw [htask]
      exact h.buf
    · rw [htask]
      exact h.next

/-- An interrupt while the task is at work. -/
theorem moving_step (h : Moving p x s) (hx : x ≠ some p) (i : Isr) :
    ∃ calls s', isr s i = some (calls, s') ∧
      (GoesOn p x s i (rises calls) s' ∨
        i = .isr1 ∧ ¬Runs p s' ∧ rises calls = s.edges p) := by
  cases i with
  | isr2 answer => exact ⟨[], _, rfl, .inl (moving_isr2 h answer)⟩
  | isr1 =>
    by_cases hlow : s.dev.prevState = 0
    · by_cases hend : (s.tasks p).AtEnd
      · obtain ⟨calls, s', hisr, hdone, -⟩ := moving_end h hlow hend
        exact ⟨calls, s', hisr, .inr ⟨rfl, hdone hx⟩⟩
      · obtain ⟨calls, s', hisr, hgoes⟩ := moving_rise h hlow hend
        exact ⟨calls, s', hisr, .inl hgoes⟩
    · obtain ⟨calls, s', hisr, hgoes⟩ := moving_fall h hlow
      exact ⟨calls, s', hisr, .inl hgoes⟩

theorem Moving.ticks_pos (h : Moving p x s) : 1 ≤ s.ticks p := by
  have hpos := h.edges_pos
  unfold State.ticks
  split
  · omega
  · omega

/-! ## Runs -/

/-- A run in which the task is at work at every interrupt. -/
theorem moving_run (h : Moving p x s) (hx : x ≠ some p)
    (hruns : AlongRun isr (fun s _ => Runs p s) s is) :
    ∃ calls s', run isr s is = some (calls, s') ∧ is.count .isr1 ≤ s.ticks p ∧
      (¬Runs p s' → rises calls.flatten = s.edges p) := by
  induction is generalizing s with
  | nil => exact ⟨[], s, rfl, Nat.zero_le _, fun hend => absurd h.runs hend⟩
  | cons i is ih =>
    obtain ⟨calls, s₁, hisr, hstep⟩ := moving_step h hx i
    have hruns₁ := hruns.2 calls s₁ hisr
    rw [run_cons, hisr, Option.bind_some]
    rcases hstep with hgoes | ⟨rfl, hend, hrises⟩
    · obtain ⟨calls', s', hrun, hcount, hfinal⟩ := ih hgoes.moving hruns₁
      rw [hrun]
      refine ⟨_, s', rfl, ?_, fun hend => ?_⟩
      · have hticks := hgoes.ticks
        rw [List.count_cons]
        simp only [beq_iff_eq]
        omega
      · rw [List.flatten_cons, rises_append, hfinal hend]
        exact hgoes.edges
    · cases is with
      | cons j is => exact absurd hruns₁.1 hend
      | nil =>
        refine ⟨_, s₁, rfl, h.ticks_pos, fun _ => ?_⟩
        rw [List.flatten_cons, rises_append, hrises]
        rfl

/-- The end of the task is reached by interrupts of the step timer. -/
theorem moving_ends (hx : x ≠ some p) (hn : s.ticks p ≤ n) (h : Moving p x s) :
    ∃ is calls s', AlongRun isr (fun s _ => Runs p s) s is ∧
      run isr s is = some (calls, s') ∧ ¬Runs p s' := by
  induction n generalizing s with
  | zero =>
    have := h.ticks_pos
    omega
  | succ n ih =>
    obtain ⟨calls, s₁, hisr, hstep⟩ := moving_step h hx .isr1
    rcases hstep with hgoes | ⟨-, hend, -⟩
    · have hticks := hgoes.ticks
      rw [if_pos rfl] at hticks
      obtain ⟨is, calls', s', hruns, hrun, hend⟩ := ih (by omega) hgoes.moving
      refine ⟨.isr1 :: is, calls :: calls', s', (alongRun_cons hisr).mpr ⟨h.runs, hruns⟩, ?_, hend⟩
      rw [run_cons, show isr s .isr1 = some (calls, s₁) from hisr, Option.bind_some, hrun,
        Option.bind_some]
    · refine ⟨[.isr1], [calls], s₁, (alongRun_cons hisr).mpr ⟨h.runs, trivial⟩, ?_, hend⟩
      rw [run_cons, show isr s .isr1 = some (calls, s₁) from hisr, Option.bind_some]
      rfl

/-- A task that is linked to itself stays at work. -/
theorem moving_forever (h : Moving p (some p) s) (n : Nat) :
    AlongRun isr (fun s _ => Runs p s) s (List.replicate n .isr1) := by
  induction n generalizing s with
  | zero => trivial
  | succ n ih =>
    have hstep : ∃ calls s', isr s .isr1 = some (calls, s') ∧ Moving p (some p) s' := by
      by_cases hlow : s.dev.prevState = 0
      · by_cases hend : (s.tasks p).AtEnd
        · obtain ⟨calls, s', hisr, -, hself⟩ := moving_end h hlow hend
          exact ⟨calls, s', hisr, hself rfl⟩
        · obtain ⟨calls, s', hisr, hgoes⟩ := moving_rise h hlow hend
          exact ⟨calls, s', hisr, hgoes.moving⟩
      · obtain ⟨calls, s', hisr, hgoes⟩ := moving_fall h hlow
        exact ⟨calls, s', hisr, hgoes.moving⟩
    obtain ⟨calls, s', hisr, hmoving⟩ := hstep
    exact (alongRun_cons hisr).mpr ⟨h.runs, ih hmoving⟩

/-- The distance of a task at work is the number of the edges that are left. -/
theorem moves_iff_edges (h : Moving p x s) :
    Moves p n s ↔ s.edges p = n ∧ x ≠ some p := by
  constructor
  · intro hmoves
    have hx : x ≠ some p := by
      rintro rfl
      obtain ⟨n, hn⟩ := hmoves.ends
      have hle := hn _ (moving_forever h (n + 1))
      rw [List.count_replicate_self] at hle
      omega
    obtain ⟨is, calls, s', hruns, hrun, hend⟩ := moving_ends hx (Nat.le_refl _) h
    obtain ⟨calls', s'', hrun', -, hrises⟩ := moving_run h hx hruns
    cases hrun.symm.trans hrun'
    exact ⟨(hrises hend).symm.trans (hmoves.rises_eq is calls s' hruns hrun hend), hx⟩
  · rintro ⟨rfl, hx⟩
    constructor
    · intro is hruns
      obtain ⟨calls, s', hrun, -⟩ := moving_run h hx hruns
      exact ⟨_, hrun⟩
    · refine ⟨s.ticks p, fun is hruns => ?_⟩
      obtain ⟨calls, s', hrun, hcount, -⟩ := moving_run h hx hruns
      exact hcount
    · intro is calls s' hruns hrun hend
      obtain ⟨calls', s'', hrun', -, hrises⟩ := moving_run h hx hruns
      cases hrun.symm.trans hrun'
      exact hrises hend

/-! ## The profiles -/

theorem rational_toStp {n d : Nat} {z : Option Stp} {y : Stp}
    (h : (rational z).toStp (some ((n : ℚ) / d)) = some y) : y.toNat = n / d := by
  change (if -1 < (n : ℚ) / d ∧ (n : ℚ) / d < 65536 then
    some (UInt16.ofNat ⌊(n : ℚ) / d⌋.toNat) else none) = some y at h
  split at h
  · rename_i hrange
    have hfloor : ⌊(n : ℚ) / d⌋.toNat = n / d := by
      rw [Rat.floor_natCast_div_natCast]
      rfl
    have hlt : n / d < 65536 := by
      rw [← hfloor]
      have hle : ⌊(n : ℚ) / d⌋ < 65536 := Int.floor_lt.mpr hrange.2
      omega
    rw [hfloor] at h
    rw [← Option.some.inj h]
    exact UInt16.toNat_ofNat_of_lt hlt
  · cases h

/-- In exact arithmetic it is known which ramps have a step. -/
theorem rational_profile {z : Option Stp} {speed rate steps delta : Stp} (hrate : 1 ≤ rate.toNat)
    (h : profile (rational z) speed rate = some (steps, delta)) :
    1 ≤ steps.toNat ↔ 2 * rate.toNat ≤ speed.toNat ^ 2 := by
  obtain ⟨n, hn, hdelta⟩ := Option.bind_eq_some_iff.mp h
  obtain ⟨delta', -, heq⟩ := Option.bind_eq_some_iff.mp hdelta
  have hsteps : n >>> 1 = steps := congrArg Prod.fst (Option.some.inj heq)
  have hne : (rate.toNat : ℚ) ≠ 0 := by
    rw [Nat.cast_ne_zero]
    omega
  have hquot : (rational z).div (some (speed.toNat : ℚ)) (some (rate.toNat : ℚ)) =
      some ((speed.toNat : ℚ) / rate.toNat) := if_neg hne
  have hsquare : (speed.toNat : ℚ) / rate.toNat * (speed.toNat / rate.toNat) * rate.toNat =
      ((speed.toNat ^ 2 : Nat) : ℚ) / rate.toNat := by
    push_cast
    field_simp
  change (rational z).toStp ((rational z).mul ((rational z).mul
    ((rational z).div (some (speed.toNat : ℚ)) (some (rate.toNat : ℚ)))
    ((rational z).div (some (speed.toNat : ℚ)) (some (rate.toNat : ℚ))))
    (some (rate.toNat : ℚ))) = some n at hn
  rw [hquot] at hn
  change (rational z).toStp (some ((speed.toNat : ℚ) / rate.toNat * (speed.toNat / rate.toNat) *
    rate.toNat)) = some n at hn
  rw [hsquare] at hn
  have hnat := rational_toStp hn
  have hhalf : steps.toNat = n.toNat / 2 := by
    rw [← hsteps]
    exact Nat.shiftRight_eq_div_pow n.toNat 1
  rw [hhalf, hnat, Nat.le_div_iff_mul_le (by omega), Nat.le_div_iff_mul_le (by omega)]

theorem le_passes (n : Stp) : n.toNat ≤ passes n ∧ (passes n = n.toNat ↔ 1 ≤ n.toNat) := by
  by_cases h : 1 ≤ n.toNat
  · rw [passes_of_pos h]
    exact ⟨Nat.le_refl _, iff_of_true rfl h⟩
  · unfold passes
    omega

/-- **The distance of a task.** In exact arithmetic an accepted task moves the steps that
were asked for exactly when both of its ramps have a step, and it is not linked to itself. -/
theorem moves_iff {z : Option Stp} {fuel : Nat} {steps speed acc dec dir r : Stp} {s₁ : State}
    (hacc : 1 ≤ acc.toNat) (hdec : 1 ≤ dec.toNat) (hempty : s.dev.nextTask = none)
    (hstop : s.dev.hasStop = false)
    (hadd : stepperAddTask (rational z) fuel s p steps speed acc dec dir none = some (r, s₁))
    (hr : r ≠ 0) :
    ∃ start s₂, stepperRun s₁ = some (start, s₂) ∧
      (Moves p steps.toNat s₂ ↔ 2 * acc.toNat ≤ speed.toNat ^ 2 ∧
        2 * dec.toNat ≤ speed.toNat ^ 2 ∧ (s.tasks p).next ≠ some p) := by
  obtain ⟨hprofile, hprofile', -, hsum, hrun⟩ := stepperAddTask_spec hadd hr
  obtain ⟨-, rfl, -⟩ | ⟨-, -, happ⟩ := Add.call_cases (a := ⟨p, steps, speed, acc, dec, dir, none⟩)
    hadd
  · exact absurd rfl hr
  · have hbehind := happ.behind
    unfold Behind at hbehind
    rw [hempty] at hbehind
    obtain ⟨hhead, hlinks⟩ := hbehind
    refine ⟨_, _, stepperRun_idle hhead happ.state, ?_⟩
    have hmoving : Moving p (s.tasks p).next
        (s₁.setTask p { s₁.tasks p with state := .accl }) := by
      refine ⟨⟨hhead, ?_⟩, ?_, ?_, happ.keeps.2.1.trans hstop⟩
      · rw [setTask_self]
        exact id
      · rw [setTask_self]
        exact happ.buf
      · rw [setTask_self]
        exact hlinks p
    have hedges : (s₁.setTask p { s₁.tasks p with state := .accl }).edges p =
        (s₁.tasks p).planned.length := by
      unfold State.edges
      rw [setTask_self]
      rfl
    have haccSteps := le_passes (s₁.tasks p).accSteps
    have hdecSteps := le_passes (s₁.tasks p).decSteps
    rw [moves_iff_edges hmoving, hedges, planned_length, passes_of_pos hrun,
      ← rational_profile hacc hprofile, ← rational_profile hdec hprofile', ← and_assoc]
    apply and_congr_left'
    omega

theorem moves_hundred : ∃ s₁ start s₂,
    stepperAddTask (rational none) 0 blank 0 100 10 10 10 0 none = some (90, s₁) ∧
      stepperRun s₁ = some (start, s₂) ∧ Moves 0 100 s₂ := by
  have h : (stepperAddTask (rational none) 0 blank 0 100 10 10 10 0 none).map Prod.fst =
      some 90 := by
    decide +kernel
  obtain ⟨⟨r, s₁⟩, hadd, rfl⟩ := Option.map_eq_some_iff.mp h
  obtain ⟨start, s₂, hstart, hmoves⟩ := moves_iff (by decide) (by decide) rfl rfl hadd (by decide)
  refine ⟨s₁, start, s₂, hadd, hstart, hmoves.mpr ⟨?_, ?_, ?_⟩⟩
  · decide
  · decide
  · exact (Option.some_ne_none 0).symm

/-- With speed 1 and ramps of 1 there are 10 steps asked for, and 131082 made. -/
theorem ramp_without_steps : ∃ s₁ start s₂,
    stepperAddTask (rational (some 0)) 0 blank 0 10 1 1 1 0 none = some (10, s₁) ∧
      stepperRun s₁ = some (start, s₂) ∧ Moves 0 131082 s₂ ∧ ¬Moves 0 10 s₂ := by
  have h : (stepperAddTask (rational (some 0)) 0 blank 0 10 1 1 1 0 none).map
      (fun x => (x.1, x.2.tasks 0, x.2.dev.nextTask, x.2.dev.hasStop)) =
        some (10, ⟨1, 10, 0, 0, 0, 0, 0, .idle, none, none⟩, some 0, false) := by
    decide +kernel
  obtain ⟨⟨r, s₁⟩, hadd, heq⟩ := Option.map_eq_some_iff.mp h
  obtain ⟨rfl, htask, hhead, hstop⟩ : r = 10 ∧ _ ∧ _ ∧ _ := by
    simpa only [Prod.mk.injEq] using heq
  have hidle : (s₁.tasks 0).state = .idle := by rw [htask]
  have hmoving : Moving 0 none (s₁.setTask 0 { s₁.tasks 0 with state := .accl }) := by
    refine ⟨⟨hhead, ?_⟩, ?_, ?_, hstop⟩
    · rw [setTask_self]
      exact id
    · rw [setTask_self, htask]
    · rw [setTask_self, htask]
  have hedges : (s₁.setTask 0 { s₁.tasks 0 with state := .accl }).edges 0 = 131082 := by
    unfold State.edges
    rw [setTask_self]
    show (s₁.tasks 0).planned.length = 131082
    rw [planned_length, htask]
    rfl
  refine ⟨s₁, _, _, hadd, stepperRun_idle hhead hidle, ?_, fun hmoves => ?_⟩
  · exact (moves_iff_edges hmoving).mpr ⟨hedges, (Option.some_ne_none 0).symm⟩
  · have := ((moves_iff_edges hmoving).mp hmoves).1
    omega

end MyLibraries.Stepper
