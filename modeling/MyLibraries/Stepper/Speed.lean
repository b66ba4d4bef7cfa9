import MyLibraries.Stepper.Accepted
import MyLibraries.Stepper.Edges

/-!
# The speed between the two timers

The second interrupt changes the speed at each of its ticks, the first one ends the phases
at an edge. A `Tally` counts the ticks in each phase from the interleaving alone; with it
the speed of a task is `acc * accTicks - dec * decTicks` as long as nothing wraps, and it
stays in range exactly as long as the ticks do.
-/

namespace MyLibraries.Stepper

open Run

/-! ## Counting ticks -/

/-- The level of the step pin, the rising edges, and the ticks of the time base while the
task accelerates and while it decelerates. -/
structure Tally where
  high : Bool
  edges : Nat
  accTicks : Nat
  decTicks : Nat
  deriving DecidableEq, Repr

/-- A task accelerates for `acc` edges and then runs for `run` edges. -/
def Tally.count (acc run : Nat) (t : Tally) : Isr → Tally
  | .isr1 =>
    if t.high then { t with high := false } else { t with high := true, edges := t.edges + 1 }
  | .isr2 _ =>
    if t.edges < acc then { t with accTicks := t.accTicks + 1 }
    else if t.edges < acc + run then t
    else { t with decTicks := t.decTicks + 1 }

/-- The ticks keep the speed between 0 and the one of the task. -/
def Tally.Within (task : Task) (t : Tally) : Prop :=
  task.acc.toNat * t.accTicks ≤ task.speed.toNat ∧
    task.dec.toNat * t.decTicks ≤ task.acc.toNat * t.accTicks

instance (task : Task) (t : Tally) : Decidable (t.Within task) :=
  inferInstanceAs (Decidable (_ ∧ _))

/-! ## The speed of a run -/

/-- The interrupt takes the speed neither past `speed` nor below zero. -/
def Fits (p : Ptr) (speed : Stp) (s : State) : Isr → Prop
  | .isr1 => True
  | .isr2 _ =>
    match (s.tasks p).state with
    | .accl => s.dev.curSpeed.toNat + (s.tasks p).acc.toNat ≤ speed.toNat
    | .decl => (s.tasks p).dec.toNat ≤ s.dev.curSpeed.toNat
    | _ => True

/-- In every state of the run the speed is at most `speed`, and no interrupt takes it out of
the range. -/
structure InRange (p : Ptr) (speed : Stp) (s : State) (is : List Isr) : Prop where
  bounded : ∀ pre, pre <+: is → ∀ calls s', run isr s pre = some (calls, s') →
    s'.dev.curSpeed.toNat ≤ speed.toNat
  fits : AlongRun isr (fun s i => Fits p speed s i) s is

variable {p q : Ptr} {s s' : State} {i : Isr} {is : List Isr} {t : Tally} {task : Task}
  {calls : List Call}

/-! ## The tally of a task at work -/

/-- The phase of a task fits to the tally, when it began with `acc` and `run` steps. -/
def InPhase (acc run : Nat) (u : Task) (t : Tally) : Prop :=
  match u.state with
  | .accl => passes u.accSteps + t.edges = acc ∧ t.edges < acc ∧ u.runSteps.toNat = run ∧
      t.decTicks = 0
  | .runn => u.runSteps.toNat + t.edges = acc + run ∧ acc ≤ t.edges ∧ t.edges < acc + run ∧
      t.decTicks = 0
  | .decl => acc + run ≤ t.edges
  | _ => False

variable {acc run' : Nat} {u : Task}

theorem inPhase_cases (h : InPhase acc run' u t) :
    (u.state = .accl ∧ passes u.accSteps + t.edges = acc ∧ t.edges < acc ∧
      u.runSteps.toNat = run' ∧ t.decTicks = 0) ∨
    (u.state = .runn ∧ u.runSteps.toNat + t.edges = acc + run' ∧ acc ≤ t.edges ∧
      t.edges < acc + run' ∧ t.decTicks = 0) ∨
    (u.state = .decl ∧ acc + run' ≤ t.edges) := by
  unfold InPhase at h
  cases hstate : u.state with
  | accl =>
    rw [hstate] at h
    exact .inl ⟨rfl, h⟩
  | runn =>
    rw [hstate] at h
    exact .inr (.inl ⟨rfl, h⟩)
  | decl =>
    rw [hstate] at h
    exact .inr (.inr ⟨rfl, h⟩)
  | idle | hold | done | stop =>
    rw [hstate] at h
    exact absurd h id

/-- A tick counts for the phase that the task is in. -/
theorem count_tick (h : InPhase acc run' u t) (answer : Stp) :
    t.count acc run' (.isr2 answer) =
      match u.state with
      | .accl => { t with accTicks := t.accTicks + 1 }
      | .decl => { t with decTicks := t.decTicks + 1 }
      | _ => t := by
  unfold Tally.count
  rcases inPhase_cases h with ⟨hstate, -, hlt, -⟩ | ⟨hstate, -, hle, hlt, -⟩ | ⟨hstate, hle⟩
  · rw [hstate]
    exact if_pos hlt
  · rw [hstate]
    dsimp only
    rw [if_neg (Nat.not_lt.mpr hle), if_pos hlt]
  · have hacc : ¬t.edges < acc := Nat.not_lt.mpr (Nat.le_trans (Nat.le_add_right ..) hle)
    rw [hstate]
    dsimp only
    rw [if_neg hacc, if_neg (Nat.not_lt.mpr hle)]

theorem inPhase_tick (h : InPhase acc run' u t) (answer : Stp) :
    InPhase acc run' u (t.count acc run' (.isr2 answer)) := by
  rw [count_tick h answer]
  unfold InPhase
  rcases inPhase_cases h with ⟨hstate, hphase⟩ | ⟨hstate, hphase⟩ | ⟨hstate, hphase⟩
  · rw [hstate]
    exact hphase
  · rw [hstate]
    exact hphase
  · rw [hstate]
    exact hphase

theorem inPhase_fall (h : InPhase acc run' u t) : InPhase acc run' u { t with high := false } := h

theorem inPhase_accl (hrun : 1 ≤ run') (h : InPhase acc run' u t) (hstate : u.state = .accl) :
    InPhase acc run' { u with
      accSteps := u.accSteps - 1
      state := if u.accSteps - 1 = 0 then .runn else u.state }
      { t with high := true, edges := t.edges + 1 } := by
  unfold InPhase at h ⊢
  rw [hstate] at h ⊢
  obtain ⟨hacc, -, hsteps, hdec⟩ := h
  by_cases hlast : u.accSteps - 1 = 0
  · have hone := passes_of_last hlast
    rw [if_pos hlast]
    refine ⟨?_, ?_, ?_, hdec⟩
    · show u.runSteps.toNat + (t.edges + 1) = acc + run'
      omega
    · show acc ≤ t.edges + 1
      omega
    · show t.edges + 1 < acc + run'
      omega
  · have hmore := passes_of_more hlast
    have hpos : 1 ≤ passes (u.accSteps - 1) := Nat.le_add_left ..
    rw [if_neg hlast]
    refine ⟨?_, ?_, hsteps, hdec⟩
    · show passes (u.accSteps - 1) + (t.edges + 1) = acc
      omega
    · show t.edges + 1 < acc
      omega

theorem inPhase_runn (h : InPhase acc run' u t) (hstate : u.state = .runn) :
    InPhase acc run' { u with
      runSteps := u.runSteps - 1
      state := if u.runSteps - 1 = 0 then .decl else .runn }
      { t with high := true, edges := t.edges + 1 } := by
  unfold InPhase at h ⊢
  rw [hstate] at h
  obtain ⟨hrun, hle, hlt, hdec⟩ := h
  have hpos : 1 ≤ u.runSteps.toNat := by omega
  have hpred := toNat_pred hpos
  have hzero := pred_eq_zero hpos
  by_cases hlast : u.runSteps - 1 = 0
  · have hone := hzero.mp hlast
    rw [if_pos hlast]
    show acc + run' ≤ t.edges + 1
    omega
  · have hmore := mt hzero.mpr hlast
    rw [if_neg hlast]
    refine ⟨?_, ?_, ?_, hdec⟩
    · show (u.runSteps - 1).toNat + (t.edges + 1) = acc + run'
      omega
    · show acc ≤ t.edges + 1
      omega
    · show t.edges + 1 < acc + run'
      omega

/-- The device and the task at `p` fit to the tally of a task that began as `task`. -/
structure Matches (p : Ptr) (task : Task) (s : State) (t : Tally) : Prop where
  high : t.high = true ↔ s.dev.prevState ≠ 0
  acc_eq : (s.tasks p).acc = task.acc
  dec_eq : (s.tasks p).dec = task.dec
  phase : InPhase (passes task.accSteps) task.runSteps.toNat (s.tasks p) t

theorem matches_isr2 (hm : Matches p task s t) (hp : s.dev.nextTask = some p) (answer : Stp)
    (hruns : Runs p (stepperIsr2 s answer)) : Matches p task (stepperIsr2 s answer)
      (t.count (passes task.accSteps) task.runSteps.toNat (.isr2 answer)) := by
  obtain ⟨⟨state, hstate, htask⟩, -, hprev⟩ := stepperIsr2_leaves hp answer
  have hsame : (stepperIsr2 s answer).tasks p = s.tasks p := by
    rcases hstate with rfl | rfl
    · exact htask
    · exact absurd (by rw [htask]; trivial) hruns.2
  refine ⟨?_, ?_, ?_, ?_⟩
  · rw [hprev, ← hm.high, count_tick hm.phase]
    split
    · rfl
    · rfl
    · rfl
  · rw [hsame]
    exact hm.acc_eq
  · rw [hsame]
    exact hm.dec_eq
  · rw [hsame]
    exact inPhase_tick hm.phase answer

theorem matches_of_leaves (hm : Matches p task s t)
    (h : Leaves { s with dev := { s.dev with prevState := 1 } } p u s')
    (hacc : u.acc = (s.tasks p).acc) (hdec : u.dec = (s.tasks p).dec)
    (hphase : InPhase (passes task.accSteps) task.runSteps.toNat u
      { t with high := true, edges := t.edges + 1 }) :
    Matches p task s' { t with high := true, edges := t.edges + 1 } := by
  refine ⟨high_of_prev h.prevState, ?_, ?_, ?_⟩
  · rw [h.task, hacc, hm.acc_eq]
  · rw [h.task, hdec, hm.dec_eq]
  · rw [h.task]
    exact hphase

/-- Behind a rising edge the task still at work has made one edge more. -/
theorem matches_edge (hrun : 1 ≤ task.runSteps.toNat) (hm : Matches p task s t)
    (h : risingEdge { s with dev := { s.dev with prevState := 1 } } p = some (calls, s'))
    (hruns : Runs p s') :
    Matches p task s' { t with high := true, edges := t.edges + 1 } := by
  have hphase := hm.phase
  unfold risingEdge at h
  dsimp only at h
  rcases inPhase_cases hphase with ⟨hstate, -⟩ | ⟨hstate, -⟩ | ⟨hstate, hle⟩
  · rw [hstate] at h
    exact matches_of_leaves hm (acclEdge_spec h).2.leaves rfl rfl (inPhase_accl hrun hphase hstate)
  · rw [hstate] at h
    obtain rfl := congrArg Prod.snd (Option.some.inj h)
    exact matches_of_leaves hm (runnEdge_spec _ p).leaves rfl rfl (inPhase_runn hphase hstate)
  · rw [hstate] at h
    have hactive : (s.tasks p).state ≠ .idle := by
      rw [hstate]
      exact StateT.noConfusion
    obtain ⟨state, hsame | rfl, hleaves⟩ := declEdge_leaves h hactive
    · refine matches_of_leaves hm hleaves rfl rfl ?_
      unfold InPhase
      rw [hsame]
      dsimp only
      rw [hstate]
      exact Nat.le_succ_of_le hle
    · exact absurd (by rw [hleaves.task]; trivial) hruns.2

theorem risingEdge_curSpeed (h : risingEdge s p = some (calls, s')) :
    s'.dev.curSpeed = s.dev.curSpeed := by
  unfold risingEdge at h
  cases hstate : (s.tasks p).state with
  | accl =>
    rw [hstate] at h
    exact (acclEdge_spec h).2.leaves.curSpeed
  | runn =>
    rw [hstate] at h
    obtain rfl := congrArg Prod.snd (Option.some.inj h)
    exact (runnEdge_spec s p).curSpeed
  | decl =>
    rw [hstate] at h
    obtain ⟨state, -, hleaves⟩ := declEdge_leaves h (by rw [hstate]; exact StateT.noConfusion)
    exact hleaves.curSpeed
  | idle | hold | done | stop =>
    rw [hstate] at h
    cases h
    rfl

/-- What the first interrupt does while a task is at work. -/
theorem stepperIsr1_cases (hruns : Runs p s) (h : stepperIsr1 s = some (calls, s')) :
    s.dev.prevState ≠ 0 ∧ s' = { s with dev := { s.dev with prevState := 0 } } ∨
      s.dev.prevState = 0 ∧ ∃ calls',
        risingEdge { s with dev := { s.dev with prevState := 1 } } p = some (calls', s') := by
  by_cases hprev : s.dev.prevState = 0
  · rw [stepperIsr1_rise hruns hprev] at h
    obtain ⟨⟨calls', s₁⟩, hedge, hs₁⟩ := Option.bind_eq_some_iff.mp h
    have hend : s₁ = s' := congrArg Prod.snd (Option.some.inj hs₁)
    subst hend
    exact .inr ⟨hprev, calls', hedge⟩
  · rw [stepperIsr1_fall hruns hprev] at h
    exact .inl ⟨hprev, (congrArg Prod.snd (Option.some.inj h)).symm⟩

theorem stepperIsr1_curSpeed (hruns : Runs p s) (h : stepperIsr1 s = some (calls, s')) :
    s'.dev.curSpeed = s.dev.curSpeed := by
  rcases stepperIsr1_cases hruns h with ⟨-, rfl⟩ | ⟨-, calls', hedge⟩
  · rfl
  · exact (risingEdge_curSpeed hedge).trans rfl

/-- One interrupt, while the task is at work before and behind it. -/
theorem matches_isr (hrun : 1 ≤ task.runSteps.toNat) (hm : Matches p task s t)
    (hruns : Runs p s) (h : isr s i = some (calls, s')) (hruns' : Runs p s') :
    Matches p task s' (t.count (passes task.accSteps) task.runSteps.toNat i) := by
  cases i with
  | isr2 answer =>
    cases h
    exact matches_isr2 hm hruns.1 answer hruns'
  | isr1 =>
    rcases stepperIsr1_cases hruns h with ⟨hprev, rfl⟩ | ⟨hprev, calls', hedge⟩
    · have hcount : t.count (passes task.accSteps) task.runSteps.toNat .isr1 =
          { t with high := false } := if_pos (hm.high.mpr hprev)
      rw [hcount]
      exact ⟨⟨fun h => absurd h Bool.false_ne_true, fun h => absurd rfl h⟩,
        hm.acc_eq, hm.dec_eq, inPhase_fall hm.phase⟩
    · have hlow : ¬t.high = true := fun hhigh => hm.high.mp hhigh hprev
      have hcount : t.count (passes task.accSteps) task.runSteps.toNat .isr1 =
          { t with high := true, edges := t.edges + 1 } := if_neg hlow
      rw [hcount]
      exact matches_edge hrun hm hedge hruns'

/-! ## The speed of a task at work -/

/-- The speed that the ticks give. -/
structure Paced (task : Task) (s : State) (t : Tally) : Prop where
  speed : s.dev.curSpeed.toNat + task.dec.toNat * t.decTicks = task.acc.toNat * t.accTicks
  le : task.acc.toNat * t.accTicks ≤ task.speed.toNat

theorem within_of_paced (h : Paced task s t) : t.Within task :=
  ⟨h.le, by rw [← h.speed]; exact Nat.le_add_left ..⟩

theorem bounded_of_paced (h : Paced task s t) : s.dev.curSpeed.toNat ≤ task.speed.toNat := by
  have hspeed := h.speed
  have hle := h.le
  omega

/-- The first interrupt counts no tick. -/
theorem count_isr1 (t : Tally) (acc run : Nat) :
    (t.count acc run .isr1).accTicks = t.accTicks ∧
      (t.count acc run .isr1).decTicks = t.decTicks := by
  obtain ⟨high, edges, accTicks, decTicks⟩ := t
  cases high with
  | true => exact ⟨rfl, rfl⟩
  | false => exact ⟨rfl, rfl⟩

/-- The ticks stay in range with an interrupt exactly if the speed does. -/
theorem fits_iff_within (hm : Matches p task s t) (hpaced : Paced task s t) (i : Isr) :
    Fits p task.speed s i ↔ (t.count (passes task.accSteps) task.runSteps.toNat i).Within task := by
  obtain ⟨hle, hdec⟩ := within_of_paced hpaced
  have hspeed := hpaced.speed
  have hphase := hm.phase
  cases i with
  | isr1 =>
    obtain ⟨hacc₁, hdec₁⟩ := count_isr1 t (passes task.accSteps) task.runSteps.toNat
    refine ⟨fun _ => ?_, fun _ => trivial⟩
    unfold Tally.Within
    rw [hacc₁, hdec₁]
    exact ⟨hle, hdec⟩
  | isr2 answer =>
    rw [count_tick hphase]
    unfold Fits Tally.Within
    rcases inPhase_cases hphase with ⟨hstate, -, -, -, hzero⟩ | ⟨hstate, -⟩ | ⟨hstate, -⟩
    · rw [hzero, Nat.mul_zero, Nat.add_zero] at hspeed
      rw [hstate]
      dsimp only
      rw [hm.acc_eq, hzero, Nat.mul_zero, Nat.mul_succ, ← hspeed]
      exact ⟨fun h => ⟨h, Nat.zero_le _⟩, fun h => h.1⟩
    · rw [hstate]
      exact ⟨fun _ => ⟨hle, hdec⟩, fun _ => trivial⟩
    · rw [hstate]
      dsimp only
      rw [hm.dec_eq, Nat.mul_succ]
      constructor
      · intro h
        exact ⟨hle, by omega⟩
      · intro h
        omega

theorem paced_of_fits (hm : Matches p task s t) (hpaced : Paced task s t) (hruns : Runs p s)
    (h : isr s i = some (calls, s')) (hfits : Fits p task.speed s i) :
    Paced task s' (t.count (passes task.accSteps) task.runSteps.toNat i) := by
  have hwithin := (fits_iff_within hm hpaced i).mp hfits
  have hspeed := hpaced.speed
  have hphase := hm.phase
  cases i with
  | isr1 =>
    obtain ⟨hacc₁, hdec₁⟩ := count_isr1 t (passes task.accSteps) task.runSteps.toNat
    constructor
    · rw [hacc₁, hdec₁, stepperIsr1_curSpeed hruns h]
      exact hspeed
    · exact hwithin.1
  | isr2 answer =>
    cases h
    obtain ⟨-, hcur, -⟩ := stepperIsr2_leaves hruns.1 answer
    refine ⟨?_, hwithin.1⟩
    rw [hcur, count_tick hphase]
    unfold Fits at hfits
    unfold changeSpeed
    rcases inPhase_cases hphase with ⟨hstate, -⟩ | ⟨hstate, -⟩ | ⟨hstate, -⟩
    · rw [hstate] at hfits ⊢
      have hlt := task.speed.toNat_lt
      have hadd : (s.dev.curSpeed + (s.tasks p).acc).toNat =
          s.dev.curSpeed.toNat + (s.tasks p).acc.toNat := by
        rw [UInt16.toNat_add]
        exact Nat.mod_eq_of_lt (Nat.lt_of_le_of_lt hfits hlt)
      rw [hm.acc_eq] at hadd
      dsimp only
      rw [hm.acc_eq, hadd, Nat.mul_succ]
      omega
    · rw [hstate]
      exact hspeed
    · rw [hstate] at hfits ⊢
      have hsub := UInt16.toNat_sub_of_le _ _ (UInt16.le_iff_toNat_le.mpr hfits)
      rw [hm.dec_eq] at hsub hfits
      dsimp only at hfits ⊢
      rw [hm.dec_eq, hsub, Nat.mul_succ]
      omega

/-! ## Runs -/

variable {speed : Stp}

theorem inRange_nil : InRange p speed s [] ↔ s.dev.curSpeed.toNat ≤ speed.toNat := by
  constructor
  · intro h
    exact h.bounded [] (List.prefix_refl _) [] s rfl
  · intro h
    refine ⟨fun pre hpre calls s' hrun => ?_, trivial⟩
    obtain rfl := List.prefix_nil.mp hpre
    cases hrun
    exact h

theorem inRange_cons {s₁ : State} (h : isr s i = some (calls, s₁)) : InRange p speed s (i :: is) ↔
    s.dev.curSpeed.toNat ≤ speed.toNat ∧ Fits p speed s i ∧ InRange p speed s₁ is := by
  constructor
  · intro hin
    obtain ⟨hfits, hrest⟩ := (alongRun_cons h).mp hin.fits
    refine ⟨hin.bounded [] (List.nil_prefix ..) [] s rfl, hfits, ?_, hrest⟩
    intro pre hpre calls' s' hrun
    refine hin.bounded (i :: pre) (List.cons_prefix_cons.mpr ⟨rfl, hpre⟩) (calls :: calls') s' ?_
    rw [run_cons, h, Option.bind_some, hrun, Option.bind_some]
  · rintro ⟨hle, hfits, hin⟩
    refine ⟨?_, (alongRun_cons h).mpr ⟨hfits, hin.fits⟩⟩
    intro pre hpre calls' s' hrun
    rcases List.prefix_cons_iff.mp hpre with rfl | ⟨pre', rfl, hpre'⟩
    · cases hrun
      exact hle
    · rw [run_cons, h, Option.bind_some] at hrun
      obtain ⟨⟨rs, s₂⟩, hrun', heq⟩ := Option.bind_eq_some_iff.mp hrun
      cases heq
      exact hin.bounded pre' hpre' rs _ hrun'

/-- The ticks are in range behind every part of the interleaving. -/
def Tally.WithinAll (task : Task) (t : Tally) (is : List Isr) : Prop :=
  ∀ pre, pre <+: is →
    (pre.foldl (Tally.count (passes task.accSteps) task.runSteps.toNat) t).Within task

theorem withinAll_nil : t.WithinAll task [] ↔ t.Within task := by
  constructor
  · intro h
    exact h [] (List.prefix_refl _)
  · intro h pre hpre
    rw [List.prefix_nil.mp hpre]
    exact h

theorem withinAll_cons : t.WithinAll task (i :: is) ↔ t.Within task ∧
    (t.count (passes task.accSteps) task.runSteps.toNat i).WithinAll task is := by
  constructor
  · intro h
    refine ⟨h [] (List.nil_prefix ..), fun pre hpre => ?_⟩
    exact h (i :: pre) (List.cons_prefix_cons.mpr ⟨rfl, hpre⟩)
  · rintro ⟨hnow, hrest⟩ pre hpre
    rcases List.prefix_cons_iff.mp hpre with rfl | ⟨pre', rfl, hpre'⟩
    · exact hnow
    · exact hrest pre' hpre'

/-- A task at work keeps its speed in range in a run exactly if the ticks do. -/
theorem inRange_iff_withinAll {rs : List (List Call)} (hrun : 1 ≤ task.runSteps.toNat)
    (hm : Runs p s → Matches p task s t) (hpaced : Paced task s t)
    (hruns : AlongRun isr (fun s _ => Runs p s) s is) (h : run isr s is = some (rs, s')) :
    InRange p task.speed s is ↔ t.WithinAll task is := by
  induction is generalizing s t rs with
  | nil =>
    rw [inRange_nil, withinAll_nil]
    exact ⟨fun _ => within_of_paced hpaced, fun _ => bounded_of_paced hpaced⟩
  | cons i is ih =>
    obtain ⟨calls, s₁, rs', h₁, h₂, rfl⟩ := run_cons_eq_some h
    obtain ⟨hnow, hruns'⟩ := (alongRun_cons h₁).mp hruns
    have hm' := hm hnow
    have hfits := fits_iff_within hm' hpaced i
    rw [inRange_cons h₁, withinAll_cons]
    constructor
    · rintro ⟨-, hi, hin⟩
      have hpaced' := paced_of_fits hm' hpaced hnow h₁ hi
      refine ⟨within_of_paced hpaced, ?_⟩
      exact (ih (matches_isr hrun hm' hnow h₁) hpaced' hruns' h₂).mp hin
    · rintro ⟨-, hall⟩
      have hi := hfits.mpr (hall [] (List.nil_prefix ..))
      have hpaced' := paced_of_fits hm' hpaced hnow h₁ hi
      refine ⟨bounded_of_paced hpaced, hi, ?_⟩
      exact (ih (matches_isr hrun hm' hnow h₁) hpaced' hruns' h₂).mpr hall

/-- **When the speed stays in range.** For a task accepted by `stepper_add_task` and started
with no speed, this is decided by the ticks of the time base in its phases, whatever the
arithmetic of the profiles. -/
theorem speed_in_range_iff {δ : Type} {ar : Arith δ} {fuel : Nat} {s₀ s₁ : State}
    {steps acc dec dir r : Stp} {buf next : Option Ptr} {rs : List (List Call)}
    (hadd : stepperAddTask ar fuel s₀ p steps speed acc dec dir buf = some (r, s₁))
    (hr : r ≠ 0) (htask : s.tasks p = { s₁.tasks p with state := .accl, next := next })
    (hspeed : s.dev.curSpeed = 0) (hruns : AlongRun isr (fun s _ => Runs p s) s is)
    (hrun : run isr s is = some (rs, s')) :
    InRange p speed s is ↔
      (Tally.mk (s.dev.prevState ≠ 0) 0 0 0).WithinAll (s.tasks p) is := by
  obtain ⟨-, -, hspeed₁, -, hpos⟩ := stepperAddTask_spec hadd hr
  rw [← hspeed₁]
  have htaskSpeed : (s₁.tasks p).speed = (s.tasks p).speed := by rw [htask]
  have htaskRun : (s₁.tasks p).runSteps = (s.tasks p).runSteps := by rw [htask]
  rw [htaskSpeed]
  rw [htaskRun] at hpos
  refine inRange_iff_withinAll hpos (fun _ => ?_) ?_ hruns hrun
  · refine ⟨decide_eq_true_iff, rfl, rfl, ?_⟩
    unfold InPhase
    rw [htask]
    exact ⟨Nat.add_zero _, Nat.le_add_left .., rfl, rfl⟩
  · constructor
    · rw [hspeed]
      rfl
    · exact Nat.zero_le _

/-! ## Past the limit -/

/-- An empty queue. -/
def fresh : State where
  dev := ⟨true, false, 0, 0, 0, 0, 0, none, 0, 1000⟩
  tasks _ := ⟨0, 0, 0, 0, 0, 0, 0, .done, none, none⟩
  bufs _ := ⟨[], [], 0, 0⟩

/-- A task of 100 steps, with speed 10 and with 10 for both ramps, that has been started. -/
def started : State where
  dev := ⟨true, false, 0, 0, 0, 0, 0, some 0, 0, 1000⟩
  tasks _ := ⟨10, 90, 5, 5, 2, 2, 0, .accl, none, none⟩
  bufs _ := ⟨[], [], 0, 0⟩

theorem accepted_ten : ∃ s₁, stepperAddTask double 0 fresh 0 100 10 10 10 0 none = some (90, s₁) ∧
    started.tasks 0 = { s₁.tasks 0 with state := .accl, next := none } := by
  have h : (stepperAddTask double 0 fresh 0 100 10 10 10 0 none).map
      (fun x => (x.1, x.2.tasks 0)) = some (90, ⟨10, 90, 5, 5, 2, 2, 0, .idle, none, none⟩) := by
    decide +kernel
  obtain ⟨⟨r, s₁⟩, hadd, heq⟩ := Option.map_eq_some_iff.mp h
  obtain ⟨rfl, htask⟩ := Prod.mk.inj heq
  refine ⟨s₁, hadd, ?_⟩
  dsimp only at htask
  rw [htask]
  rfl

/-- Five ticks in the acceleration reach the speed of the task. -/
theorem speed_in_range_five : ∃ s₁,
    stepperAddTask double 0 fresh 0 100 10 10 10 0 none = some (90, s₁) ∧
      InRange 0 10 started (List.replicate 5 (.isr2 0)) := by
  obtain ⟨s₁, hadd, htask⟩ := accepted_ten
  refine ⟨s₁, hadd, (speed_in_range_iff hadd (by decide) htask rfl (by decide) rfl).mpr ?_⟩
  show Tally.WithinAll _ _ [_, _, _, _, _]
  rw [withinAll_cons, withinAll_cons, withinAll_cons, withinAll_cons, withinAll_cons, withinAll_nil]
  decide

/-- The sixth tick before the first edge takes the speed to 12. -/
theorem speed_past_limit : ∃ s₁ start s,
    stepperAddTask double 0 fresh 0 100 10 10 10 0 none = some (90, s₁) ∧
      stepperRun s₁ = some (start, s) ∧ s.dev.curSpeed = 0 ∧
      AlongRun isr (fun s _ => Runs 0 s) s (List.replicate 6 (.isr2 0)) ∧
      ¬InRange 0 10 s (List.replicate 6 (.isr2 0)) := by
  have h : ((stepperAddTask double 0 fresh 0 100 10 10 10 0 none).bind fun a =>
      (stepperRun a.2).bind fun b => (run isr b.2 (List.replicate 6 (.isr2 0))).map fun c =>
        (a.1, b.2.dev.curSpeed, c.2.dev.curSpeed,
          decide (AlongRun isr (fun s _ => Runs 0 s) b.2 (List.replicate 6 (.isr2 0))))) =
      some (90, 0, 12, true) := by
    decide +kernel
  obtain ⟨⟨r, s₁⟩, hadd, h₁⟩ := Option.bind_eq_some_iff.mp h
  obtain ⟨⟨start, s⟩, hstart, h₂⟩ := Option.bind_eq_some_iff.mp h₁
  obtain ⟨⟨calls, s'⟩, hrun, heq⟩ := Option.map_eq_some_iff.mp h₂
  obtain ⟨rfl, hzero, hspeed, hruns⟩ : r = 90 ∧ s.dev.curSpeed = 0 ∧ s'.dev.curSpeed = 12 ∧
      decide (AlongRun isr (fun s _ => Runs 0 s) s (List.replicate 6 (.isr2 0))) = true := by
    simpa only [Prod.mk.injEq] using heq
  refine ⟨s₁, start, s, hadd, hstart, hzero, of_decide_eq_true hruns, fun hin => ?_⟩
  have hle := hin.bounded _ (List.prefix_refl _) calls s' hrun
  rw [hspeed] at hle
  exact absurd hle (by decide)

end MyLibraries.Stepper
