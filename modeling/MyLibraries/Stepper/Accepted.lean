import MyLibraries.Stepper.Model

/-!
# Accepted tasks

What `stepper_add_task` leaves behind in a task that it accepts, in any arithmetic of the
profiles. In `double` a task without a step for a ramp is not accepted, since the speed is
divided by the number of steps (`double_ramps`).
-/

namespace MyLibraries.Stepper

/-! ## Division by zero -/

theorem infinity_not_finite (sign : Float.Model.UnpackedFloat.Sign) :
    (Float.Model.pack (.infinity sign)).isFinite = false := by
  cases sign with
  | positive => decide +kernel
  | negative => decide +kernel

theorem nan_not_finite : (Float.Model.pack .notANumber).isFinite = false := by
  decide +kernel

theorem pack_div_zero (x : Float.Model.UnpackedFloat) :
    (Float.Model.pack (.div .binary64 x (.zero .positive))).isFinite = false := by
  cases x with
  | notANumber => exact nan_not_finite
  | infinity sign => exact infinity_not_finite _
  | zero sign => exact nan_not_finite
  | finite sign mantissa exponent hpos => exact infinity_not_finite _

/-- A quotient by zero is converted to nothing. -/
theorem toStp_div_zero (x : Float) : double.toStp (double.div x (double.ofStp 0)) = none := by
  have hfinite : (double.div x (double.ofStp 0)).isFinite = false :=
    pack_div_zero x.toModel.unpack
  apply if_neg
  rw [hfinite]
  exact fun h => Bool.false_ne_true h.1

theorem profile_steps {speed rate steps delta : Stp}
    (h : profile double speed rate = some (steps, delta)) : 1 ≤ steps.toNat := by
  obtain ⟨n, -, hdelta⟩ := Option.bind_eq_some_iff.mp h
  obtain ⟨delta', hto, heq⟩ := Option.bind_eq_some_iff.mp hdelta
  have hsteps : n >>> 1 = steps := congrArg Prod.fst (Option.some.inj heq)
  rw [hsteps] at hto
  rcases Nat.eq_zero_or_pos steps.toNat with hzero | hpos
  · have : steps = 0 := UInt16.toNat_inj.mp hzero
    rw [this, toStp_div_zero] at hto
    cases hto
  · exact hpos

/-! ## What is left behind -/

/-- The memory of the tasks is the same, but for links and states. -/
def SameTasks (s s' : State) : Prop :=
  ∀ q, ∃ next state, s'.tasks q = { s.tasks q with next := next, state := state }

theorem SameTasks.refl (s : State) : SameTasks s s := fun q => ⟨(s.tasks q).next, _, rfl⟩

theorem sameTasks_setTask (s : State) (p : Ptr) (next : Option Ptr) (state : StateT) :
    SameTasks s (s.setTask p { s.tasks p with next := next, state := state }) := by
  intro q
  by_cases hq : q = p
  · subst hq
    exact ⟨next, state, Function.update_self ..⟩
  · exact ⟨_, _, Function.update_of_ne hq ..⟩

variable {δ : Type} {ar : Arith δ} {fuel : Nat} {s s' : State} {p : Ptr}
  {steps speed acc dec dir r : Stp} {buf : Option Ptr} {v v' : δ}

/-- The task becomes the head of an empty queue, or the last one is linked to it. -/
theorem linkTask_cases (h : linkTask ar fuel s p = some (v, s')) :
    (s.dev.nextTask = none ∧ v = ar.ofStp 0 ∧
      s' = { s with dev := { s.dev with nextTask := some p } }) ∨
    ∃ q last, s.dev.nextTask = some q ∧ lastTask s.tasks fuel q = some last ∧
      v = ar.ofStp (s.tasks q).speed ∧
      s' = s.setTask last { s.tasks last with next := some p } := by
  unfold linkTask at h
  cases hnext : s.dev.nextTask with
  | none =>
    rw [hnext] at h
    cases h
    exact .inl ⟨rfl, rfl, rfl⟩
  | some q =>
    rw [hnext] at h
    obtain ⟨last, hlast, heq⟩ := Option.bind_eq_some_iff.mp h
    cases heq
    exact .inr ⟨q, last, rfl, hlast, rfl, rfl⟩

theorem linkTask_tasks (h : linkTask ar fuel s p = some (v, s')) : SameTasks s s' := by
  rcases linkTask_cases h with ⟨-, -, rfl⟩ | ⟨q, last, -, -, -, rfl⟩
  · exact .refl s
  · exact sameTasks_setTask s last (some p) _

/-- The first buffer is filled if its size is greater than the ramp, and left alone if not. -/
theorem fillAcc_cases {b : Ptr} (h : fillAcc ar s p b v = some (v', s')) :
    ((s.tasks p).accSteps < (s.bufs b).accBufSize ∧ ∃ accBuf,
      fillBuf ar (fun v => ar.add v (ar.ofStp (s.tasks p).acc)) s.dev.timDuty
        (s.tasks p).accSteps.toNat 0 v (s.bufs b).accBuf = some (v', accBuf) ∧
      s' = { s with
        dev := { s.dev with accSteps := 0 }
        bufs := Function.update s.bufs b { s.bufs b with accBuf := accBuf } }) ∨
    (¬(s.tasks p).accSteps < (s.bufs b).accBufSize ∧ s' = s) := by
  unfold fillAcc at h
  split at h
  · rename_i hlt
    obtain ⟨⟨v₁, accBuf⟩, hfill, heq⟩ := Option.bind_eq_some_iff.mp h
    cases heq
    exact .inl ⟨hlt, accBuf, hfill, rfl⟩
  · rename_i hsmall
    cases h
    exact .inr ⟨hsmall, rfl⟩

/-- The second buffer likewise. -/
theorem fillDec_cases {b : Ptr} (h : fillDec ar s p b v = some s') :
    ((s.tasks p).decSteps < (s.bufs b).decBufSize ∧ ∃ v' decBuf,
      fillBuf ar (fun v => ar.sub v (ar.ofStp (s.tasks p).dec)) s.dev.timDuty
        (s.tasks p).decSteps.toNat 0 v (s.bufs b).decBuf = some (v', decBuf) ∧
      s' = { s with
        dev := { s.dev with decSteps := 0 }
        bufs := Function.update s.bufs b { s.bufs b with decBuf := decBuf } }) ∨
    (¬(s.tasks p).decSteps < (s.bufs b).decBufSize ∧ s' = s) := by
  unfold fillDec at h
  split at h
  · rename_i hlt
    obtain ⟨⟨v₁, decBuf⟩, hfill, heq⟩ := Option.bind_eq_some_iff.mp h
    cases heq
    exact .inl ⟨hlt, v₁, decBuf, hfill, rfl⟩
  · rename_i hsmall
    cases h
    exact .inr ⟨hsmall, rfl⟩

theorem fillAcc_tasks {b : Ptr} (h : fillAcc ar s p b v = some (v', s')) :
    s'.tasks = s.tasks := by
  rcases fillAcc_cases h with ⟨-, accBuf, -, rfl⟩ | ⟨-, rfl⟩
  · rfl
  · rfl

theorem fillDec_tasks {b : Ptr} (h : fillDec ar s p b v = some s') : s'.tasks = s.tasks := by
  rcases fillDec_cases h with ⟨-, v', decBuf, -, rfl⟩ | ⟨-, rfl⟩
  · rfl
  · rfl

theorem fillBufs_tasks (h : fillBufs ar s p v buf = some s') : s'.tasks = s.tasks := by
  cases buf with
  | none =>
    cases h
    rfl
  | some b =>
    obtain ⟨⟨v', s₁⟩, hacc, hdec⟩ := Option.bind_eq_some_iff.mp h
    exact (fillDec_tasks hdec).trans (fillAcc_tasks hacc)

theorem toNat_runSteps {x y : Stp} (h : x.toNat + y.toNat < steps.toNat) :
    (steps - x - y).toNat = steps.toNat - x.toNat - y.toNat := by
  have hx : x ≤ steps := UInt16.le_iff_toNat_le.mpr (by omega)
  have hsub := UInt16.toNat_sub_of_le _ _ hx
  have hy : y ≤ steps - x := UInt16.le_iff_toNat_le.mpr (by omega)
  rw [UInt16.toNat_sub_of_le _ _ hy, hsub]

/-- What a call of `stepper_add_task` goes through: it ends behind the profiles, or links the
task and fills its buffers. -/
theorem stepperAddTask_cases
    (h : stepperAddTask ar fuel s p steps speed acc dec dir buf = some (r, s')) :
    ∃ accSteps accDelta decSteps decDelta,
      profile ar speed acc = some (accSteps, accDelta) ∧
      profile ar speed dec = some (decSteps, decDelta) ∧
      ((steps.toNat ≤ accSteps.toNat + decSteps.toNat ∧ r = 0 ∧ s' = s.setTask p { s.tasks p with
          accSteps := accSteps, acc := accDelta, decSteps := decSteps, dec := decDelta
          speed := speed }) ∨
        (accSteps.toNat + decSteps.toNat < steps.toNat ∧ r = steps - accSteps - decSteps ∧
          ∃ v s₂ s₃, linkTask ar fuel (s.setTask p { s.tasks p with
            accSteps := accSteps, acc := accDelta, decSteps := decSteps, dec := decDelta
            speed := speed, runSteps := steps - accSteps - decSteps, dir := dir
            buf := buf }) p = some (v, s₂) ∧
          fillBufs ar s₂ p v buf = some s₃ ∧
          s' = s₃.setTask p { s₃.tasks p with state := .idle })) := by
  obtain ⟨⟨accSteps, accDelta⟩, hacc, h₁⟩ := Option.bind_eq_some_iff.mp h
  obtain ⟨⟨decSteps, decDelta⟩, hdec, h₂⟩ := Option.bind_eq_some_iff.mp h₁
  refine ⟨accSteps, accDelta, decSteps, decDelta, hacc, hdec, ?_⟩
  dsimp only at h₂
  split at h₂
  · rename_i hsteps
    cases h₂
    exact .inl ⟨hsteps, rfl, rfl⟩
  · rename_i hsteps
    obtain ⟨⟨v, s₂⟩, hlink, h₃⟩ := Option.bind_eq_some_iff.mp h₂
    obtain ⟨s₃, hfill, h₄⟩ := Option.bind_eq_some_iff.mp h₃
    cases h₄
    refine .inr ⟨Nat.lt_of_not_ge hsteps, rfl, v, s₂, s₃, ?_, hfill, rfl⟩
    rw [← hlink, setTask_self]
    unfold State.setTask
    rw [Function.update_idem]

/-- **A task that is accepted**: its profiles, and the steps between them. -/
theorem stepperAddTask_spec (h : stepperAddTask ar fuel s p steps speed acc dec dir buf =
    some (r, s')) (hr : r ≠ 0) :
    profile ar speed acc = some ((s'.tasks p).accSteps, (s'.tasks p).acc) ∧
      profile ar speed dec = some ((s'.tasks p).decSteps, (s'.tasks p).dec) ∧
      (s'.tasks p).speed = speed ∧
      (s'.tasks p).accSteps.toNat + (s'.tasks p).runSteps.toNat + (s'.tasks p).decSteps.toNat =
        steps.toNat ∧
      1 ≤ (s'.tasks p).runSteps.toNat := by
  obtain ⟨accSteps, accDelta, decSteps, decDelta, hacc, hdec,
    ⟨-, rfl, -⟩ | ⟨hlt, -, v, s₂, s₃, hlink, hfill, rfl⟩⟩ := stepperAddTask_cases h
  · exact absurd rfl hr
  · obtain ⟨next, state, hlinked⟩ := linkTask_tasks hlink p
    rw [setTask_self] at hlinked
    have hrun := toNat_runSteps hlt
    rw [setTask_self, fillBufs_tasks hfill, hlinked]
    refine ⟨hacc, hdec, rfl, ?_, ?_⟩
    · dsimp only
      omega
    · dsimp only
      omega

/-- In `double` a task that is accepted has a step for each ramp. -/
theorem double_ramps (h : stepperAddTask double fuel s p steps speed acc dec dir buf =
    some (r, s')) (hr : r ≠ 0) :
    1 ≤ (s'.tasks p).accSteps.toNat ∧ 1 ≤ (s'.tasks p).decSteps.toNat := by
  obtain ⟨hacc, hdec, -⟩ := stepperAddTask_spec h hr
  exact ⟨profile_steps hacc, profile_steps hdec⟩

end MyLibraries.Stepper
