import Mathlib.Data.List.Induction

/-!
# Runs of checked and of total machines

A checked machine is a step `σ → ι → Option (ρ × σ)`: it consumes an input, answers a
result and may fault. A total machine never faults. `run` and `exec` take them through a
list of inputs and collect the results.

`Refines` is forward simulation of a total machine by a checked one, under a condition
`P` on the abstract state and the input. `run_refines` is its run form: as long as the
condition holds along the abstract run, the checked machine does not fault, gives the
same results, and ends in a related state.
-/

namespace MyLibraries.Run

variable {σ α ι ρ : Type}

/-- The results of a checked machine and its last state; `none` is a fault. -/
def run (step : σ → ι → Option (ρ × σ)) : σ → List ι → Option (List ρ × σ)
  | s, [] => some ([], s)
  | s, i :: is => do
    let (r, s) ← step s i
    let (rs, s) ← run step s is
    some (r :: rs, s)

/-- The results of a total machine and its last state. -/
def exec (step : α → ι → ρ × α) : α → List ι → List ρ × α
  | a, [] => ([], a)
  | a, i :: is =>
    let (r, a) := step a i
    let (rs, a) := exec step a is
    (r :: rs, a)

/-- `P` holds of every input of the run in the state that consumes it. -/
def Along (step : α → ι → ρ × α) (P : α → ι → Prop) : α → List ι → Prop
  | _, [] => True
  | a, i :: is => P a i ∧ Along step P (step a i).2 is

/-- `C` holds of every input of a checked run in the state that consumes it. -/
def AlongRun (step : σ → ι → Option (ρ × σ)) (C : σ → ι → Prop) : σ → List ι → Prop
  | _, [] => True
  | s, i :: is => C s i ∧ ∀ r s', step s i = some (r, s') → AlongRun step C s' is

/-- Every input accepted by `P` is answered alike by the checked machine and the total
one, and `R` is kept. -/
def Refines (step : σ → ι → Option (ρ × σ)) (abs : α → ι → ρ × α) (R : σ → α → Prop)
    (P : α → ι → Prop) : Prop :=
  ∀ s a i, R s a → P a i → ∃ s', step s i = some ((abs a i).1, s') ∧ R s' (abs a i).2

/-- `Q` holds of every state of a checked run, the first and the last one included. -/
def Throughout (step : σ → ι → Option (ρ × σ)) (Q : σ → Prop) (s : σ) (is : List ι) : Prop :=
  ∀ js, js <+: is → ∀ rs s', run step s js = some (rs, s') → Q s'

/-- After every part of a checked run, the view of its state is what the abstract steps, told
the inputs and the results, make of the view of the first one. -/
def Follows (step : σ → ι → Option (ρ × σ)) (view : σ → α) (abs : α → ι → ρ → α) (s : σ)
    (is : List ι) : Prop :=
  ∀ js, js <+: is → ∀ rs s', run step s js = some (rs, s') →
    view s' = (js.zip rs).foldl (fun a p => abs a p.1 p.2) (view s)

instance AlongRun.decidable (step : σ → ι → Option (ρ × σ)) (C : σ → ι → Prop)
    [∀ s i, Decidable (C s i)] : ∀ s is, Decidable (AlongRun step C s is)
  | _, [] => .isTrue trivial
  | s, i :: is =>
    have : Decidable (∀ r s', step s i = some (r, s') → AlongRun step C s' is) :=
      match hs : step s i with
      | none => .isTrue (by simp)
      | some (r, s') =>
        have := AlongRun.decidable step C s' is
        decidable_of_iff (AlongRun step C s' is) (by simp)
    inferInstanceAs (Decidable (_ ∧ _))

variable {step : σ → ι → Option (ρ × σ)} {abs : α → ι → ρ × α} {R : σ → α → Prop}
  {P : α → ι → Prop} {s s' : σ} {a : α} {is js : List ι} {i : ι}

@[simp] theorem run_nil : run step s [] = some ([], s) := rfl

@[simp] theorem exec_nil : exec abs a [] = ([], a) := rfl

theorem run_cons : run step s (i :: is) =
    (step s i).bind fun p => (run step p.2 is).bind fun q => some (p.1 :: q.1, q.2) := rfl

/-- A run that does not fault, taken apart at its first step. -/
theorem run_cons_eq_some {rs : List ρ} (h : run step s (i :: is) = some (rs, s')) :
    ∃ r s₁ rs', step s i = some (r, s₁) ∧ run step s₁ is = some (rs', s') ∧ rs = r :: rs' := by
  rw [run_cons] at h
  obtain ⟨⟨r, s₁⟩, h₁, hrest⟩ := Option.bind_eq_some_iff.mp h
  obtain ⟨⟨rs', s₂⟩, h₂, hend⟩ := Option.bind_eq_some_iff.mp hrest
  cases hend
  exact ⟨r, s₁, rs', h₁, h₂, rfl⟩

theorem exec_cons : exec abs a (i :: is) =
    ((abs a i).1 :: (exec abs (abs a i).2 is).1, (exec abs (abs a i).2 is).2) := rfl

theorem alongRun_cons {C : σ → ι → Prop} {r : ρ} (h : step s i = some (r, s')) :
    AlongRun step C s (i :: is) ↔ C s i ∧ AlongRun step C s' is := by
  refine ⟨fun hC => ⟨hC.1, hC.2 r s' h⟩, fun hC => ⟨hC.1, fun r₁ s₁ h₁ => ?_⟩⟩
  cases h.symm.trans h₁
  exact hC.2

/-- The invariant rule: what every step keeps under the condition holds at the end of a run
whose inputs all meet it, and what it says of every result holds of all results. -/
theorem good_of_alongRun {C : σ → ι → Prop} {Inv : σ → Prop} (Good : ρ → Prop) {rs : List ρ}
    (hstep : ∀ s i r s', Inv s → C s i → step s i = some (r, s') → Good r ∧ Inv s') (hs : Inv s)
    (hC : AlongRun step C s is) (hrun : run step s is = some (rs, s')) :
    (∀ r ∈ rs, Good r) ∧ Inv s' := by
  induction is generalizing s rs with
  | nil =>
    cases hrun
    exact ⟨fun r hr => absurd hr List.not_mem_nil, hs⟩
  | cons i is ih =>
    obtain ⟨r, s₁, rs', h₁, h₂, rfl⟩ := run_cons_eq_some hrun
    obtain ⟨hgood, hs₁⟩ := hstep s i r s₁ hs hC.1 h₁
    obtain ⟨hall, hs'⟩ := ih hs₁ (hC.2 r s₁ h₁) h₂
    exact ⟨List.forall_mem_cons.mpr ⟨hgood, hall⟩, hs'⟩

theorem inv_of_alongRun {C : σ → ι → Prop} {Inv : σ → Prop} {rs : List ρ}
    (hstep : ∀ s i r s', Inv s → C s i → step s i = some (r, s') → Inv s') (hs : Inv s)
    (hC : AlongRun step C s is) (hrun : run step s is = some (rs, s')) : Inv s' :=
  (good_of_alongRun (fun _ => True)
    (fun s i r s' hs hi h => ⟨trivial, hstep s i r s' hs hi h⟩) hs hC hrun).2

/-- Progress and preservation, of what may also speak of the inputs so far. -/
theorem run_exists_after {Inv : List ι → σ → Prop}
    (hstep : ∀ is s i, Inv is s → ∃ r s', step s i = some (r, s') ∧ Inv (is ++ [i]) s')
    (hs : Inv js s) : ∃ rs s', run step s is = some (rs, s') ∧ Inv (js ++ is) s' := by
  induction is generalizing s js with
  | nil => exact ⟨[], s, rfl, by rwa [List.append_nil]⟩
  | cons i is ih =>
    obtain ⟨r, s₁, h₁, hs₁⟩ := hstep js s i hs
    obtain ⟨rs, s₂, h₂, hs₂⟩ := ih hs₁
    refine ⟨r :: rs, s₂, ?_, ?_⟩
    · rw [run_cons, h₁, Option.bind_some, h₂, Option.bind_some]
    · rwa [List.append_assoc, List.singleton_append] at hs₂

/-- A machine that takes every step from a good state to a good state never faults. -/
theorem run_exists {Inv : σ → Prop}
    (hstep : ∀ s i, Inv s → ∃ r s', step s i = some (r, s') ∧ Inv s') (hs : Inv s) :
    ∃ rs s', run step s is = some (rs, s') ∧ Inv s' :=
  @run_exists_after σ ι ρ step s is [] (fun _ => Inv) (fun _ => hstep) hs

/-- A condition that decides every step from a good state decides the runs from it. -/
theorem run_iff_alongRun {C : σ → ι → Prop} {Inv : σ → Prop} {Q : ρ → Prop}
    (hstep : ∀ s i, Inv s → C s i → ∃ r s', step s i = some (r, s') ∧ Q r ∧ Inv s')
    (hfault : ∀ s i, Inv s → ¬C s i → step s i = none) (hs : Inv s) :
    (∃ rs s', run step s is = some (rs, s') ∧ ∀ r ∈ rs, Q r) ↔ AlongRun step C s is := by
  induction is generalizing s with
  | nil => exact ⟨fun _ => trivial, fun _ => ⟨[], s, rfl, by simp⟩⟩
  | cons i is ih =>
    rw [run_cons]
    by_cases hC : C s i
    · obtain ⟨r, s₁, h₁, hQ, hs₁⟩ := hstep s i hs hC
      rw [alongRun_cons h₁, h₁, Option.bind_some, ← ih hs₁]
      constructor
      · rintro ⟨rs, s', hrun, hall⟩
        obtain ⟨⟨rs₁, s₂⟩, h₂, hend⟩ := Option.bind_eq_some_iff.mp hrun
        cases hend
        exact ⟨hC, rs₁, s₂, h₂, fun r hr => hall r (List.mem_cons_of_mem _ hr)⟩
      · rintro ⟨-, rs, s', hrun, hall⟩
        refine ⟨r :: rs, s', by rw [hrun, Option.bind_some], ?_⟩
        simpa using ⟨hQ, hall⟩
    · rw [hfault s i hs hC, Option.bind_none]
      exact ⟨fun ⟨_, _, h, _⟩ => (nomatch h), fun h => absurd h.1 hC⟩

/-- The crash rule: where every step from a good state leads to a good state under the
condition and otherwise to a state without steps, a run ends well exactly when all of its
inputs meet the condition. -/
theorem survives_iff_alongRun {C : σ → ι → Prop} {Inv Crashed : σ → Prop} {rs : List ρ}
    (hgood : ∀ s, Inv s → ¬ Crashed s) (hstuck : ∀ s i, Crashed s → step s i = none)
    (hstep : ∀ s i r s', Inv s → C s i → step s i = some (r, s') → Inv s')
    (hcrash : ∀ s i r s', Inv s → ¬ C s i → step s i = some (r, s') → Crashed s') (hs : Inv s)
    (hrun : run step s is = some (rs, s')) : ¬ Crashed s' ↔ AlongRun step C s is := by
  induction is generalizing s rs with
  | nil =>
    cases hrun
    exact iff_of_true (hgood _ hs) trivial
  | cons i is ih =>
    obtain ⟨r, s₁, rs', h₁, h₂, rfl⟩ := run_cons_eq_some hrun
    rw [alongRun_cons h₁]
    by_cases hC : C s i
    · rw [ih (hstep s i r s₁ hs hC h₁) h₂]
      exact ⟨fun h => ⟨hC, h⟩, fun h => h.2⟩
    · have hs₁ := hcrash s i r s₁ hs hC h₁
      cases is with
      | nil =>
        cases h₂
        exact iff_of_false (not_not.mpr hs₁) fun h => hC h.1
      | cons j is =>
        rw [run_cons, hstuck s₁ j hs₁] at h₂
        cases h₂

theorem alongRun_of_forall {C : σ → ι → Prop} (h : ∀ i ∈ is, ∀ s, C s i) (s : σ) :
    AlongRun step C s is := by
  induction is generalizing s with
  | nil => trivial
  | cons i is ih =>
    refine ⟨h i (List.mem_cons_self ..) s, fun r s' _ => ?_⟩
    exact ih (fun j hj => h j (List.mem_cons_of_mem i hj)) s'

/-- What every state with the invariant satisfies holds along each run from such a state. -/
theorem alongRun_of_inv {C : σ → ι → Prop} {Inv : σ → Prop} (hC : ∀ s i, Inv s → C s i)
    (hstep : ∀ s i r s', Inv s → step s i = some (r, s') → Inv s') (hs : Inv s) (is : List ι) :
    AlongRun step C s is := by
  induction is generalizing s with
  | nil => trivial
  | cons i is ih => exact ⟨hC s i hs, fun r s' h => ih (hstep s i r s' hs h)⟩

/-- A condition on the step that, in a good state, is a condition on the input alone
holds along exactly the runs whose inputs meet that. -/
theorem alongRun_iff_forall {C : σ → ι → Prop} {D : ι → Prop} {Inv : σ → Prop}
    (hiff : ∀ s i, i ∈ is → Inv s → (C s i ↔ D i))
    (hstep : ∀ s i, i ∈ is → Inv s → D i → ∃ r s', step s i = some (r, s') ∧ Inv s')
    (hs : Inv s) : AlongRun step C s is ↔ ∀ i ∈ is, D i := by
  induction is generalizing s with
  | nil => exact iff_of_true trivial fun i hi => absurd hi List.not_mem_nil
  | cons i is ih =>
    have hhead : i ∈ i :: is := List.mem_cons_self ..
    have hrest {s : σ} (hs : Inv s) : AlongRun step C s is ↔ ∀ i ∈ is, D i :=
      ih (fun s j hj => hiff s j (List.mem_cons_of_mem i hj))
        (fun s j hj => hstep s j (List.mem_cons_of_mem i hj)) hs
    rw [List.forall_mem_cons, ← hiff s i hhead hs]
    refine and_congr_right fun hC => ?_
    obtain ⟨r, s₁, h₁, hs₁⟩ := hstep s i hhead hs ((hiff s i hhead hs).mp hC)
    rw [← hrest hs₁]
    refine ⟨fun hall => hall r s₁ h₁, fun hall r' s' h' => ?_⟩
    cases h₁.symm.trans h'
    exact hall

theorem throughout_cons {Q : σ → Prop} {r : ρ} (h : step s i = some (r, s')) :
    Throughout step Q s (i :: is) ↔ Q s ∧ Throughout step Q s' is := by
  constructor
  · intro hQ
    refine ⟨hQ [] (List.nil_prefix ..) [] s rfl, fun js hjs rs s₁ hrun => ?_⟩
    apply hQ (i :: js) (List.cons_prefix_cons.mpr ⟨rfl, hjs⟩) (r :: rs) s₁
    rw [run_cons, h, Option.bind_some, hrun, Option.bind_some]
  · rintro ⟨hnow, hrest⟩ js hjs rs s₁ hrun
    rcases List.prefix_cons_iff.mp hjs with rfl | ⟨ks, rfl, hks⟩
    · cases hrun
      exact hnow
    · rw [run_cons, h, Option.bind_some] at hrun
      obtain ⟨⟨rs', s₂⟩, hrun', heq⟩ := Option.bind_eq_some_iff.mp hrun
      cases heq
      exact hrest ks hks rs' _ hrun'

/-- A condition that says of every step whether the property outlives it says of every run
whether the property holds throughout. -/
theorem throughout_iff_alongRun {C D : σ → ι → Prop} {Q : σ → Prop} {rs : List ρ}
    (hstep : ∀ s i r s', Q s → D s i → step s i = some (r, s') → (Q s' ↔ C s i)) (hs : Q s)
    (hD : AlongRun step D s is) (hrun : run step s is = some (rs, s')) :
    Throughout step Q s is ↔ AlongRun step C s is := by
  induction is generalizing s rs with
  | nil =>
    refine iff_of_true (fun js hjs rs s₁ hrun => ?_) trivial
    rw [List.prefix_nil.mp hjs] at hrun
    cases hrun
    exact hs
  | cons i is ih =>
    obtain ⟨r, s₁, rs', h₁, h₂, rfl⟩ := run_cons_eq_some hrun
    have hiff := hstep s i r s₁ hs hD.1 h₁
    rw [throughout_cons h₁, alongRun_cons h₁]
    constructor
    · rintro ⟨-, hall⟩
      have hs₁ : Q s₁ := hall [] (List.nil_prefix ..) [] s₁ rfl
      exact ⟨hiff.mp hs₁, (ih hs₁ (hD.2 r s₁ h₁) h₂).mp hall⟩
    · rintro ⟨hC, hall⟩
      have hs₁ := hiff.mpr hC
      exact ⟨hs, (ih hs₁ (hD.2 r s₁ h₁) h₂).mpr hall⟩

/-- A run follows the abstract steps exactly when each of its steps does. -/
theorem follows_iff_alongRun {view : σ → α} {abs : α → ι → ρ → α} :
    Follows step view abs s is ↔
      AlongRun step (fun s i => ∀ r s', step s i = some (r, s') → view s' = abs (view s) i r)
        s is := by
  induction is generalizing s with
  | nil =>
    refine iff_of_true (fun js hjs rs s' hrun => ?_) trivial
    rw [List.prefix_nil.mp hjs] at hrun ⊢
    cases hrun
    rfl
  | cons i is ih =>
    constructor
    · intro hall
      have hfirst : ∀ r s', step s i = some (r, s') → view s' = abs (view s) i r := by
        intro r s' h
        refine hall [i] ⟨is, rfl⟩ [r] s' ?_
        rw [run_cons, h, Option.bind_some, run_nil, Option.bind_some]
      refine ⟨hfirst, fun r s₁ h => ih.mp fun js hjs rs s' hrun => ?_⟩
      rw [hfirst r s₁ h]
      refine hall (i :: js) (List.cons_prefix_cons.mpr ⟨rfl, hjs⟩) (r :: rs) s' ?_
      rw [run_cons, h, Option.bind_some, hrun, Option.bind_some]
    · rintro ⟨hfirst, hrest⟩ js hjs rs s' hrun
      rcases List.prefix_cons_iff.mp hjs with rfl | ⟨ks, rfl, hks⟩
      · cases hrun
        rfl
      · obtain ⟨r, s₁, rs', h₁, h₂, rfl⟩ := run_cons_eq_some hrun
        rw [List.zip_cons_cons, List.foldl_cons, ← hfirst r s₁ h₁]
        exact ih.mpr (hrest r s₁ h₁) ks hks rs' s' h₂

/-- What a step keeps exactly when its input meets a condition holds at the end of a run
exactly when it held at the beginning and all inputs meet the condition. -/
theorem inv_iff_alongRun {C : σ → ι → Prop} {Q : σ → Prop} {rs : List ρ}
    (hstep : ∀ s i r s', step s i = some (r, s') → (Q s' ↔ Q s ∧ C s i))
    (hrun : run step s is = some (rs, s')) : Q s' ↔ Q s ∧ AlongRun step C s is := by
  induction is generalizing s rs with
  | nil =>
    cases hrun
    exact ⟨fun hs => ⟨hs, trivial⟩, fun hs => hs.1⟩
  | cons i is ih =>
    obtain ⟨r, s₁, rs', h₁, h₂, rfl⟩ := run_cons_eq_some hrun
    rw [ih h₂, hstep s i r s₁ h₁, alongRun_cons h₁, and_assoc]

/-- Results translated in every step are translated at the end. -/
theorem run_map {τ : Type} (f : ρ → τ) :
    run (fun s i => (step s i).map (Prod.map f id)) s is =
      (run step s is).map (Prod.map (List.map f) id) := by
  induction is generalizing s with
  | nil => rfl
  | cons i is ih =>
    rw [run_cons, run_cons]
    cases step s i with
    | none => rfl
    | some p =>
      rw [Option.map_some, Option.bind_some, Option.bind_some]
      show (run _ p.2 is).bind _ = _
      rw [ih]
      cases run step p.2 is with
      | none => rfl
      | some q => rfl

/-- A machine that never faults. -/
theorem run_some (abs : α → ι → ρ × α) (a : α) (is : List ι) :
    run (fun s i => some (abs s i)) a is = some (exec abs a is) := by
  induction is generalizing a with
  | nil => rfl
  | cons i is ih => rw [run_cons, Option.bind_some, ih, Option.bind_some, exec_cons]

theorem exec_append : exec abs a (is ++ js) =
    ((exec abs a is).1 ++ (exec abs (exec abs a is).2 js).1,
      (exec abs (exec abs a is).2 js).2) := by
  induction is generalizing a with
  | nil => rfl
  | cons i is ih => simp only [List.cons_append, exec_cons, ih]

theorem inv_of_exec (Inv : α → Prop) (hstep : ∀ a i, Inv a → Inv (abs a i).2) (ha : Inv a)
    (is : List ι) : Inv (exec abs a is).2 := by
  induction is generalizing a with
  | nil => exact ha
  | cons i is ih => exact ih (hstep a i ha)

theorem along_append : Along abs P a (is ++ js) ↔
    Along abs P a is ∧ Along abs P (exec abs a is).2 js := by
  induction is generalizing a with
  | nil => simp [Along]
  | cons i is ih => simp only [List.cons_append, Along, ih, exec_cons, and_assoc]

theorem along_of_initial (h : Along abs P a is) (hp : js <+: is) : Along abs P a js := by
  obtain ⟨t, rfl⟩ := hp
  exact (along_append.mp h).1

/-- A condition checked at every prefix holds along the run. -/
theorem along_of_forall_initial
    (h : ∀ pre i, pre ++ [i] <+: is → P (exec abs a pre).2 i) : Along abs P a is := by
  induction is using List.reverseRecOn with
  | nil => trivial
  | append_singleton is i ih =>
    rw [along_append]
    refine ⟨ih fun pre j hj => h pre j (hj.trans (List.prefix_append _ _)), ?_, trivial⟩
    exact h is i (List.prefix_refl _)

/-- The condition of a run holds at the end of every proper prefix, of the input after it. -/
theorem along_at {pre : List ι} (h : Along abs P a is) (hp : pre ++ [i] <+: is) :
    P (exec abs a pre).2 i :=
  (along_append.mp (along_of_initial h hp)).2.1

theorem along_of_forall (h : ∀ a i, P a i) (is : List ι) : Along abs P a is := by
  induction is generalizing a with
  | nil => trivial
  | cons i is ih => exact ⟨h a i, ih⟩

/-- The supply rule: when each step takes its output off the front of a supply, the outputs
of a run and what is left at its end are the supply at its beginning. -/
theorem exec_supply {τ : Type} (Inv : α → Prop) (out : ρ → List τ) (supply : α → List τ)
    (hstep : ∀ a i, Inv a →
      Inv (abs a i).2 ∧ out (abs a i).1 ++ supply (abs a i).2 = supply a) (ha : Inv a) :
    Inv (exec abs a is).2 ∧
      (exec abs a is).1.flatMap out ++ supply (exec abs a is).2 = supply a := by
  induction is generalizing a with
  | nil => exact ⟨ha, rfl⟩
  | cons i is ih =>
    obtain ⟨ha', hout⟩ := hstep a i ha
    obtain ⟨hend, hrest⟩ := ih ha'
    rw [exec_cons]
    refine ⟨hend, ?_⟩
    rw [List.flatMap_cons, List.append_assoc, hrest, hout]

/-- **Forward simulation along a run.** -/
theorem run_refines (hstep : Refines step abs R P) (hR : R s a) (hP : Along abs P a is) :
    ∃ s', run step s is = some ((exec abs a is).1, s') ∧ R s' (exec abs a is).2 := by
  induction is generalizing s a with
  | nil => exact ⟨s, rfl, hR⟩
  | cons i is ih =>
    obtain ⟨s₁, h₁, hR₁⟩ := hstep s a i hR hP.1
    obtain ⟨s₂, h₂, hR₂⟩ := ih hR₁ hP.2
    refine ⟨s₂, ?_, hR₂⟩
    rw [run_cons, h₁, Option.bind_some, h₂, Option.bind_some, exec_cons]

/-- A condition checked on the states of the checked machine holds along the abstract
run, when it implies the condition of the simulation. -/
theorem along_of_alongRun {C : σ → ι → Prop} (hstep : Refines step abs R P)
    (hC : ∀ s a i, R s a → C s i → P a i) (hR : R s a) (h : AlongRun step C s is) :
    Along abs P a is := by
  induction is generalizing s a with
  | nil => trivial
  | cons i is ih =>
    have hP := hC s a i hR h.1
    obtain ⟨s', hs', hR'⟩ := hstep s a i hR hP
    exact ⟨hP, ih hR' (h.2 _ _ hs')⟩

/-! ## Loops -/

/-- The loop rule. -/
theorem inv_of_foldlM {f : σ → ι → Option σ} (Inv : σ → Prop)
    (hstep : ∀ s i s', Inv s → f s i = some s' → Inv s') (hs : Inv s)
    (h : is.foldlM f s = some s') : Inv s' := by
  induction is generalizing s with
  | nil =>
    cases h
    exact hs
  | cons i is ih =>
    rw [List.foldlM_cons] at h
    obtain ⟨s₁, h₁, hrest⟩ := Option.bind_eq_some_iff.mp h
    exact ih (hstep s i s₁ hs h₁) hrest

/-- A loop over the indices of a list is a loop over the list. -/
theorem foldlM_range_getElem? (f : σ → ι → Option σ) (s : σ) (is : List ι) {n : Nat}
    (hn : n ≤ is.length) :
    (List.range n).foldlM (fun s j => (is[j]?).bind fun i => f s i) s = (is.take n).foldlM f s := by
  induction n with
  | zero => rfl
  | succ n ih =>
    rw [List.range_succ, List.foldlM_append, ih (by omega),
      List.take_succ_eq_append_getElem hn, List.foldlM_append]
    simp only [List.foldlM_cons, List.foldlM_nil, List.getElem?_eq_getElem hn, Option.bind_some]

theorem foldlM_range_succ (f : σ → Nat → Option σ) (s : σ) (n : Nat) :
    (List.range (n + 1)).foldlM f s = ((List.range n).foldlM f s).bind fun s => f s n := by
  rw [List.range_succ, List.foldlM_append]
  simp only [List.foldlM_cons, List.foldlM_nil, Option.bind_eq_bind, Option.pure_def,
    Option.bind_fun_some]

/-- A counting loop goes from `R 0` to `R n` when its passes go from each to the next. -/
theorem bind_foldlM_range {f : σ → Nat → Option σ} (R : Nat → Option σ) {n : Nat}
    (hstep : ∀ j, j < n → ((R j).bind fun s => f s j) = R (j + 1)) :
    ((R 0).bind fun s => (List.range n).foldlM f s) = R n := by
  induction n with
  | zero =>
    simp only [List.range_zero, List.foldlM_nil, Option.pure_def, Option.bind_fun_some]
  | succ n ih =>
    simp only [foldlM_range_succ]
    rw [← Option.bind_assoc, ih fun j hj => hstep j (by omega)]
    exact hstep n (Nat.lt_succ_self n)

end MyLibraries.Run
