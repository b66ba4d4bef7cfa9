import MyLibraries.Core.Segment
import MyLibraries.StateMachine.Model

/-!
# The lifecycle of the C state machine

As for the C++ machine, the trace of a run is complete residencies and then one that goes
on (`c_lifecycle`). Here every callback may be missing, a redirect by `enter` is followed
by the exit transition too, and `mode_changed_n` is set only when there is an `enter`: for
a state without one it stays 0, and nothing depends on it.
-/

namespace MyLibraries.StateMachine

open Run Segment

variable {σ : Type}

/-- The exit transition on the result `target` of `enter` or `work`: one call of `exit`
when it is there, and the index that follows. -/
inductive Exits (st : MachineState σ) (i target : Int) : List (Call Int Int) → Int → Prop
  | absent : st.exit = none → Exits st i target [] (target - 1)
  | present (ret : Int) : st.exit.isSome → Exits st i target [⟨.exit, i, ret⟩]
      (if ret > 0 then ret - 1 else target - 1)

/-- How a residency that goes on begins: with one call of `enter` when it is there. -/
inductive Opens (st : MachineState σ) (i : Int) : List (Call Int Int) → Prop
  | absent : st.enter = none → Opens st i []
  | present (r : Int) : st.enter.isSome → r ≤ 0 → Opens st i [⟨.enter, i, r⟩]

/-- Works that request nothing. -/
def Works (st : MachineState σ) (i : Int) (works : List (Call Int Int)) : Prop :=
  ∀ c ∈ works, st.work.isSome ∧ c.kind = .work ∧ c.state = i ∧ c.ret ≤ 0

/-- The calls of one residency in the state `i`, and the state that follows. -/
inductive CResidency (table : List (MachineState σ)) : Int → List (Call Int Int) → Int → Prop
  | redirect {i r j : Int} {st : MachineState σ} {exits : List (Call Int Int)} :
      stateAt table i = some st → st.enter.isSome → 0 < r → Exits st i r exits j →
      CResidency table i (⟨.enter, i, r⟩ :: exits) j
  | visit {i r j : Int} {st : MachineState σ} {opening works exits : List (Call Int Int)} :
      stateAt table i = some st → Opens st i opening → Works st i works → st.work.isSome →
      0 < r → Exits st i r exits j →
      CResidency table i (opening ++ works ++ ⟨.work, i, r⟩ :: exits) j

/-- The calls of a residency in the state `i` that goes on; none when it has not begun. -/
inductive CGoing (table : List (MachineState σ)) (i : Int) : List (Call Int Int) → Prop
  | fresh : CGoing table i []
  | working {st : MachineState σ} {opening works : List (Call Int Int)} :
      stateAt table i = some st → Opens st i opening → Works st i works →
      CGoing table i (opening ++ works)

/-- The positive results of the callbacks of a state are indices of the table, from 1. -/
structure Indexed (table : List (MachineState σ)) (st : MachineState σ) : Prop where
  enter : ∀ f, st.enter = some f → ∀ s, (f s).1 ≤ table.length
  work : ∀ f, st.work = some f → ∀ s, (f s).1 ≤ table.length
  exit : ∀ f, st.exit = some f → ∀ s, (f s).1 ≤ table.length

/-- One call of `state_machine_do_step`. -/
def cStep (a : StateMachineT σ × σ) (_ : Unit) :
    Option (List (Call Int Int) × StateMachineT σ × σ) :=
  stateMachineDoStep a.1 a.2

/-- The machine is in a residency with the calls `u`. -/
structure CResides (table : List (MachineState σ)) (u : List (Call Int Int))
    (a : StateMachineT σ × σ) : Prop where
  list : a.1.states = table
  going : CGoing table a.1.stateN u
  current : ∃ st, stateAt table a.1.stateN = some st ∧
    (a.1.modeChangedN = 0 ↔ st.enter = none ∨ u = [])

/-- From the calls `u` of a residency in the state `i`, a step goes on with it or ends it. -/
def CStepsTo (table : List (MachineState σ)) (i : Int) (u : List (Call Int Int))
    (res : List (Call Int Int) × StateMachineT σ × σ) : Prop :=
  (res.2.1.stateN = i ∧ CResides table (u ++ res.1) res.2) ∨
    (CResidency table i (u ++ res.1) res.2.1.stateN ∧ CResides table [] res.2)

variable {table : List (MachineState σ)} {st : MachineState σ} {m : StateMachineT σ}
  {u works opening calls : List (Call Int Int)} {i next : Int} {s : σ}

theorem works_nil (st : MachineState σ) (i : Int) : Works st i [] :=
  fun _ hc => absurd hc List.not_mem_nil

theorem stateAt_index (h : 0 < next) (hle : next ≤ table.length) :
    ∃ st ∈ table, stateAt table (next - 1) = some st := by
  have hlt : (next - 1).toNat < table.length := by omega
  refine ⟨table[(next - 1).toNat], List.getElem_mem hlt, ?_⟩
  rw [stateAt, if_neg (by omega), List.getElem?_eq_getElem hlt]

theorem stateAt_mem (h : stateAt table i = some st) : st ∈ table := by
  unfold stateAt at h
  split at h
  · cases h
  · exact List.mem_of_getElem? h

/-- The exit transition, which begins a residency elsewhere, or in the same state again. -/
theorem leave_exits (hb : Indexed table st) (hm : m.states = table) (hpos : 0 < next)
    (hle : next ≤ table.length) :
    Exits st i next (m.leave st i next s).1 (m.leave st i next s).2.1.stateN ∧
      CResides table [] (m.leave st i next s).2 := by
  have hfresh : ∀ (m' : StateMachineT σ) s' j, m'.states = table → m'.modeChangedN = 0 →
      m'.stateN = j - 1 → 0 < j → j ≤ table.length → CResides table [] (m', s') := by
    intro m' s' j hm' hflag hj hjpos hjle
    obtain ⟨st', -, hst'⟩ := stateAt_index hjpos hjle
    refine ⟨hm', CGoing.fresh, st', ?_, by simp [hflag]⟩
    show stateAt table m'.stateN = some st'
    rw [hj]
    exact hst'
  unfold StateMachineT.leave
  cases hexit : st.exit with
  | none => exact ⟨Exits.absent hexit, hfresh _ _ next hm rfl rfl hpos hle⟩
  | some exit =>
    obtain ⟨ret, s', hcall⟩ : ∃ ret s', exit s = (ret, s') := ⟨_, _, rfl⟩
    have hover := hb.exit exit hexit s
    have hpresent : Exits st i next [⟨.exit, i, ret⟩]
        (if ret > 0 then ret - 1 else next - 1) :=
      Exits.present ret (by rw [hexit]; rfl)
    simp only [hcall] at hover ⊢
    by_cases hgt : ret > 0
    · rw [if_pos hgt] at hpresent ⊢
      exact ⟨hpresent, hfresh _ _ ret hm rfl rfl hgt hover⟩
    · rw [if_neg hgt] at hpresent ⊢
      exact ⟨hpresent, hfresh _ _ next hm rfl rfl hpos hle⟩

/-- The second block, when the residency has begun. -/
theorem doWork_csteps (hb : Indexed table st) (hm : m.states = table)
    (hst : stateAt table m.stateN = some st) (hflag : m.modeChangedN = 0 ↔ st.enter = none)
    (hopening : Opens st m.stateN opening) (hworks : Works st m.stateN works) (s : σ) :
    CStepsTo table m.stateN (opening ++ works) (m.doWork st s) := by
  have hbegun : ∀ works', Works st m.stateN works' → ∀ s',
      CResides table (opening ++ works') (m, s') := by
    intro works' hworks' s'
    refine ⟨hm, CGoing.working hst hopening hworks', st, hst, ?_⟩
    rw [hflag]
    constructor
    · exact Or.inl
    · rintro (hnone | hnil)
      · exact hnone
      · cases hopening with
        | absent hnone => exact hnone
        | present r _ _ => simp at hnil
  unfold StateMachineT.doWork
  cases hwork : st.work with
  | none =>
    refine Or.inl ⟨rfl, ?_⟩
    rw [List.append_nil]
    exact hbegun works hworks s
  | some work =>
    obtain ⟨next, s₁, hcall⟩ : ∃ next s₁, work s = (next, s₁) := ⟨_, _, rfl⟩
    have hnext := hb.work work hwork s
    have hsome : st.work.isSome := by
      rw [hwork]
      rfl
    rw [hcall] at hnext
    simp only [hcall]
    by_cases hgt : next > 0
    · obtain ⟨hexits, hfresh⟩ := leave_exits (i := m.stateN) (s := s₁) hb hm hgt hnext
      rw [if_pos hgt]
      exact Or.inr ⟨CResidency.visit hst hopening hworks hsome hgt hexits, hfresh⟩
    · rw [if_neg hgt]
      refine Or.inl ⟨rfl, ?_⟩
      rw [List.append_assoc]
      refine hbegun _ ?_ s₁
      intro c hc
      rcases List.mem_append.mp hc with hc | hc
      · exact hworks c hc
      · obtain rfl := List.mem_singleton.mp hc
        exact ⟨hsome, rfl, rfl, Int.not_lt.mp hgt⟩

/-- **One step of `state_machine_do_step`.** -/
theorem doStep_csteps (hb : ∀ st ∈ table, Indexed table st) {a : StateMachineT σ × σ}
    (ha : CResides table u a) : ∃ res, stateMachineDoStep a.1 a.2 = some res ∧
      CStepsTo table a.1.stateN u res := by
  obtain ⟨m, s⟩ := a
  obtain ⟨hm, hgoing, st, hst, hflag⟩ := ha
  have hindexed := hb st (stateAt_mem hst)
  have hcurrent : stateAt m.states m.stateN = some st := hm ▸ hst
  simp only [stateMachineDoStep, hcurrent, Option.bind_eq_bind, Option.bind_some]
  -- a residency that has begun goes on with the second block
  have hgo : u ≠ [] ∨ st.enter = none → (m.modeChangedN = 0 ↔ st.enter = none) →
      CStepsTo table m.stateN u (m.doWork st s) := by
    intro hbegun hflag'
    cases hgoing with
    | fresh =>
      have hnone := hbegun.resolve_left (fun h => h rfl)
      exact doWork_csteps hindexed hm hst hflag' (Opens.absent hnone) (works_nil st m.stateN) s
    | working hst' hopening hworks =>
      obtain rfl := Option.some.inj (hst.symm.trans hst')
      exact doWork_csteps hindexed hm hst hflag' hopening hworks s
  cases henter : st.enter with
  | none => exact ⟨_, rfl, hgo (Or.inr henter) (by simp [hflag, henter])⟩
  | some enter =>
    have hne : st.enter ≠ none := by
      rw [henter]
      exact Option.some_ne_none _
    by_cases hzero : m.modeChangedN = 0
    · obtain rfl : u = [] := (hflag.mp hzero).resolve_left hne
      obtain ⟨next, s₁, hcall⟩ : ∃ next s₁, enter s = (next, s₁) := ⟨_, _, rfl⟩
      have hnext := hindexed.enter enter henter s
      have hsome : st.enter.isSome := by
        rw [henter]
        rfl
      rw [hcall] at hnext
      simp only [hzero, hcall, if_true]
      by_cases hgt : next > 0
      · obtain ⟨hexits, hfresh⟩ := leave_exits (i := m.stateN) (s := s₁) hindexed hm hgt hnext
        rw [if_pos hgt]
        exact ⟨_, rfl, Or.inr ⟨CResidency.redirect hst hsome hgt hexits, hfresh⟩⟩
      · rw [if_neg hgt]
        have hopens := Opens.present (i := m.stateN) next hsome (by omega)
        exact ⟨_, rfl, doWork_csteps (m := { m with modeChangedN := 1 }) hindexed hm hst
          (by simp [hne]) hopens (works_nil st m.stateN) s₁⟩
    · have hbegun : u ≠ [] := by
        intro hnil
        exact hzero (hflag.mpr (Or.inr hnil))
      simp only [hzero, if_false]
      exact ⟨_, rfl, hgo (Or.inl hbegun) (by simp [hzero, hne])⟩

/-- **The lifecycle.** For every table of states, where callbacks may be missing and the
positive results of those that are there are indices of the table, every run of
`state_machine_do_step` stays inside the table, and its trace is complete residencies and
then one that goes on. -/
theorem c_lifecycle (table : List (MachineState σ)) (hne : table ≠ [])
    (hb : ∀ st ∈ table, Indexed table st) (s : σ) (n : Nat) :
    ∃ replies m s' trace going,
      run cStep (stateMachineInit table, s) (List.replicate n ()) = some (replies, (m, s')) ∧
      replies.flatten = trace ++ going ∧
      Segments (CResidency table) 0 trace m.stateN ∧ CGoing table m.stateN going := by
  have hpos := List.length_pos_iff.mpr hne
  obtain ⟨st, -, hst⟩ : ∃ st ∈ table, stateAt table (1 - 1) = some st :=
    stateAt_index (by omega) (by omega)
  have hstart : CResides table [] (stateMachineInit table, s) :=
    ⟨rfl, CGoing.fresh, st, hst, by simp [stateMachineInit]⟩
  have hstep : ∀ (a : StateMachineT σ × σ) u i, CResides table u a →
      ∃ r a', cStep a i = some (r, a') ∧ True ∧
        ((a'.1.stateN = a.1.stateN ∧ CResides table (u ++ r) a') ∨
          (CResidency table a.1.stateN (u ++ r) a'.1.stateN ∧ CResides table [] a')) := by
    intro a u i ha
    obtain ⟨⟨r, a'⟩, hres, hsteps⟩ := doStep_csteps hb ha
    exact ⟨r, a', hres, trivial, hsteps⟩
  obtain ⟨replies, ⟨m, s'⟩, trace, going, hrun, -, htrace, hsegs, hopen⟩ :=
    run_segments id (fun a => a.1.stateN) (fun a u => CResides table u a) (fun _ => True) hstep
      hstart (List.replicate n ())
  refine ⟨replies, m, s', trace, going, hrun, ?_, hsegs, hopen.going⟩
  rw [← htrace, List.nil_append, List.flatMap_id]

/-- One state without an exit, whose work requests the same state: it is entered again. -/
theorem c_lifecycle_same_state : ∃ replies m s' trace going,
    run cStep (stateMachineInit [⟨some fun s : Unit => (0, s), some fun s => (1, s), none⟩], ())
      (List.replicate 2 ()) = some (replies, (m, s')) ∧
    replies.flatten = [⟨.enter, 0, 0⟩, ⟨.work, 0, 1⟩, ⟨.enter, 0, 0⟩, ⟨.work, 0, 1⟩] ∧
    replies.flatten = trace ++ going ∧
    Segments (CResidency [⟨some fun s : Unit => (0, s), some fun s => (1, s), none⟩]) 0 trace
      m.stateN := by
  obtain ⟨replies, m, s', trace, going, hrun, htrace, hsegs, -⟩ := c_lifecycle
    [⟨some fun s : Unit => (0, s), some fun s => (1, s), none⟩] (by simp)
    (by
      intro st hst
      obtain rfl := List.mem_singleton.mp hst
      exact ⟨by simp, by simp, by simp⟩) () 2
  refine ⟨replies, m, s', trace, going, hrun, ?_, htrace, hsegs⟩
  cases hrun
  rfl

end MyLibraries.StateMachine
