import Mathlib.Data.List.Nodup
import MyLibraries.StateMachine.C
import MyLibraries.StateMachine.Cpp

/-!
# The two state machines agree

A C table and a C++ list correspond when their states do one by one: every callback is
there, every `enter` returns 0, and a callback leaves the environment as its counterpart
does and requests the same state, by index or by hash. Then the machines make the same
calls in every step (`agreement`): the C machine is simulated by the C++ one, with
`mode_changed_n` the negation of `mode_change_n_`.
-/

namespace MyLibraries.StateMachine

open Run

variable {σ δ : Type}

/-- The hash of the state with index `i`. -/
def hashAt (list : List (State σ δ)) (i : Int) : UInt32 :=
  ((list[i.toNat]?).map State.stateHash).getD 0

/-- A result of the C machine as one of the C++ machine. -/
def targetHash (list : List (State σ δ)) (r : Int) : UInt32 :=
  if r = 0 then 0 else hashAt list (r - 1)

/-- A call of the C machine as one of the C++ machine. -/
def toCpp (list : List (State σ δ)) (c : Call Int Int) : Call UInt32 UInt32 :=
  ⟨c.kind, hashAt list c.state, targetHash list c.ret⟩

/-- The results are 0, or the index from 1 and the hash of one state. -/
def SameTarget (list : List (State σ δ)) (r : Int) (hash : UInt32) : Prop :=
  (r = 0 ∧ hash = 0) ∨
    ∃ (i : Nat) (p : State σ δ), list[i]? = some p ∧ r = i + 1 ∧ hash = p.stateHash

/-- A state of the table and a state of the list. -/
structure Corresponds (list : List (State σ δ)) (st : MachineState σ) (p : State σ δ) :
    Prop where
  enter : ∃ f, st.enter = some f ∧
    ∀ s, (f s).1 = 0 ∧ p.enter p.userData s = (0, (f s).2)
  work : ∃ f, st.work = some f ∧ ∀ s, (p.work p.userData s).2 = (f s).2 ∧
    SameTarget list (f s).1 (p.work p.userData s).1
  exit : ∃ f, st.exit = some f ∧ ∀ s, (p.exit p.userData s).2 = (f s).2 ∧
    SameTarget list (f s).1 (p.exit p.userData s).1

/-- The table and the list correspond, and the hashes are distinct and not zero. -/
structure Agree (table : List (MachineState σ)) (list : List (State σ δ)) : Prop where
  nonempty : list ≠ []
  length : table.length = list.length
  states : ∀ (i : Nat) st p, table[i]? = some st → list[i]? = some p → Corresponds list st p
  nonzero : ∀ p ∈ list, p.stateHash ≠ 0
  distinct : (list.map State.stateHash).Nodup

/-- The machines are in the same state, with the flags of opposite polarity. -/
structure SameState (table : List (MachineState σ)) (list : List (State σ δ))
    (a : StateMachineT σ × σ) (b : Machine σ δ × σ) : Prop where
  table : a.1.states = table
  states : b.1.states = list
  current : ∃ i : Nat, a.1.stateN = i ∧ list[i]? = some b.1.current
  flag : a.1.modeChangedN = if b.1.modeChangeN then 0 else 1
  env : a.2 = b.2

variable {table : List (MachineState σ)} {list : List (State σ δ)} {st : MachineState σ}
  {p q : State σ δ} {m : StateMachineT σ} {M : Machine σ δ} {i : Nat} {r : Int} {hash : UInt32}

theorem hashAt_index (h : list[i]? = some p) : hashAt list i = p.stateHash := by
  rw [hashAt, Int.toNat_natCast, h]
  rfl

theorem targetHash_same (h : SameTarget list r hash) : targetHash list r = hash := by
  rcases h with ⟨rfl, rfl⟩ | ⟨i, p, hp, rfl, rfl⟩
  · rfl
  · rw [targetHash, if_neg (by omega), Int.add_sub_cancel]
    exact hashAt_index hp

/-- The hash of a listed state finds it. -/
theorem findStateByHash_distinct (hM : M.states = list)
    (hdistinct : (list.map State.stateHash).Nodup) (hq : list[i]? = some q) :
    M.findStateByHash q.stateHash = some q := by
  subst hM
  obtain ⟨x, hx, hfind, hhash⟩ := findStateByHash_listed M q.stateHash
    ⟨q, List.mem_of_getElem? hq, rfl⟩
  rw [hfind, List.inj_on_of_nodup_map hdistinct hx (List.mem_of_getElem? hq) hhash]

/-- The second blocks agree, when the residency has begun. -/
theorem doWork_agree (h : Agree table list) (hm : m.states = table) (hM : M.states = list)
    (hi : m.stateN = i) (hp : list[i]? = some M.current) (hst : table[i]? = some st)
    (hflag : m.modeChangedN = 1) (hFlag : M.modeChangeN = false) (s : σ)
    (calls : List (Call UInt32 UInt32)) :
    (M.doWork s calls).1 = ⟨0, calls ++ (m.doWork st s).1.map (toCpp list)⟩ ∧
      SameState table list (m.doWork st s).2 (M.doWork s calls).2 := by
  obtain ⟨-, ⟨work, hwork, hworks⟩, ⟨exit, hexit, hexits⟩⟩ := h.states i st M.current hst hp
  have hhash : hashAt list m.stateN = M.current.stateHash := by
    rw [hi]
    exact hashAt_index hp
  obtain ⟨henv, htarget⟩ := hworks s
  obtain ⟨r, s₁, hc⟩ : ∃ r s₁, work s = (r, s₁) := ⟨_, _, rfl⟩
  obtain ⟨next, s₁', hcpp⟩ : ∃ next s₁', M.current.work M.current.userData s = (next, s₁') :=
    ⟨_, _, rfl⟩
  rw [hc, hcpp] at henv htarget
  obtain rfl : s₁' = s₁ := henv
  have hcall : toCpp list ⟨.work, m.stateN, r⟩ = ⟨.work, M.current.stateHash, next⟩ := by
    rw [toCpp, hhash, targetHash_same htarget]
  simp only [StateMachineT.doWork, Machine.doWork, hwork, hc, hcpp]
  rcases htarget with ⟨rfl, rfl⟩ | ⟨j, q, hq, rfl, rfl⟩
  · simp only [gt_iff_lt, Int.lt_irrefl, if_false, ne_eq, not_true_eq_false, hFlag,
      Bool.false_eq_true]
    refine ⟨?_, hm, hM, ⟨i, hi, hp⟩, ?_, rfl⟩
    · rw [List.map_cons, List.map_nil, hcall]
    · rw [hFlag]
      exact hflag
  · have hpos : (j : Int) + 1 > 0 := by omega
    have hnonzero := h.nonzero q (List.mem_of_getElem? hq)
    have hfind := findStateByHash_distinct hM h.distinct hq
    obtain ⟨henv', htarget'⟩ := hexits s₁'
    obtain ⟨ret, s₂, hc'⟩ : ∃ ret s₂, exit s₁' = (ret, s₂) := ⟨_, _, rfl⟩
    obtain ⟨next, s₂', hcpp'⟩ : ∃ next s₂', M.current.exit M.current.userData s₁' = (next, s₂') :=
      ⟨_, _, rfl⟩
    rw [hc', hcpp'] at henv' htarget'
    obtain rfl : s₂' = s₂ := henv'
    have hcall' : toCpp list ⟨.exit, m.stateN, ret⟩ = ⟨.exit, M.current.stateHash, next⟩ := by
      rw [toCpp, hhash, targetHash_same htarget']
    simp only [StateMachineT.leave, hexit, hpos, if_true, ne_eq, hnonzero, not_false_eq_true,
      hfind, hc', hcpp']
    rcases htarget' with ⟨rfl, rfl⟩ | ⟨k, x, hx, rfl, rfl⟩
    · simp only [gt_iff_lt, Int.lt_irrefl, if_false, not_true_eq_false]
      refine ⟨?_, hm, hM, ⟨j, by simp, hq⟩, rfl, rfl⟩
      rw [List.map_cons, List.map_cons, List.map_nil, hcall, hcall', List.append_assoc]
      rfl
    · have hpos' : (k : Int) + 1 > 0 := by omega
      have hnonzero' := h.nonzero x (List.mem_of_getElem? hx)
      have hfind' := findStateByHash_distinct hM h.distinct hx
      simp only [hpos', if_true, hnonzero', not_false_eq_true, hfind']
      refine ⟨?_, hm, hM, ⟨k, by simp, hx⟩, rfl, rfl⟩
      rw [List.map_cons, List.map_cons, List.map_nil, hcall, hcall', List.append_assoc]
      rfl

/-- A step of the C machine with its calls as those of the C++ machine. -/
def cStepAsCpp (list : List (State σ δ)) (a : StateMachineT σ × σ) (u : Unit) :
    Option (Reply × StateMachineT σ × σ) :=
  (cStep a u).map (Prod.map (fun calls => ⟨0, calls.map (toCpp list)⟩) id)

/-- **One step.** -/
theorem doStep_agree (h : Agree table list) :
    Refines (cStepAsCpp list) (fun (b : Machine σ δ × σ) _ => b.1.doStep b.2)
      (SameState table list) (fun _ _ => True) := by
  rintro ⟨m, s⟩ ⟨M, s'⟩ ⟨⟩ ⟨hm, hM, ⟨i, hi, hp⟩, hflag, henv⟩ -
  dsimp only at hm hM hi hp hflag henv
  subst henv
  have hlt : i < table.length := by
    rw [h.length]
    exact (List.getElem?_eq_some_iff.mp hp).1
  have hst : table[i]? = some table[i] := List.getElem?_eq_getElem hlt
  have hcurrent : stateAt m.states m.stateN = some table[i] := by
    rw [hm, hi, stateAt, if_neg (by omega), Int.toNat_natCast, hst]
  obtain ⟨enter, henter, henters⟩ := (h.states i _ _ hst hp).enter
  simp only [cStepAsCpp, cStep, stateMachineDoStep, hcurrent, henter, Option.bind_eq_bind,
    Option.bind_some]
  cases hmode : M.modeChangeN with
  | false =>
    rw [hmode] at hflag
    have hne : ¬ m.modeChangedN = 0 := by
      rw [hflag]
      decide
    obtain ⟨hreply, hsame⟩ := doWork_agree h hm hM hi hp hst hflag hmode s []
    simp only [hne, if_false, Option.map_some, Machine.doStep, hmode, Bool.false_eq_true]
    refine ⟨_, ?_, hsame⟩
    rw [hreply]
    rfl
  | true =>
    rw [hmode] at hflag
    have hzero : m.modeChangedN = 0 := hflag
    obtain ⟨hret, hcpp⟩ := henters s
    obtain ⟨r, s₁, hc⟩ : ∃ r s₁, enter s = (r, s₁) := ⟨_, _, rfl⟩
    rw [hc] at hret hcpp
    obtain rfl : r = 0 := hret
    have hcall : toCpp list ⟨.enter, m.stateN, 0⟩ = ⟨.enter, M.current.stateHash, 0⟩ := by
      rw [toCpp, hi, hashAt_index hp]
      rfl
    obtain ⟨hreply, hsame⟩ := doWork_agree (m := { m with modeChangedN := 1 })
      (M := { M with modeChangeN := false }) h hm hM hi hp hst rfl rfl s₁
      [⟨.enter, M.current.stateHash, 0⟩]
    simp only [hzero, if_true, hc, gt_iff_lt, Int.lt_irrefl, if_false, Option.map_some,
      Machine.doStep, hmode, hcpp, ne_eq, not_true_eq_false]
    refine ⟨_, ?_, hsame⟩
    rw [hreply]
    refine congrArg some (Prod.ext ?_ rfl)
    show Reply.mk 0 (List.map (toCpp list) (⟨.enter, m.stateN, 0⟩ :: _)) = _
    rw [List.map_cons, hcall]
    rfl

/-- **Agreement.** Corresponding machines, after any number of steps from the start, have
made the same calls in every step and are in the same state. -/
theorem agreement (table : List (MachineState σ)) (list : List (State σ δ))
    (h : Agree table list) (s : σ) (n : Nat) :
    ∃ replies a b,
      run cStep (stateMachineInit table, s) (List.replicate n ()) = some (replies, a) ∧
      run cppStep (Machine.new list h.nonempty, s) (List.replicate n ()) =
        some (replies.map fun calls => ⟨0, calls.map (toCpp list)⟩, b) ∧
      SameState table list a b := by
  have hstart : SameState table list (stateMachineInit table, s)
      (Machine.new list h.nonempty, s) :=
    ⟨rfl, rfl, ⟨0, rfl, (List.head?_eq_getElem? (l := list)).symm.trans
      (List.head?_eq_some_head h.nonempty)⟩, rfl, rfl⟩
  obtain ⟨a, hrun, hsame⟩ := run_refines (doStep_agree h) hstart
    (along_of_forall (fun _ _ => trivial) (List.replicate n ()))
  have hmap : run (cStepAsCpp list) (stateMachineInit table, s) (List.replicate n ()) =
      (run cStep (stateMachineInit table, s) (List.replicate n ())).map
        (Prod.map (List.map fun calls => ⟨0, calls.map (toCpp list)⟩) id) := run_map _
  rw [hrun] at hmap
  obtain ⟨⟨replies, a'⟩, hc, hpair⟩ := Option.map_eq_some_iff.mp hmap.symm
  obtain ⟨hreplies, rfl⟩ := Prod.ext_iff.mp hpair
  refine ⟨replies, a', _, hc, ?_, hsame⟩
  have hcpp := run_some (fun (b : Machine σ δ × σ) (_ : Unit) => b.1.doStep b.2)
    (Machine.new list h.nonempty, s) (List.replicate n ())
  exact hcpp.trans (congrArg some (Prod.ext hreplies.symm rfl))

/-- Two states that request each other, the second one by its exit. -/
theorem agreement_two_states : ∃ replies a b,
    run cStep (stateMachineInit
      [⟨some fun s : Unit => (0, s), some fun s => (2, s), some fun s => (0, s)⟩,
        ⟨some fun s => (0, s), some fun s => (2, s), some fun s => (1, s)⟩], ())
      (List.replicate 2 ()) = some (replies, a) ∧
    run cppStep (Machine.new
      [⟨10, (), fun _ s => (0, s), fun _ s => (20, s), fun _ s => (0, s)⟩,
        ⟨20, (), fun _ s => (0, s), fun _ s => (20, s), fun _ s => (10, s)⟩] (by simp), ())
      (List.replicate 2 ()) =
        some ([⟨0, [⟨.enter, 10, 0⟩, ⟨.work, 10, 20⟩, ⟨.exit, 10, 0⟩]⟩,
          ⟨0, [⟨.enter, 20, 0⟩, ⟨.work, 20, 20⟩, ⟨.exit, 20, 10⟩]⟩], b) ∧
    a.1.stateN = 0 ∧ b.1.current.stateHash = 10 := by
  have h : Agree
      [⟨some fun s : Unit => (0, s), some fun s => (2, s), some fun s => (0, s)⟩,
        ⟨some fun s => (0, s), some fun s => (2, s), some fun s => (1, s)⟩]
      [(⟨10, (), fun _ s => (0, s), fun _ s => (20, s), fun _ s => (0, s)⟩ : State Unit Unit),
        ⟨20, (), fun _ s => (0, s), fun _ s => (20, s), fun _ s => (10, s)⟩] := by
    refine ⟨by simp, rfl, ?_, by simp, by simp⟩
    intro i st p hst hp
    match i, hst, hp with
    | 0, rfl, rfl =>
      exact ⟨⟨_, rfl, fun _ => ⟨rfl, rfl⟩⟩, ⟨_, rfl, fun _ => ⟨rfl, Or.inr ⟨1, _, rfl, rfl, rfl⟩⟩⟩,
        ⟨_, rfl, fun _ => ⟨rfl, Or.inl ⟨rfl, rfl⟩⟩⟩⟩
    | 1, rfl, rfl =>
      exact ⟨⟨_, rfl, fun _ => ⟨rfl, rfl⟩⟩, ⟨_, rfl, fun _ => ⟨rfl, Or.inr ⟨1, _, rfl, rfl, rfl⟩⟩⟩,
        ⟨_, rfl, fun _ => ⟨rfl, Or.inr ⟨0, _, rfl, rfl, rfl⟩⟩⟩⟩
  obtain ⟨replies, a, b, hc, hcpp, hsame⟩ := agreement _ _ h () 2
  cases hc
  exact ⟨_, _, b, rfl, hcpp, rfl, by cases hcpp; rfl⟩

end MyLibraries.StateMachine
