import MyLibraries.Core.Segment
import MyLibraries.StateMachine.Model

/-!
# The lifecycle of the C++ state machine

A residency is what happens from the arrival in a state to the departure from it. The
trace of a run is complete residencies and then one that goes on (`lifecycle`). The flag
`mode_change_n_` says that the residency has not begun; so after the first block it is
never set, and the exit block at the end of `DoStep` is not reached.
-/

namespace MyLibraries.StateMachine

open Run Segment

variable {σ δ : Type}

/-- The calls of one residency in the state `h`, and the state that follows. -/
inductive Residency : UInt32 → List (Call UInt32 UInt32) → UInt32 → Prop
  | redirect (h target : UInt32) : target ≠ 0 → Residency h [⟨.enter, h, target⟩] target
  | visit (h target ret : UInt32) (n : Nat) : target ≠ 0 →
      Residency h (⟨.enter, h, 0⟩ :: List.replicate n ⟨.work, h, 0⟩ ++
        [⟨.work, h, target⟩, ⟨.exit, h, ret⟩]) (if ret ≠ 0 then ret else target)

/-- The calls of a residency in the state `h` that goes on; none when it has not begun. -/
inductive Going : UInt32 → List (Call UInt32 UInt32) → Prop
  | fresh (h : UInt32) : Going h []
  | working (h : UInt32) (n : Nat) :
      Going h (⟨.enter, h, 0⟩ :: List.replicate n ⟨.work, h, 0⟩)

/-- An exit comes right after a work of the same state that requested a transition, and a
work after the enter that returned 0, with only works that returned 0 between. -/
def Preceded (pre : List (Call UInt32 UInt32)) (c : Call UInt32 UInt32) : Prop :=
  match c.kind with
  | .enter => True
  | .work => ∃ before n,
      pre = before ++ ⟨.enter, c.state, 0⟩ :: List.replicate n ⟨.work, c.state, 0⟩
  | .exit => ∃ before target, target ≠ 0 ∧ pre = before ++ [⟨.work, c.state, target⟩]

/-- The results of the callbacks of a state are 0 or hashes of listed states. -/
structure Listed (states : List (State σ δ)) (st : State σ δ) : Prop where
  enter : ∀ s, (st.enter st.userData s).1 = 0 ∨
    ∃ p ∈ states, p.stateHash = (st.enter st.userData s).1
  work : ∀ s, (st.work st.userData s).1 = 0 ∨
    ∃ p ∈ states, p.stateHash = (st.work st.userData s).1
  exit : ∀ s, (st.exit st.userData s).1 = 0 ∨
    ∃ p ∈ states, p.stateHash = (st.exit st.userData s).1

/-- One call of `DoStep`. -/
def cppStep (a : Machine σ δ × σ) (_ : Unit) : Option (Reply × Machine σ δ × σ) :=
  some (a.1.doStep a.2)

/-- The machine is in a residency with the calls `u`. -/
structure Resides (states : List (State σ δ)) (u : List (Call UInt32 UInt32))
    (a : Machine σ δ × σ) : Prop where
  list : a.1.states = states
  listed : a.1.current ∈ states
  going : Going a.1.current.stateHash u
  flag : a.1.modeChangeN = true ↔ u = []

/-- From the calls `u` of a residency in the state `h`, a step goes on with it or ends it. -/
def StepsTo (states : List (State σ δ)) (h : UInt32) (u : List (Call UInt32 UInt32))
    (res : Reply × Machine σ δ × σ) : Prop :=
  res.1.ret = 0 ∧
    ((res.2.1.current.stateHash = h ∧ Resides states (u ++ res.1.calls) res.2) ∨
      (Residency h (u ++ res.1.calls) res.2.1.current.stateHash ∧ Resides states [] res.2))

/-! ## What comes before a call -/

theorem preceded_looksBack : LooksBack Preceded := by
  intro before pre c h
  unfold Preceded at h ⊢
  cases hk : c.kind with
  | enter => trivial
  | work =>
    rw [hk] at h
    obtain ⟨first, n, rfl⟩ := h
    exact ⟨before ++ first, n, (List.append_assoc _ _ _).symm⟩
  | exit =>
    rw [hk] at h
    obtain ⟨first, target, htarget, rfl⟩ := h
    exact ⟨before ++ first, target, htarget, (List.append_assoc _ _ _).symm⟩

theorem Going.guarded {h : UInt32} {u : List (Call UInt32 UInt32)} (hu : Going h u) :
    Guarded Preceded u := by
  cases hu with
  | fresh => exact guarded_nil
  | working n =>
    induction n with
    | zero => exact Guarded.snoc guarded_nil trivial
    | succ n ih =>
      rw [List.replicate_succ', ← List.cons_append]
      exact ih.snoc ⟨[], n, rfl⟩

theorem Residency.guarded {h h' : UInt32} {u : List (Call UInt32 UInt32)}
    (hu : Residency h u h') : Guarded Preceded u := by
  cases hu with
  | redirect => exact Guarded.snoc guarded_nil trivial
  | visit target ret n htarget =>
    have hwork : Guarded Preceded (⟨.enter, h, 0⟩ :: List.replicate n ⟨.work, h, 0⟩ ++
        [⟨.work, h, target⟩]) := (Going.working h n).guarded.snoc ⟨[], n, rfl⟩
    rw [List.append_cons]
    exact hwork.snoc ⟨_, target, htarget, rfl⟩

/-! ## One step -/

variable {states : List (State σ δ)} {m : Machine σ δ}
  {u calls : List (Call UInt32 UInt32)}

theorem findStateByHash_listed (m : Machine σ δ) (hash : UInt32)
    (hp : ∃ p ∈ m.states, p.stateHash = hash) :
    ∃ q ∈ m.states, m.findStateByHash hash = some q ∧ q.stateHash = hash := by
  obtain ⟨p, hp, hhash⟩ := hp
  cases hf : m.findStateByHash hash with
  | none =>
    have hnone := List.find?_eq_none.mp hf p hp
    simp [hhash] at hnone
  | some q =>
    have hq := List.find?_some hf
    exact ⟨q, List.mem_of_find?_eq_some hf, rfl, by simpa using hq⟩

/-- The second block, when the residency has begun. -/
theorem doWork_steps (hlist : m.states = states) (hcur : m.current ∈ states)
    (hb : Listed states m.current) (hflag : m.modeChangeN = false) (n : Nat)
    (hu : u ++ calls =
      ⟨.enter, m.current.stateHash, 0⟩ :: List.replicate n ⟨.work, m.current.stateHash, 0⟩)
    (s : σ) : StepsTo states m.current.stateHash u (m.doWork s calls) := by
  subst hlist
  unfold Machine.doWork
  obtain ⟨next, s₁, hwork⟩ : ∃ next s₁, m.current.work m.current.userData s = (next, s₁) :=
    ⟨_, _, rfl⟩
  have hnext := hb.work s
  rw [hwork] at hnext
  simp only [hwork]
  by_cases hzero : next = 0
  · subst hzero
    simp only [ne_eq, not_true_eq_false, if_false, hflag, Bool.false_eq_true]
    refine ⟨rfl, Or.inl ⟨rfl, rfl, hcur, ?_, ?_⟩⟩
    · rw [← List.append_assoc, hu, List.cons_append, ← List.replicate_succ']
      exact Going.working _ _
    · simp [hflag]
  · obtain ⟨p, hp, hfind, hhash⟩ := findStateByHash_listed m next (hnext.resolve_left hzero)
    obtain ⟨ret, s₂, hexit⟩ : ∃ ret s₂, m.current.exit m.current.userData s₁ = (ret, s₂) :=
      ⟨_, _, rfl⟩
    have hover := hb.exit s₁
    rw [hexit] at hover
    have htrace : u ++ (calls ++ [⟨.work, m.current.stateHash, next⟩] ++
        [⟨.exit, m.current.stateHash, ret⟩]) =
        ⟨.enter, m.current.stateHash, 0⟩ ::
          List.replicate n ⟨.work, m.current.stateHash, 0⟩ ++
        [⟨.work, m.current.stateHash, next⟩, ⟨.exit, m.current.stateHash, ret⟩] := by
      rw [List.append_assoc, ← List.append_assoc u, hu]
      rfl
    simp only [ne_eq, hzero, not_false_eq_true, if_true, hfind, hexit]
    by_cases hstay : ret = 0
    · simp only [hstay, not_true_eq_false, if_false]
      refine ⟨rfl, Or.inr ⟨?_, rfl, hp, Going.fresh _, by simp⟩⟩
      have hvisit := Residency.visit m.current.stateHash next 0 n hzero
      rw [hstay] at htrace
      rw [htrace]
      show Residency _ _ p.stateHash
      rw [hhash]
      exact hvisit
    · obtain ⟨q, hq, hfind', hhash'⟩ := findStateByHash_listed m ret
        (hover.resolve_left hstay)
      simp only [hstay, not_false_eq_true, if_true, hfind']
      refine ⟨rfl, Or.inr ⟨?_, rfl, hq, Going.fresh _, by simp⟩⟩
      have hvisit := Residency.visit m.current.stateHash next ret n hzero
      rw [if_pos hstay] at hvisit
      rw [htrace]
      show Residency _ _ q.stateHash
      rw [hhash']
      exact hvisit

/-- **One step of `DoStep`.** -/
theorem doStep_steps (hb : ∀ st ∈ states, Listed states st) {a : Machine σ δ × σ}
    (ha : Resides states u a) :
    StepsTo states a.1.current.stateHash u (a.1.doStep a.2) := by
  obtain ⟨m, s⟩ := a
  obtain ⟨rfl, hcur, hgoing, hflag⟩ := ha
  have hlisted := hb _ hcur
  unfold Machine.doStep
  cases hmode : m.modeChangeN with
  | false =>
    have hbegun : u ≠ [] := by
      intro hu
      rw [hflag.mpr hu] at hmode
      cases hmode
    cases hgoing with
    | fresh => exact absurd rfl hbegun
    | working n => exact doWork_steps rfl hcur hlisted hmode n (List.append_nil _) s
  | true =>
    obtain rfl := hflag.mp hmode
    obtain ⟨next, s₁, henter⟩ : ∃ next s₁, m.current.enter m.current.userData s = (next, s₁) :=
      ⟨_, _, rfl⟩
    have hnext := hlisted.enter s
    rw [henter] at hnext
    simp only [if_true, henter]
    by_cases hzero : next = 0
    · subst hzero
      simp only [ne_eq, not_true_eq_false, if_false]
      exact doWork_steps (m := { m with modeChangeN := false }) rfl hcur hlisted rfl 0 rfl s₁
    · obtain ⟨p, hp, hfind, hhash⟩ := findStateByHash_listed m next (hnext.resolve_left hzero)
      simp only [ne_eq, hzero, not_false_eq_true, if_true, hfind]
      refine ⟨rfl, Or.inr ⟨?_, rfl, hp, Going.fresh _, by simp⟩⟩
      show Residency _ _ p.stateHash
      rw [hhash]
      exact Residency.redirect _ _ hzero

/-! ## Runs -/

/-- **The lifecycle.** For every non-empty list of states whose callbacks return 0 or
hashes of listed states, every run of `DoStep` returns 0 each time and keeps `current` in
the list, and its trace is complete residencies and then one that goes on. In it an exit
comes only after a work that requested a transition, and a work only after an enter that
returned 0. -/
theorem lifecycle (states : List (State σ δ)) (hne : states ≠ [])
    (hb : ∀ st ∈ states, Listed states st) (s : σ) (n : Nat) :
    ∃ replies m s' trace going,
      run cppStep (Machine.new states hne, s) (List.replicate n ()) =
        some (replies, (m, s')) ∧
      (∀ r ∈ replies, r.ret = 0) ∧ m.current ∈ states ∧
      replies.flatMap Reply.calls = trace ++ going ∧
      Segments Residency (states.head hne).stateHash trace m.current.stateHash ∧
      Going m.current.stateHash going ∧ Guarded Preceded (trace ++ going) := by
  have hstart : Resides states [] (Machine.new states hne, s) :=
    ⟨rfl, List.head_mem hne, Going.fresh _, by simp [Machine.new]⟩
  have hstep : ∀ (a : Machine σ δ × σ) u i, Resides states u a →
      ∃ r a', cppStep a i = some (r, a') ∧ r.ret = 0 ∧
        ((a'.1.current.stateHash = a.1.current.stateHash ∧ Resides states (u ++ r.calls) a') ∨
          (Residency a.1.current.stateHash (u ++ r.calls) a'.1.current.stateHash ∧
            Resides states [] a')) := by
    intro a u i ha
    exact ⟨_, _, rfl, doStep_steps hb ha⟩
  obtain ⟨replies, ⟨m, s'⟩, trace, going, hrun, hret, htrace, hsegs, hopen⟩ :=
    run_segments Reply.calls (fun a => a.1.current.stateHash) (fun a u => Resides states u a)
      (fun r => r.ret = 0) hstep hstart (List.replicate n ())
  have hguarded := (Guarded.segments preceded_looksBack (fun _ _ _ h => h.guarded) hsegs).append
    preceded_looksBack hopen.going.guarded
  exact ⟨replies, m, s', trace, going, hrun, hret, hopen.listed, htrace, hsegs, hopen.going,
    hguarded⟩

/-- The first state works once and leaves for the second one, whose enter goes back. -/
theorem lifecycle_back_and_forth : ∃ replies m s',
    run cppStep (Machine.new
      [⟨1, (), fun _ s => (0, s), fun _ s => (2, s), fun _ s => (0, s)⟩,
        ⟨2, (), fun _ s => (1, s), fun _ s => (0, s), fun _ s => (0, s)⟩] (by simp), ())
      (List.replicate 2 ()) = some (replies, (m, s')) ∧
    replies.flatMap Reply.calls =
      [⟨.enter, 1, 0⟩, ⟨.work, 1, 2⟩, ⟨.exit, 1, 0⟩, ⟨.enter, 2, 1⟩] ∧
    (∀ r ∈ replies, r.ret = 0) ∧ Guarded Preceded (replies.flatMap Reply.calls) := by
  obtain ⟨replies, m, s', trace, going, hrun, hret, -, htrace, -, -, hguarded⟩ := lifecycle
    [⟨1, (), fun _ s => (0, s), fun _ s => (2, s), fun _ s => (0, s)⟩,
      ⟨2, (), fun _ s => (1, s), fun _ s => (0, s), fun _ s => (0, s)⟩] (by simp)
    (by
      intro st hst
      simp only [List.mem_cons, List.not_mem_nil, or_false] at hst
      rcases hst with rfl | rfl
      · exact ⟨by simp, by simp, by simp⟩
      · exact ⟨by simp, by simp, by simp⟩) () 2
  refine ⟨replies, m, s', hrun, ?_, hret, htrace ▸ hguarded⟩
  cases hrun
  rfl

end MyLibraries.StateMachine
