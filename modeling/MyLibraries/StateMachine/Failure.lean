import MyLibraries.StateMachine.Cpp

/-!
# Failed steps of the C++ state machine

`DoStep` fails when a callback requests a state that is not listed. It then keeps the current
state, but an exit that has requested such a state has run already: the next step works on a
state that was exited.
-/

namespace MyLibraries.StateMachine

open Run Segment

variable {σ δ : Type}

/-- Behind every exit of the state there is an enter of it. -/
def Reentered (h : UInt32) (pre : List (Call UInt32 UInt32)) : Prop :=
  ∀ before ret after, pre = before ++ ⟨.exit, h, ret⟩ :: after →
    ∃ d ∈ after, d.kind = .enter ∧ d.state = h

/-- A work is not for a state that was exited since its last enter. -/
def NotExited (pre : List (Call UInt32 UInt32)) (c : Call UInt32 UInt32) : Prop :=
  c.kind = .work → Reentered c.state pre

/-- A step that fails keeps the current state, and has not run an exit. -/
def KeepsState (a : Machine σ δ × σ) : Prop :=
  (a.1.doStep a.2).1.ret = -einval →
    (a.1.doStep a.2).2.1.current = a.1.current ∧ ∀ c ∈ (a.1.doStep a.2).1.calls, c.kind ≠ .exit

/-- A result of a callback that requests nothing, or a state that is listed. -/
def Machine.Resolves (m : Machine σ δ) (ret : UInt32) : Prop :=
  ret = 0 ∨ (m.findStateByHash ret).isSome

instance (m : Machine σ δ) (ret : UInt32) : Decidable (m.Resolves ret) :=
  inferInstanceAs (Decidable (_ ∨ _))

/-- The exit of the current state, if work has requested a listed state. -/
def Machine.ExitResolves (m : Machine σ δ) (s : σ) : Prop :=
  (m.current.work m.current.userData s).1 ≠ 0 →
    (m.findStateByHash (m.current.work m.current.userData s).1).isSome →
    m.Resolves (m.current.exit m.current.userData (m.current.work m.current.userData s).2).1

instance (m : Machine σ δ) (s : σ) : Decidable (m.ExitResolves s) :=
  inferInstanceAs (Decidable ((m.current.work m.current.userData s).1 ≠ 0 →
    (m.findStateByHash (m.current.work m.current.userData s).1).isSome → m.Resolves _))

/-- No exit of the step requests a state that is not listed. -/
def ExitListed (a : Machine σ δ × σ) : Prop :=
  if a.1.modeChangeN then
    (a.1.current.enter a.1.current.userData a.2).1 = 0 →
      a.1.ExitResolves (a.1.current.enter a.1.current.userData a.2).2
  else a.1.ExitResolves a.2

instance (a : Machine σ δ × σ) : Decidable (ExitListed a) :=
  inferInstanceAs (Decidable (if a.1.modeChangeN then
    (a.1.current.enter a.1.current.userData a.2).1 = 0 → a.1.ExitResolves _
  else a.1.ExitResolves a.2))

variable {m : Machine σ δ} {s : σ} {a : Machine σ δ × σ} {h : UInt32}
  {calls trace : List (Call UInt32 UInt32)} {c : Call UInt32 UInt32}

/-! ## One step -/

/-- The second block of `DoStep`, when the residency has begun: a work without a transition, a
work and an exit that lead to a state, or an exit that leads to none. -/
theorem doWork_cases (hflag : m.modeChangeN = false) (s : σ)
    (calls : List (Call UInt32 UInt32)) :
    (m.ExitResolves s ∧ ∃ code ret s', code ∈ [0, -einval] ∧
      m.doWork s calls = (⟨code, calls ++ [⟨.work, m.current.stateHash, ret⟩]⟩, m, s')) ∨
    (m.ExitResolves s ∧ ∃ target ret q s', (∃ h, m.findStateByHash h = some q) ∧ m.doWork s calls =
      (⟨0, calls ++ [⟨.work, m.current.stateHash, target⟩] ++
        [⟨.exit, m.current.stateHash, ret⟩]⟩, { m with current := q, modeChangeN := true }, s')) ∨
    (¬m.ExitResolves s ∧ ∃ target ret s', m.doWork s calls =
      (⟨-einval, calls ++ [⟨.work, m.current.stateHash, target⟩] ++
        [⟨.exit, m.current.stateHash, ret⟩]⟩, m, s')) := by
  unfold Machine.doWork Machine.ExitResolves Machine.Resolves
  obtain ⟨target, s₁, hwork⟩ : ∃ r s₁, m.current.work m.current.userData s = (r, s₁) :=
    ⟨_, _, rfl⟩
  obtain ⟨ret, s₂, hexit⟩ : ∃ r s₂, m.current.exit m.current.userData s₁ = (r, s₂) :=
    ⟨_, _, rfl⟩
  simp only [hwork, hexit]
  by_cases hzero : target = 0
  · rw [if_neg (not_not.mpr hzero), hflag]
    refine .inl ⟨fun hne => absurd hzero hne, 0, target, s₁, List.mem_cons_self .., rfl⟩
  · rw [if_pos hzero]
    cases hfind : m.findStateByHash target with
    | none =>
      refine .inl ⟨fun _ hsome => absurd hsome Bool.false_ne_true, -einval, target, s₁, ?_, rfl⟩
      exact List.mem_cons_of_mem _ (List.mem_singleton_self _)
    | some q =>
      dsimp only
      by_cases hstay : ret = 0
      · rw [if_neg (not_not.mpr hstay)]
        exact .inr (.inl ⟨fun _ _ => .inl hstay, target, ret, q, s₂, ⟨_, hfind⟩, rfl⟩)
      · rw [if_pos hstay]
        cases hover : m.findStateByHash ret with
        | none =>
          refine .inr (.inr ⟨fun hall => ?_, target, ret, s₂, rfl⟩)
          rcases hall hzero rfl with hret | hsome
          · exact hstay hret
          · exact Bool.false_ne_true hsome
        | some q' => exact .inr (.inl ⟨fun _ _ => .inr rfl, target, ret, q', s₂, ⟨_, hover⟩, rfl⟩)

/-- A step is a failed or redirected enter, or goes on to the second block. -/
theorem doStep_cases (a : Machine σ δ × σ) :
    (ExitListed a ∧ ∃ code ret q s', (code = -einval → q = a.1.current) ∧
      (q = a.1.current ∨ ∃ h, a.1.findStateByHash h = some q) ∧ a.1.doStep a.2 =
        (⟨code, [⟨.enter, a.1.current.stateHash, ret⟩]⟩,
          { a.1 with current := q, modeChangeN := true }, s')) ∨
    (∃ calls s, (calls = [] ∧ a.1.modeChangeN = false ∨
        calls = [⟨.enter, a.1.current.stateHash, 0⟩]) ∧
      (ExitListed a ↔ { a.1 with modeChangeN := false }.ExitResolves s) ∧
      a.1.doStep a.2 = { a.1 with modeChangeN := false }.doWork s calls) := by
  obtain ⟨⟨states, current, mode⟩, s⟩ := a
  unfold Machine.doStep ExitListed
  cases mode with
  | false => exact .inr ⟨[], s, .inl ⟨rfl, rfl⟩, Iff.rfl, rfl⟩
  | true =>
    obtain ⟨ret, s₁, henter⟩ : ∃ r s₁, current.enter current.userData s = (r, s₁) := ⟨_, _, rfl⟩
    simp only [henter, if_true]
    by_cases hzero : ret = 0
    · subst hzero
      exact .inr ⟨_, s₁, .inr rfl, ⟨fun h => h rfl, fun h _ => h⟩, rfl⟩
    · rw [if_pos hzero]
      cases hfind : (Machine.mk states current true).findStateByHash ret with
      | none =>
        exact .inl ⟨fun h => absurd h hzero, _, ret, current, s₁, fun _ => rfl, .inl rfl, rfl⟩
      | some q =>
        refine .inl ⟨fun h => absurd h hzero, 0, ret, q, s₁, fun hcode => ?_, .inr ⟨_, hfind⟩, rfl⟩
        exact absurd hcode (by decide)

/-- A step keeps its state in a failure exactly when no exit of it fails. -/
theorem keepsState_iff (a : Machine σ δ × σ) : KeepsState a ↔ ExitListed a := by
  have henter : ∀ {h ret : UInt32} {c : Call UInt32 UInt32},
      c ∈ ([⟨.enter, h, ret⟩] : List (Call UInt32 UInt32)) → c.kind ≠ .exit := by
    intro h ret c hc
    rw [List.mem_singleton.mp hc]
    show Kind.enter ≠ Kind.exit
    decide
  unfold KeepsState
  rcases doStep_cases a with ⟨hlisted, code, ret, q, s', hcode, -, hstep⟩ |
      ⟨calls, s, hcalls, hiff, hstep⟩
  · rw [hstep]
    exact iff_of_true (fun h => ⟨hcode h, fun c hc => henter hc⟩) hlisted
  · have hfirst : ∀ c ∈ calls, c.kind ≠ .exit := by
      rcases hcalls with ⟨rfl, -⟩ | rfl
      · exact fun c hc => absurd hc List.not_mem_nil
      · exact fun c hc => henter hc
    rw [hstep, hiff]
    rcases doWork_cases (m := { a.1 with modeChangeN := false }) rfl s calls with
      ⟨hresolves, code, ret, s', -, hwork⟩ | ⟨hresolves, target, ret, q, s', -, hwork⟩ |
      ⟨hfails, target, ret, s', hwork⟩
    · rw [hwork]
      refine iff_of_true (fun _ => ⟨rfl, fun c hc => ?_⟩) hresolves
      rcases List.mem_append.mp hc with hc | hc
      · exact hfirst c hc
      · rw [List.mem_singleton.mp hc]
        show Kind.work ≠ Kind.exit
        decide
    · rw [hwork]
      have hcode : (0 : Int) ≠ -einval := by decide
      exact iff_of_true (fun h => absurd h hcode) hresolves
    · rw [hwork]
      refine iff_of_false (fun h => ?_) hfails
      exact (h rfl).2 _ (List.mem_append_right _ (List.mem_singleton_self _)) rfl

/-! ## The trace -/

/-- What is split off a list with one more element ends with this element, or is it. -/
theorem snoc_split {before after : List (Call UInt32 UInt32)} {d : Call UInt32 UInt32}
    (h : trace ++ [c] = before ++ d :: after) :
    (after = [] ∧ c = d) ∨ ∃ rest, after = rest ++ [c] ∧ trace = before ++ d :: rest := by
  rcases List.eq_nil_or_concat' after with rfl | ⟨rest, e, rfl⟩
  · exact .inl ⟨rfl, (List.cons.inj (List.append_inj_right' h rfl)).1⟩
  · rw [← List.cons_append, ← List.append_assoc] at h
    obtain rfl : c = e := (List.cons.inj (List.append_inj_right' h rfl)).1
    exact .inr ⟨rest, rfl, List.append_inj_left' h rfl⟩

theorem reentered_enter (h ret : UInt32) (trace : List (Call UInt32 UInt32)) :
    Reentered h (trace ++ [⟨.enter, h, ret⟩]) := by
  intro before r after hsplit
  rcases snoc_split hsplit with ⟨-, heq⟩ | ⟨rest, rfl, -⟩
  · cases heq
  · exact ⟨_, List.mem_append_right _ (List.mem_singleton_self _), rfl, rfl⟩

theorem Reentered.snoc (hpre : Reentered h trace) (hc : c.kind ≠ .exit) :
    Reentered h (trace ++ [c]) := by
  intro before r after hsplit
  rcases snoc_split hsplit with ⟨-, rfl⟩ | ⟨rest, rfl, hrest⟩
  · exact absurd rfl hc
  · obtain ⟨d, hd, hkind, hstate⟩ := hpre before r rest hrest
    exact ⟨d, List.mem_append_left _ hd, hkind, hstate⟩

/-- No work so far was for an exited state, and the next one will not be. -/
structure Traced (trace : List (Call UInt32 UInt32)) (a : Machine σ δ × σ) : Prop where
  guarded : Guarded NotExited trace
  reentered : a.1.modeChangeN = false → Reentered a.1.current.stateHash trace

theorem traced_work (hflag : m.modeChangeN = false)
    (hguarded : Guarded NotExited (trace ++ calls))
    (hreentered : Reentered m.current.stateHash (trace ++ calls)) (hexit : m.ExitResolves s) :
    Traced (trace ++ (m.doWork s calls).1.calls) (m.doWork s calls).2 := by
  have hwork : ∀ ret, Guarded NotExited (trace ++ calls ++ [⟨.work, m.current.stateHash, ret⟩]) :=
    fun ret => hguarded.snoc fun _ => hreentered
  rcases doWork_cases hflag s calls with ⟨-, code, ret, s', -, hstep⟩ |
      ⟨-, target, ret, q, s', -, hstep⟩ | ⟨hfails, -⟩
  · rw [hstep]
    dsimp only
    rw [← List.append_assoc]
    refine ⟨hwork ret, fun _ => hreentered.snoc ?_⟩
    show Kind.work ≠ Kind.exit
    decide
  · rw [hstep]
    dsimp only
    rw [← List.append_assoc, ← List.append_assoc]
    refine ⟨(hwork target).snoc fun hkind => ?_, fun hfalse => ?_⟩
    · cases hkind
    · cases hfalse
  · exact absurd hexit hfails

theorem traced_step (ha : Traced trace a) (hlisted : ExitListed a) :
    Traced (trace ++ (a.1.doStep a.2).1.calls) (a.1.doStep a.2).2 := by
  rcases doStep_cases a with ⟨-, code, ret, q, s', -, -, hstep⟩ | ⟨calls, s, hcalls, hiff, hstep⟩
  · rw [hstep]
    refine ⟨ha.guarded.snoc fun hkind => ?_, fun hfalse => ?_⟩
    · cases hkind
    · cases hfalse
  · rw [hstep]
    rcases hcalls with ⟨rfl, hflag⟩ | rfl
    · refine traced_work rfl ?_ ?_ (hiff.mp hlisted)
      · rw [List.append_nil]
        exact ha.guarded
      · rw [List.append_nil]
        exact ha.reentered hflag
    · refine traced_work rfl (ha.guarded.snoc fun hkind => ?_) (reentered_enter _ _ _)
        (hiff.mp hlisted)
      cases hkind

/-! ## Runs -/

theorem traced_run {is : List Unit} {replies : List Reply} {a' : Machine σ δ × σ}
    (ha : Traced trace a) (hlisted : AlongRun cppStep (fun a _ => ExitListed a) a is)
    (hrun : run cppStep a is = some (replies, a')) :
    Guarded NotExited (trace ++ replies.flatMap Reply.calls) := by
  induction is generalizing trace a replies with
  | nil =>
    cases hrun
    rw [List.flatMap_nil, List.append_nil]
    exact ha.guarded
  | cons i is ih =>
    obtain ⟨hnow, hrest⟩ := (alongRun_cons (i := i) rfl).mp hlisted
    obtain ⟨r, a₁, rs, h₁, h₂, rfl⟩ := run_cons_eq_some hrun
    obtain rfl := congrArg Prod.fst (Option.some.inj h₁)
    obtain rfl := congrArg Prod.snd (Option.some.inj h₁)
    rw [List.flatMap_cons, ← List.append_assoc]
    exact ih (traced_step ha hnow) hrest h₂

/-- The current state is the one that is found under its hash, so that the calls of a trace are
for one state when their hashes are the same. -/
theorem current_found {n : Nat} {states : List (State σ δ)} (hne : states ≠ [])
    {replies : List Reply} {a' : Machine σ δ × σ}
    (hrun : run cppStep (Machine.new states hne, s) (List.replicate n ()) = some (replies, a')) :
    a'.1.findStateByHash a'.1.current.stateHash = some a'.1.current := by
  have hfound : ∀ {m : Machine σ δ} {h : UInt32} {q : State σ δ}, m.findStateByHash h = some q →
      m.findStateByHash q.stateHash = some q := by
    intro m h q hq
    have hhash : q.stateHash = h := by simpa using List.find?_some hq
    rw [hhash]
    exact hq
  have hstep : ∀ (a : Machine σ δ × σ) i r a',
      a.1.findStateByHash a.1.current.stateHash = some a.1.current → True →
        cppStep a i = some (r, a') →
          a'.1.findStateByHash a'.1.current.stateHash = some a'.1.current := by
    intro a i r a' ha _ hstep
    obtain rfl := congrArg Prod.snd (Option.some.inj hstep)
    rcases doStep_cases a with ⟨-, code, ret, q, s', -, hq, heq⟩ | ⟨calls, s, -, -, heq⟩
    · rw [heq]
      rcases hq with rfl | ⟨h, hq⟩
      · exact ha
      · exact hfound hq
    · rw [heq]
      rcases doWork_cases (m := { a.1 with modeChangeN := false }) rfl s calls with
        ⟨-, code, ret, s', -, hwork⟩ | ⟨-, target, ret, q, s', ⟨h, hq⟩, hwork⟩ |
        ⟨-, target, ret, s', hwork⟩
      · rw [hwork]
        exact ha
      · rw [hwork]
        exact hfound hq
      · rw [hwork]
        exact ha
  apply inv_of_alongRun hstep ?_ (alongRun_of_forall (fun _ _ _ => trivial) _) hrun
  cases states with
  | nil => exact absurd rfl hne
  | cons p ps => exact List.find?_cons_of_pos (by simp [Machine.new])

/-- **A failure leaves the machine usable** exactly when no exit requests a state that is not
listed: then a step that fails keeps its state without an exit of it, and no work is for a
state that was exited since its last enter. -/
theorem usable_iff (states : List (State σ δ)) (hne : states ≠ []) (s : σ) (n : Nat) :
    ∃ replies a', run cppStep (Machine.new states hne, s) (List.replicate n ()) =
        some (replies, a') ∧
      (AlongRun cppStep (fun a _ => KeepsState a) (Machine.new states hne, s)
          (List.replicate n ()) ∧ Guarded NotExited (replies.flatMap Reply.calls) ↔
        AlongRun cppStep (fun a _ => ExitListed a) (Machine.new states hne, s)
          (List.replicate n ())) := by
  have hsame : (fun (a : Machine σ δ × σ) (_ : Unit) => KeepsState a) =
      fun a _ => ExitListed a := by
    funext a _
    exact propext (keepsState_iff a)
  have hstart : Traced [] (Machine.new states hne, s) := by
    refine ⟨guarded_nil, fun hfalse => ?_⟩
    cases hfalse
  have hstep : ∀ (a : Machine σ δ × σ) i, True → ∃ r a', cppStep a i = some (r, a') ∧ True :=
    fun a i _ => ⟨_, _, rfl, trivial⟩
  obtain ⟨replies, a', hrun, -⟩ : ∃ replies a', run cppStep (Machine.new states hne, s)
      (List.replicate n ()) = some (replies, a') ∧ True := run_exists hstep trivial
  refine ⟨replies, a', hrun, ?_⟩
  rw [hsame]
  exact ⟨fun h => h.1, fun h => ⟨h, traced_run hstart h hrun⟩⟩

/-- A work leads to a state whose enter requests one that is not listed: the second step fails,
and so does the third one. -/
theorem usable_unlisted_enter : ∃ replies a',
    run cppStep (Machine.new
      [⟨1, (), fun _ s => (0, s), fun _ s => (2, s), fun _ s => (0, s)⟩,
        ⟨2, (), fun _ s => (7, s), fun _ s => (0, s), fun _ s => (0, s)⟩]
      (List.cons_ne_nil _ _), ()) (List.replicate 3 ()) = some (replies, a') ∧
    replies.map Reply.ret = [0, -einval, -einval] ∧
    Guarded NotExited (replies.flatMap Reply.calls) := by
  obtain ⟨replies, a', hrun, hiff⟩ := usable_iff
    [⟨1, (), fun _ s => (0, s), fun _ s => (2, s), fun _ s => (0, s)⟩,
      ⟨2, (), fun _ s => (7, s), fun _ s => (0, s), fun _ s => (0, s)⟩]
    (List.cons_ne_nil _ _) () 3
  refine ⟨replies, a', hrun, ?_, (hiff.mpr ?_).2⟩
  · cases hrun
    rfl
  · decide

/-- An exit that requests a state that is not listed: the second step works on a state whose
exit has run. -/
theorem work_after_exit : ∃ replies a',
    run cppStep (Machine.new
      [⟨1, (), fun _ s => (0, s), fun _ s => (1, s), fun _ s => (9, s)⟩]
      (List.cons_ne_nil _ _), ()) (List.replicate 2 ()) = some (replies, a') ∧
    replies.map Reply.ret = [-einval, -einval] ∧
    replies.flatMap Reply.calls =
      [⟨.enter, 1, 0⟩, ⟨.work, 1, 1⟩, ⟨.exit, 1, 9⟩, ⟨.work, 1, 1⟩, ⟨.exit, 1, 9⟩] ∧
    ¬Guarded NotExited (replies.flatMap Reply.calls) := by
  refine ⟨_, _, rfl, rfl, rfl, fun hguarded => ?_⟩
  obtain ⟨d, hd, -⟩ := hguarded [⟨.enter, 1, 0⟩, ⟨.work, 1, 1⟩, ⟨.exit, 1, 9⟩] ⟨.work, 1, 1⟩
    [⟨.exit, 1, 9⟩] rfl rfl [⟨.enter, 1, 0⟩, ⟨.work, 1, 1⟩] 9 [] rfl
  exact absurd hd List.not_mem_nil

end MyLibraries.StateMachine
