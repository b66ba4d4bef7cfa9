import MyLibraries.TcpServer.Invariant

/-!
# Whether the accept thread goes on accepting

`tcp_handler` takes the count of the clients before it registers the next one, and serves
that one itself when the count is 1: with the second client it stops accepting. The accept
thread always comes back to `accept` by steps of its own exactly as long as no count finds
one client (`goes_on_iff`).
-/

namespace MyLibraries.TcpServer

open Run

/-- The accept thread does not wait for a client: by steps of its own it comes back to
`accept`, and a client that it lets in gets a thread of its own. -/
def GoesOn (max : Nat) (s : State) : Prop :=
  match s.acceptThread with
  | .accepting | .ended => True
  | .accepted fd c => ∃ s', step max s .getNumberOfClients = some (none, s') ∧
      s'.acceptThread = .counted fd c s.clientsList.length
  | .counted fd c n =>
    if n ≥ max then
      ∃ s', step max s .reject = some (none, s') ∧ s'.acceptThread = .accepting
    else
      ∃ s₁ s₂, step max s .addClient = some (none, s₁) ∧ step max s₁ .start = some (none, s₂) ∧
        s₂.handlers c = some ⟨fd, .reading⟩ ∧ s₂.acceptThread = .accepting
  | .registered fd c _ => ∃ s', step max s .start = some (none, s') ∧
      s'.handlers c = some ⟨fd, .reading⟩ ∧ s'.acceptThread = .accepting
  | .serving _ => False

/-- The count is not taken of a single client. -/
def CountsOthers (s : State) (a : Action) : Prop :=
  a = .getNumberOfClients → s.clientsList.length ≠ 1

instance (s : State) (a : Action) : Decidable (CountsOthers s a) :=
  inferInstanceAs (Decidable (_ → _))

/-- Where the accept thread has no single client counted. -/
def AcceptPc.Others (max : Nat) (pc : AcceptPc) : Prop :=
  match pc with
  | .counted _ _ n => n < max → n ≠ 1
  | .registered _ _ n => n ≠ 1
  | .serving _ => False
  | _ => True

variable {max : Nat} {s s' : State} {a : Action} {r : Option Callback} {c fd n : Nat}

theorem afterStart_eq : AcceptPc.afterStart c n = .accepting ↔ n ≠ 1 := by
  unfold AcceptPc.afterStart
  split
  · rename_i h
    exact iff_of_false AcceptPc.noConfusion fun hne => hne h
  · rename_i h
    exact iff_of_true rfl h

/-! ## The steps of the accept thread -/

theorem step_getNumberOfClients (hp : s.acceptThread = .accepted fd c) :
    step max s .getNumberOfClients =
      some (none, { s with acceptThread := .counted fd c s.clientsList.length }) := by
  unfold step
  rw [hp]

theorem step_reject (hp : s.acceptThread = .counted fd c n) (hn : n ≥ max) :
    step max s .reject =
      some (none, { s with table := s.table.close fd [c], acceptThread := .accepting }) := by
  unfold step
  rw [hp]
  exact if_pos hn

theorem step_addClient (hp : s.acceptThread = .counted fd c n) (hn : ¬n ≥ max) :
    step max s .addClient = some (none, { s with
      clientsList := insert s.clientsList fd, acceptThread := .registered fd c n }) := by
  unfold step
  rw [hp]
  exact if_neg hn

theorem step_start (hp : s.acceptThread = .registered fd c n) :
    step max s .start =
      some (none, { s.setPc c fd .reading with acceptThread := .afterStart c n }) := by
  unfold step
  rw [hp]

/-- A registered client gets a thread of its own, unless one client was counted before it. -/
theorem start_goesOn (max : Nat) (hp : s.acceptThread = .registered fd c n) :
    (∃ s', step max s .start = some (none, s') ∧ s'.handlers c = some ⟨fd, .reading⟩ ∧
      s'.acceptThread = .accepting) ↔ n ≠ 1 := by
  have hstart : step max s .start = _ := step_start hp
  have hhandler : (s.setPc c fd .reading).handlers c = some ⟨fd, .reading⟩ :=
    Function.update_self ..
  rw [← afterStart_eq (c := c)]
  constructor
  · rintro ⟨s', hs', -, haccepting⟩
    rw [hstart] at hs'
    cases hs'
    exact haccepting
  · intro hafter
    exact ⟨_, hstart, hhandler, hafter⟩

/-- What the accept thread does by itself is decided by its last count. -/
theorem goesOn_iff : GoesOn max s ↔ s.acceptThread.Others max := by
  unfold GoesOn AcceptPc.Others
  cases hp : s.acceptThread with
  | accepting => exact Iff.rfl
  | ended => exact Iff.rfl
  | serving c => exact Iff.rfl
  | accepted fd c => exact iff_of_true ⟨_, step_getNumberOfClients hp, rfl⟩ trivial
  | counted fd c n =>
    dsimp only
    by_cases hn : n ≥ max
    · rw [if_pos hn]
      exact iff_of_true ⟨_, step_reject hp hn, rfl⟩ fun hlt => absurd hn (Nat.not_le.mpr hlt)
    · rw [if_neg hn]
      have hadd := step_addClient hp hn
      have hlt := Nat.lt_of_not_le hn
      constructor
      · rintro ⟨s₁, s₂, h₁, h₂⟩ -
        rw [hadd] at h₁
        cases h₁
        exact (start_goesOn max rfl).mp ⟨s₂, h₂⟩
      · intro hne
        obtain ⟨s₂, h₂⟩ := (start_goesOn max (s := { s with
          clientsList := insert s.clientsList fd, acceptThread := .registered fd c n }) rfl).mpr
            (hne hlt)
        exact ⟨_, s₂, hadd, h₂⟩
  | registered fd c n => exact start_goesOn max hp

/-! ## Runs -/

theorem countsOthers_of_ne (h : a ≠ .getNumberOfClients) : CountsOthers s a :=
  fun heq => absurd heq h

/-- A step keeps the accept thread going unless it counts a single client. -/
theorem goesOn_step (hmax : 2 ≤ max) (hs : GoesOn max s) (h : step max s a = some (r, s')) :
    GoesOn max s' ↔ CountsOthers s a := by
  rw [goesOn_iff] at hs ⊢
  cases move_of_step h with
  | accept => exact iff_of_true trivial (countsOthers_of_ne Action.noConfusion)
  | acceptFails => exact iff_of_true trivial (countsOthers_of_ne Action.noConfusion)
  | getNumberOfClients =>
    refine ⟨fun hothers _ hone => ?_, fun hcount _ => hcount rfl⟩
    exact hothers (by rw [hone]; exact hmax) hone
  | reject => exact iff_of_true trivial (countsOthers_of_ne Action.noConfusion)
  | addClient hp hn =>
    rw [hp] at hs
    exact iff_of_true (hs hn) (countsOthers_of_ne Action.noConfusion)
  | start hp =>
    rw [hp] at hs
    rename_i fd c n
    refine iff_of_true ?_ (countsOthers_of_ne Action.noConfusion)
    show (AcceptPc.afterStart c n).Others max
    rw [afterStart_eq.mpr hs]
    trivial
  | readEnds => exact iff_of_true hs (countsOthers_of_ne Action.noConfusion)
  | removeClient => exact iff_of_true hs (countsOthers_of_ne Action.noConfusion)
  | close =>
    rename_i c fd hh
    have hafter : s.acceptThread.afterHandler c = s.acceptThread := by
      unfold AcceptPc.afterHandler
      split
      · rename_i hp
        rw [hp] at hs
        exact absurd hs id
      · rfl
    refine iff_of_true ?_ (countsOthers_of_ne Action.noConfusion)
    show (s.acceptThread.afterHandler c).Others max
    rw [hafter]
    exact hs
  | closeAllClients => exact iff_of_true hs (countsOthers_of_ne Action.noConfusion)
  | shutdown => exact iff_of_true hs (countsOthers_of_ne Action.noConfusion)

/-- **The accept thread goes on accepting** throughout a run, whatever the clients do, exactly
if it never takes the count of a single client. -/
theorem goes_on_iff (max : Nat) (hmax : 2 ≤ max) (as : List Action)
    (rs : List (Option Callback)) (s : State) (hrun : run (step max) State.init as = some (rs, s)) :
    Throughout (step max) (GoesOn max) State.init as ↔
      AlongRun (step max) CountsOthers State.init as :=
  throughout_iff_alongRun (D := fun _ _ => True) (fun _ _ _ _ hs _ h => goesOn_step hmax hs h)
    (goesOn_iff.mpr trivial) (alongRun_of_forall (fun _ _ _ => trivial) _) hrun

/-- Two clients, of whom the first one leaves before the second one comes. -/
def oneByOne : List Action :=
  [.accept 4, .getNumberOfClients, .addClient, .start, .readEnds 0, .removeClient 0, .close 0,
    .accept 4, .getNumberOfClients, .addClient, .start]

theorem goes_on_one_by_one : ∃ rs s, run (step 2) State.init oneByOne = some (rs, s) ∧
    Throughout (step 2) (GoesOn 2) State.init oneByOne :=
  ⟨_, _, rfl, (goes_on_iff 2 (Nat.le_refl _) oneByOne _ _ rfl).mpr (by decide)⟩

/-- Two clients at a time: the accept thread serves the second one itself, and cannot accept
a third one, although three are allowed. -/
theorem second_client_blocks : ∃ rs s, run (step 3) State.init
      [.accept 4, .getNumberOfClients, .addClient, .start, .accept 5, .getNumberOfClients,
        .addClient, .start] = some (rs, s) ∧
    s.acceptThread = .serving 1 ∧ (∀ fd, step 3 s (.accept fd) = none) ∧ ¬GoesOn 3 s :=
  ⟨_, _, rfl, rfl, fun _ => rfl, id⟩

end MyLibraries.TcpServer
