import MyLibraries.TcpServer.Invariant

/-!
# The connections of a running server, and how they are closed

Before `Stop` the list is bounded by `max_connections` and names exactly the connections
that a handler has or is about to get. A connection that came when the list was full is
closed and gets no handler. When `Stop` finds the list empty, or is not called, every
connection is closed once.
-/

namespace MyLibraries.TcpServer

open Descriptors Run

variable {max : Nat} {s s' : State} {a : Action} {r : Option Callback} {c d fd n : Nat}
  {is : List Action} {rs : List (Option Callback)}

/-- A handler of the connection `c` is running, with the descriptor `fd`. -/
def Running (s : State) (c fd : Nat) : Prop := ∃ pc, s.handlers c = some ⟨fd, pc⟩ ∧ pc ≠ .done

/-- The accept thread is about to start the handler of `c`. -/
def AboutToStart (s : State) (c fd : Nat) : Prop := ∃ n, s.acceptThread = .registered fd c n

/-- The accounting of the connections. -/
structure Sound (max : Nat) (s : State) : Prop where
  length_le : s.clientsList.length ≤ max
  owned : ∀ fd ∈ s.clientsList, ∃ c, s.table.owner fd = some c ∧
    (Running s c fd ∨ AboutToStart s c fd) ∧
    ∀ d, Running s d fd ∨ AboutToStart s d fd → d = c
  distinct : ∀ c d fd, Running s c fd → Running s d fd → c = d

/-! ## Accounting -/

theorem holds_of_running (h : Running s c fd) : s.holds c = some fd := by
  obtain ⟨pc, hh, hpc⟩ := h
  rw [holds_of_handler hh]
  cases pc with
  | done => exact absurd rfl hpc
  | _ => rfl

theorem holds_of_aboutToStart (hs : Inv max s) (h : AboutToStart s c fd) :
    s.holds c = some fd := by
  obtain ⟨n, hp⟩ := h
  exact (holds_of_acceptThread hs (by rw [hp]; exact if_pos rfl)).2

theorem running_of_listed (h : s.listed c = some fd) : Running s c fd ∨ AboutToStart s c fd := by
  unfold State.listed view at h
  split at h
  · rename_i hd hh
    obtain ⟨g, pc⟩ := hd
    left
    cases pc with
    | reading =>
      cases h
      exact ⟨.reading, hh, fun he => nomatch he⟩
    | removing =>
      cases h
      exact ⟨.removing, hh, fun he => nomatch he⟩
    | closing => cases h
    | done => cases h
  · right
    cases hp : s.acceptThread with
    | registered g d n =>
      rw [hp] at h
      simp only [AcceptPc.listed] at h
      split at h
      · rename_i hcd
        cases h
        subst hcd
        exact ⟨n, hp⟩
      · cases h
    | _ => rw [hp] at h; cases h

theorem sound_of_inv (hs : Inv max s) : Sound max s := by
  have hheld : ∀ {d g}, Running s d g ∨ AboutToStart s d g → s.holds d = some g := by
    rintro d g (h | h)
    · exact holds_of_running h
    · exact holds_of_aboutToStart hs h
  constructor
  · exact hs.length_le
  · intro fd hfd
    obtain ⟨c, hc⟩ := (hs.mem_iff fd).mp hfd
    have hholds := holds_of_listed hc
    refine ⟨c, (hs.accounted.holds_iff c fd).mp hholds, running_of_listed hc, fun d hd => ?_⟩
    exact hs.accounted.inj (hheld hd) hholds
  · intro c d fd hc hd
    exact hs.accounted.inj (holds_of_running hc) (holds_of_running hd)

/-! ## A rejected connection -/

/-- A handler that is there after a step was there before, or was about to be started. -/
theorem handlers_step (h : Move max s a s') (hc : s.handlers c = none)
    (hn : ∀ fd n, s.acceptThread ≠ .registered fd c n) : s'.handlers c = none := by
  have hset : ∀ {d g pc h}, s.handlers d = some h → (s.setPc d g pc).handlers c = none := by
    intro d g pc h hd
    have hdc : c ≠ d := fun heq => by rw [heq, hd] at hc; cases hc
    exact (Function.update_of_ne hdc ..).trans hc
  cases h with
  | @start fd d n hp =>
    have hdc : c ≠ d := fun heq => hn fd n (heq ▸ hp)
    exact (Function.update_of_ne hdc ..).trans hc
  | readEnds hh => exact hset hh
  | removeClient hh => exact hset hh
  | close hh => exact hset hh
  | _ => exact hc

/-- What the accept thread holds after a step it held before, unless it came with the
step. -/
theorem acceptThread_holds_step (h : Move max s a s') (hc : s'.acceptThread.holds c = some fd) :
    s.acceptThread.holds c = some fd ∨ s.table.next ≤ c := by
  cases h with
  | @accept g d table hp _ ha =>
    obtain ⟨-, hd, -⟩ := Descriptors.Table.accept_eq_some ha
    simp only [AcceptPc.holds] at hc
    split at hc
    · rename_i heq
      exact .inr (Nat.le_of_eq (heq.trans hd).symm)
    · cases hc
  | acceptFails _ => cases hc
  | getNumberOfClients hp =>
    rw [hp]
    exact .inl hc
  | reject _ _ => cases hc
  | addClient hp _ =>
    rw [hp]
    exact .inl hc
  | start _ =>
    rw [afterStart_holds] at hc
    cases hc
  | close _ =>
    rw [afterHandler_holds] at hc
    exact .inl hc
  | _ => exact .inl hc

theorem table_next_le (h : Move max s a s') (hs : Orderly s a) :
    s.table.next ≤ s'.table.next := by
  cases h with
  | accept hp _ ha =>
    obtain ⟨-, -, htable⟩ := Descriptors.Table.accept_eq_some ha
    rw [htable]
    exact Nat.le_succ _
  | closeAllClients _ =>
    unfold State.closeAllClients
    rw [hs rfl]
    exact Nat.le_refl _
  | _ => exact Nat.le_refl _

/-- The connection `c`, that came as `fd` when the list was full, is in the accept thread
or has been let go, and has no handler. -/
structure Rejected (max : Nat) (fd c n : Nat) (s : State) : Prop where
  inv : Inv max s
  unserved : s.handlers c = none
  place : s.acceptThread = .counted fd c n ∨ c < s.table.next ∧ s.holds c = none

theorem rejected_step (hn : max ≤ n) (hs : Rejected max fd c n s) (ho : Orderly s a)
    (h : step max s a = some (r, s')) : Rejected max fd c n s' := by
  have hinv := inv_step hs.inv ho h
  have hmove := move_of_step h
  have hlt : c < s.table.next := by
    rcases hs.place with hp | ⟨hlt, -⟩
    · have hconn : s.acceptThread.holds c = some fd := by rw [hp]; exact if_pos rfl
      exact hs.inv.accounted.lt (holds_of_acceptThread hs.inv hconn).2
    · exact hlt
  have hunserved : s'.handlers c = none := by
    refine handlers_step hmove hs.unserved fun g m hp => ?_
    rcases hs.place with hq | ⟨-, hnone⟩
    · rw [hp] at hq
      cases hq
    · rw [(holds_of_acceptThread hs.inv (by rw [hp]; exact if_pos rfl)).2] at hnone
      cases hnone
  refine ⟨hinv, hunserved, ?_⟩
  have hgone : s'.acceptThread.holds c = none → c < s'.table.next ∧ s'.holds c = none :=
    fun hnone => ⟨Nat.lt_of_lt_of_le hlt (table_next_le hmove ho),
      (holds_of_accept hunserved).trans hnone⟩
  rcases hs.place with hp | ⟨-, hnone⟩
  · cases hmove with
    | reject _ _ => exact .inr (hgone rfl)
    | addClient hp' hlt' =>
      rw [hp] at hp'
      cases hp'
      omega
    | close hh =>
      refine .inl ?_
      show s.acceptThread.afterHandler _ = _
      rw [hp]
      rfl
    | readEnds _ => exact .inl hp
    | removeClient _ => exact .inl hp
    | closeAllClients _ => exact .inl hp
    | shutdown _ => exact .inl hp
    | accept hp' _ _ => rw [hp] at hp'; cases hp'
    | acceptFails hp' => rw [hp] at hp'; cases hp'
    | getNumberOfClients hp' => rw [hp] at hp'; cases hp'
    | start hp' => rw [hp] at hp'; cases hp'
  · refine .inr (hgone ?_)
    cases hh : s'.acceptThread.holds c with
    | none => rfl
    | some g =>
      rcases acceptThread_holds_step hmove hh with hold | hge
      · rw [holds_of_accept hs.unserved, hold] at hnone
        cases hnone
      · omega

theorem orderly_of_running (h : Action.closeAllClients ∉ is) (s : State) :
    AlongRun (step max) Orderly s is := by
  refine alongRun_of_forall (fun a ha _ heq => ?_) s
  rw [heq] at ha
  exact absurd ha h

theorem inv_run (h : AlongRun (step max) Orderly .init is)
    (hrun : run (step max) .init is = some (rs, s)) : Inv max s :=
  inv_of_alongRun (fun _ _ _ _ hs ho hstep => inv_step hs ho hstep) (inv_init max) h hrun

/-- **Connection accounting.** In every state that is reached before `Stop`, the list is
bounded and owned; and a connection that is found to be one too many can be closed at once,
and ever after has no handler and is closed as soon as the accept thread has gone on. -/
theorem connection_accounting (max : Nat) (is : List Action)
    (hstop : Action.closeAllClients ∉ is)
    (hrun : run (step max) .init is = some (rs, s)) :
    Sound max s ∧ ∀ fd c n, s.acceptThread = .counted fd c n → max ≤ n →
      (step max s .reject).isSome ∧
      ∀ js rs' s', Action.closeAllClients ∉ js → run (step max) s js = some (rs', s') →
        s'.handlers c = none ∧ s'.listed c = none ∧
          (s'.acceptThread = .counted fd c n ∨ s'.table.ClosedOnce c) := by
  have hinv := inv_run (orderly_of_running hstop .init) hrun
  refine ⟨sound_of_inv hinv, fun fd c n hp hn => ⟨?_, fun js rs' s' hjs hrun' => ?_⟩⟩
  · unfold step
    rw [hp]
    simp only [ge_iff_le, hn, if_true, Option.isSome_some]
  · have hfirst : Rejected max fd c n s :=
      ⟨hinv, (holds_of_acceptThread hinv (by rw [hp]; exact if_pos rfl)).1, .inl hp⟩
    have hlast : Rejected max fd c n s' :=
      inv_of_alongRun (fun _ _ _ _ hs ho hstep => rejected_step hn hs ho hstep) hfirst
        (orderly_of_running hjs s) hrun'
    refine ⟨hlast.unserved, ?_, ?_⟩
    · rw [listed_of_accept hlast.unserved]
      rcases hlast.place with hp' | ⟨-, hnone⟩
      · rw [hp']
        rfl
      · cases hl : s'.acceptThread.listed c with
        | none => rfl
        | some g =>
          rw [← listed_of_accept hlast.unserved] at hl
          rw [holds_of_listed hl] at hnone
          cases hnone
    · rcases hlast.place with hp' | ⟨hlt, hnone⟩
      · exact .inl hp'
      · exact .inr (hlast.inv.accounted.closedOnce hlt hnone)

/-- Two clients come and the first one goes. -/
def twoClients : List Action :=
  [.accept 5, .getNumberOfClients, .addClient, .start, .accept 6, .getNumberOfClients,
    .readEnds 0, .removeClient 0, .close 0]

/-- With room for one client, the second one is one too many. -/
theorem connection_accounting_two_clients : ∃ rs s,
    run (step 1) .init twoClients = some (rs, s) ∧ s.acceptThread = .counted 6 1 1 ∧ Sound 1 s :=
  ⟨_, _, rfl, rfl, (connection_accounting 1 twoClients (by decide) rfl).1⟩

/-! ## Closing -/

/-- No handler is left, and the accept thread is at `accept` or has ended. -/
def Quiescent (s : State) : Prop :=
  (∀ c h, s.handlers c = some h → h.pc = .done) ∧
    (s.acceptThread = .accepting ∨ s.acceptThread = .ended)

theorem holds_of_quiescent (h : Quiescent s) (c : Nat) : s.holds c = none := by
  unfold State.holds view
  split
  · rename_i hd hh
    obtain ⟨fd, pc⟩ := hd
    have hpc : pc = .done := h.1 c _ hh
    rw [hpc]
    rfl
  · rcases h.2 with hp | hp <;> rw [hp] <;> rfl

/-- **Every connection is closed once.** When the list is empty whenever `CloseAllClients`
is called, no close goes wrong, and in the end every connection has been closed once. -/
theorem closed_once (max : Nat) (is : List Action)
    (horderly : AlongRun (step max) Orderly .init is)
    (hrun : run (step max) .init is = some (rs, s)) :
    s.table.AllProper ∧ (Quiescent s → ∀ c < s.table.next, s.table.ClosedOnce c) := by
  have hinv := inv_run horderly hrun
  exact ⟨hinv.accounted.proper,
    fun hq c hc => hinv.accounted.closedOnce hc (holds_of_quiescent hq c)⟩

/-- The server is stopped when both clients have gone. -/
theorem closed_once_two_clients : ∃ rs s,
    run (step 1) .init (twoClients ++ [.reject, .closeAllClients, .shutdown, .acceptFails]) =
        some (rs, s) ∧ s.table.AllProper ∧
      (Quiescent s → ∀ c < s.table.next, s.table.ClosedOnce c) :=
  ⟨_, _, rfl, closed_once 1 (twoClients ++ [.reject, .closeAllClients, .shutdown, .acceptFails])
    (by decide) rfl⟩

/-- `Stop` closes the descriptor of a client, and so does its handler. -/
theorem stop_closes_twice : ¬ ∀ max is rs s, run (step max) .init is = some (rs, s) →
    s.table.AllProper ∧ (Quiescent s → ∀ c < s.table.next, s.table.ClosedOnce c) := by
  intro h
  have hstop := (h 1 [.accept 5, .getNumberOfClients, .addClient, .start, .closeAllClients,
    .shutdown, .readEnds 0, .removeClient 0, .close 0] _ _ rfl).1
  revert hstop
  decide

end MyLibraries.TcpServer
