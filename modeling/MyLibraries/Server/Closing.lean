import MyLibraries.Server.Clients

/-!
# Who closes a connection

The accept thread closes what it cannot hand to a thread, and each handler closes its own
socket. Two steps break this: a client that finds the list full is dropped without a close,
and `terminate_all_clients` closes sockets that their handlers will close again.
-/

namespace MyLibraries.Server

open Descriptors Run

variable {cfg : Config} {s s' : State} {a : Action} {r : List Call} {c fd : Nat} {h : Handler}

/-- A client finds a free slot, and the list is empty when all clients are terminated. -/
def Orderly (s : State) (a : Action) : Prop :=
  (a = .addClient → 0 ∈ s.list) ∧ (a = .terminateAll → sockets s.list = [])

instance (s : State) (a : Action) : Decidable (Orderly s a) :=
  inferInstanceAs (Decidable (_ ∧ _))

/-- The list is right, and every open connection has one thread that will close it. -/
structure Closable (cfg : Config) (s : State) : Prop where
  listed : Listed cfg s
  accounted : s.table.Accounted s.holds

theorem holds_of_handler (hc : s.handlers c = some h) : s.holds c = h.holds :=
  view_of_handler hc

theorem holds_of_accept (hc : s.handlers c = none) : s.holds c = s.acceptThread.holds c :=
  view_of_accept hc

/-- The accept thread goes on with the connections it had. -/
theorem accounted_acceptThread (hs : s.table.Accounted s.holds) {p : AcceptPc}
    (hp : p.holds = s.acceptThread.holds) :
    s.table.Accounted (view s.handlers Handler.holds p.holds) := by
  rw [hp]
  exact hs

/-- A handler goes on with the connection it had. -/
theorem accounted_setPc (hs : s.table.Accounted s.holds) {pc pc' : HandlerPc}
    (hh : s.handlers c = some ⟨fd, pc⟩) (hl : Handler.holds ⟨fd, pc⟩ = Handler.holds ⟨fd, pc'⟩) :
    s.table.Accounted (view (Function.update s.handlers c (some ⟨fd, pc'⟩)) Handler.holds
      s.acceptThread.holds) := by
  rw [view_update_same (f := Handler.holds) c ⟨fd, pc'⟩ (fun _ _ => rfl)
    ((holds_of_handler hh).trans hl)]
  exact hs

theorem accounted_accept (hs : Closable cfg s) {g : Int} {table : Descriptors.Table}
    (hp : s.acceptThread = .loop (.looping g)) (ha : s.table.accept fd = some (c, table)) :
    table.Accounted (view s.handlers Handler.holds (AcceptPc.accepted fd c).holds) := by
  have hnone : s.handlers c = none := by
    obtain ⟨-, hc, -⟩ := Descriptors.Table.accept_eq_some ha
    cases hh : s.handlers c with
    | none => rfl
    | some h => exact absurd (hc ▸ (hs.listed.handler hh).1) (Nat.lt_irrefl _)
  have hafter : view s.handlers Handler.holds (AcceptPc.accepted fd c).holds =
      Function.update s.holds c (some fd) := by
    refine view_accept hnone (if_pos rfl) fun d hd => ?_
    rw [hp]
    exact if_neg hd
  rw [hafter]
  exact hs.accounted.accept ha

theorem accounted_start (hs : Closable cfg s) (hp : s.acceptThread = .added fd c) (l : Loop) :
    s.table.Accounted (view (Function.update s.handlers c (some ⟨fd, .reading⟩)) Handler.holds
      (AcceptPc.loop l).holds) := by
  obtain ⟨hnone, -, -, -⟩ := listed_conn hs.listed hp rfl
  have hc : s.holds c = some fd := by
    rw [holds_of_accept hnone, hp]
    exact if_pos rfl
  rw [view_update_same (f := Handler.holds) c ⟨fd, .reading⟩ (fun d hd => ?_) hc]
  · exact hs.accounted
  · rw [hp]
    exact (if_neg hd).symm

theorem accounted_closeClient (hs : Closable cfg s) (hp : s.acceptThread = .createFailed fd c) :
    (s.table.close fd [c]).Accounted
      (view s.handlers Handler.holds (AcceptPc.createClosed fd c).holds) := by
  obtain ⟨hnone, -, -, -⟩ := listed_conn hs.listed hp rfl
  have hc : s.holds c = some fd := by
    rw [holds_of_accept hnone, hp]
    exact if_pos rfl
  have hafter : view s.handlers Handler.holds (AcceptPc.createClosed fd c).holds =
      Function.update s.holds c none := by
    refine view_accept hnone rfl fun d hd => ?_
    rw [hp]
    exact (if_neg hd).symm
  rw [hafter]
  exact hs.accounted.close hc

theorem accounted_close (hs : Closable cfg s) (hh : s.handlers c = some ⟨fd, .closing⟩) :
    (s.table.close fd [c]).Accounted (view (Function.update s.handlers c (some ⟨fd, .removing⟩))
      Handler.holds s.acceptThread.holds) := by
  have hc : s.holds c = some fd := holds_of_handler hh
  rw [view_update (f := Handler.holds) c ⟨fd, .removing⟩ fun _ _ => rfl]
  exact hs.accounted.close hc

/-- **Every orderly step leaves each open connection with one thread that will close it.** -/
theorem closable_step (hs : Closable cfg s) (ho : Orderly s a) (h : step cfg s a = some (r, s')) :
    Closable cfg s' := by
  refine ⟨listed_step hs.listed h, ?_⟩
  cases move_of_step h with
  | noMemory hp l => exact accounted_acceptThread hs.accounted (by rw [hp]; rfl)
  | acceptFails hp l => exact accounted_acceptThread hs.accounted (by rw [hp]; rfl)
  | accept hp _ ha => exact accounted_accept hs hp ha
  | addFails _ hfull => exact absurd (ho.1 rfl) hfull
  | addClient hp _ => exact accounted_acceptThread hs.accounted (by rw [hp]; rfl)
  | start hp l => exact accounted_start hs hp l
  | createFails hp => exact accounted_acceptThread hs.accounted (by rw [hp]; rfl)
  | closeClient hp => exact accounted_closeClient hs hp
  | removeClient hp => exact accounted_acceptThread hs.accounted (by rw [hp]; rfl)
  | readEnds hh => exact accounted_setPc hs.accounted hh rfl
  | close hh => exact accounted_close hs hh
  | remove hh => exact accounted_setPc hs.accounted hh rfl
  | terminateAll _ =>
    show Descriptors.Table.Accounted (List.foldl _ _ (sockets s.list)) _
    rw [ho.2 rfl]
    exact hs.accounted
  | closeListening _ => exact hs.accounted

theorem closable_init (cfg : Config) (g : Int) : Closable cfg (.init cfg g) :=
  ⟨listed_init cfg g, Descriptors.Table.accounted_empty⟩

/-! ## Runs -/

/-- All handlers have ended, and the accept thread has no connection in its hands. -/
def Quiescent (s : State) : Prop :=
  (∀ c h, s.handlers c = some h → h.pc = .done) ∧ s.acceptThread.conn = none

theorem holds_of_quiescent (h : Quiescent s) (c : Nat) : s.holds c = none := by
  unfold State.holds view
  split
  · rename_i hd hh
    obtain ⟨fd, pc⟩ := hd
    have hpc : pc = .done := h.1 c _ hh
    rw [hpc]
    rfl
  · have hconn := h.2
    cases hp : s.acceptThread with
    | loop l => rfl
    | _ => rw [hp] at hconn; cases hconn

/-- **Every connection is closed once.** When no client comes to a full list and
`terminate_all_clients` finds the list empty, no close goes wrong, and in the end every
connection has been closed once. -/
theorem sockets_closed_once (cfg : Config) (g : Int) (is : List Action) {rs : List (List Call)}
    (horderly : AlongRun (step cfg) Orderly (.init cfg g) is)
    (hrun : run (step cfg) (.init cfg g) is = some (rs, s)) :
    s.table.AllProper ∧ (Quiescent s → ∀ c < s.table.next, s.table.ClosedOnce c) := by
  have hs : Closable cfg s :=
    inv_of_alongRun (fun _ _ _ _ hs ho hstep => closable_step hs ho hstep)
      (closable_init cfg g) horderly hrun
  exact ⟨hs.accounted.proper,
    fun hq c hc => hs.accounted.closedOnce hc (holds_of_quiescent hq c)⟩

/-- The clients of `reuse` end, and the server is stopped. -/
def reuseAndStop : List Action :=
  reuse ++ [.remove 0, .readEnds 1, .close 1, .remove 1, .terminateAll, .closeListening]

theorem sockets_closed_once_reuse : ∃ rs s,
    run (step ⟨false, 3, 2⟩) (.init ⟨false, 3, 2⟩ 0) reuseAndStop = some (rs, s) ∧
      s.table.AllProper ∧ (Quiescent s → ∀ c < s.table.next, s.table.ClosedOnce c) :=
  ⟨_, _, rfl, sockets_closed_once ⟨false, 3, 2⟩ 0 reuseAndStop (by decide) rfl⟩

/-- `server_stop` closes the socket of a client, and so does its handler. -/
theorem server_stop_closes_twice : ¬ ∀ cfg g is rs s,
    run (step cfg) (.init cfg g) is = some (rs, s) →
    s.table.AllProper ∧ (Quiescent s → ∀ c < s.table.next, s.table.ClosedOnce c) := by
  intro h
  have hstop := (h ⟨false, 3, 128⟩ 0 [.accept 5, .addClient, .start, .terminateAll,
    .closeListening, .readEnds 0, .close 0, .remove 0] _ _ rfl).1
  revert hstop
  decide

end MyLibraries.Server
