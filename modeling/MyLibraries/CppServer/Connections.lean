import MyLibraries.CppServer.Invariant

/-!
# What becomes of the connections, and of the server

A connection is announced once, closed once, and reported as gone when it is; no `shutdown`
is for a number that stands for no connection. When the server thread has ended, every
client that is still read from has been shut down. But a `Start` that cannot bind its socket
leaves a server that can neither be started again nor stopped.
-/

namespace MyLibraries.CppServer

open Descriptors Run

variable {max : Nat} {s s' : State} {a : Action} {r : Option Event} {c d fd n : Nat}
  {is : List Action} {rs : List (Option Event)}

/-- The reports about the connection `c`. -/
def about (c : Nat) : Option Event → List Event
  | some (.onConnect d) => if d = c then [.onConnect d] else []
  | some (.onDisconnect d) => if d = c then [.onDisconnect d] else []
  | _ => []

/-- What is to be heard of the connection `c` so far. -/
def State.heard (s : State) (c : Nat) : List Event :=
  (if c < s.table.next then [.onConnect c] else []) ++
    if c ∈ s.table.hits then [.onDisconnect c] else []

/-- The handler of the connection `c` is at `pc`. -/
def State.At (s : State) (c : Nat) (pc : HandlerPc) : Prop := ∃ fd, s.handlers c = some ⟨fd, pc⟩

/-! ## Connections -/

/-- What a step reports of a connection is what is heard of it after the step, and was not
before. -/
theorem heard_step (hs : Inv max s) (h : step max s a = some (r, s')) (c : Nat) :
    s'.heard c = s.heard c ++ about c r := by
  have hquiet (htable : s'.table = s.table) (hr : about c r = []) :
      s'.heard c = s.heard c ++ about c r := by
    unfold State.heard
    rw [htable, hr, List.append_nil]
  cases move_of_step h with
  | @accept fd d table _ _ ha =>
    obtain ⟨-, hd, htable⟩ := Descriptors.Table.accept_eq_some ha
    have hcame : d ∉ s.table.hits := fun hhit => by
      have hlt := (hs.roster.accounted.ok.came_iff d).mpr (.inr hhit)
      omega
    have hhits : table.hits = s.table.hits := by rw [htable]; rfl
    have hnext : table.next = s.table.next + 1 := by rw [htable]
    simp only [State.heard, hhits, hnext]
    by_cases hcd : c = d
    · subst hcd
      rw [if_neg hcame, if_pos (by omega), if_neg (by omega)]
      simp [about]
    · have hlt : c < s.table.next + 1 ↔ c < s.table.next := by omega
      simp [about, hlt, Ne.symm hcd]
  | @close d fd hh =>
    have hc : s.holds d = some fd := holds_of_handler hh
    have ho := (hs.roster.accounted.holds_iff d fd).mp hc
    have hlt := hs.roster.accounted.lt hc
    have hnot := hs.roster.accounted.ok.not_hit ho
    have hhits : (s.table.close fd [d]).hits = d :: s.table.hits := by
      rw [Descriptors.Table.hits_close, ho]
      rfl
    have hnext : (s.table.close fd [d]).next = s.table.next := rfl
    simp only [State.heard, hhits, hnext]
    by_cases hcd : c = d
    · subst hcd
      rw [if_pos hlt, if_pos List.mem_cons_self, if_neg hnot]
      simp [about]
    · simp [about, hcd, Ne.symm hcd]
  | _ => exact hquiet rfl rfl

theorem heard_run (hs : Inv max s) (hrun : run (step max) s is = some (rs, s')) (c : Nat) :
    s'.heard c = s.heard c ++ rs.flatMap (about c) := by
  induction is generalizing s rs with
  | nil =>
    cases hrun
    rw [List.flatMap_nil, List.append_nil]
  | cons a is ih =>
    obtain ⟨r, s₁, rs', h₁, h₂, rfl⟩ := run_cons_eq_some hrun
    rw [ih (inv_step hs h₁) h₂, heard_step hs h₁ c, List.append_assoc, List.flatMap_cons]

/-- What has been closed was closed by its handler. -/
def Finished (s : State) : Prop := ∀ c ∈ s.table.hits, s.At c .done

theorem at_setPc {pc pc' : HandlerPc} (hh : s.handlers d = some ⟨fd, pc⟩) (hpc : pc ≠ .done)
    (hs' : s'.handlers = Function.update s.handlers d (some ⟨fd, pc'⟩)) (hc : s.At c .done) :
    s'.At c .done := by
  obtain ⟨g, hg⟩ := hc
  have hcd : c ≠ d := by
    intro hcd
    rw [hcd, hh] at hg
    cases hg
    exact hpc rfl
  exact ⟨g, by rw [hs', Function.update_of_ne hcd]; exact hg⟩

theorem finished_step (hs : Inv max s) (hf : Finished s) (h : step max s a = some (r, s')) :
    Finished s' := by
  cases move_of_step h with
  | accept _ _ ha =>
    obtain ⟨-, -, rfl⟩ := Descriptors.Table.accept_eq_some ha
    exact hf
  | @serve fd d hp =>
    have hconn : s.serverThread.holds d = some fd := by rw [hp]; exact if_pos rfl
    have hnone := hs.fresh d fd hconn
    intro c hc
    obtain ⟨g, hg⟩ := hf c hc
    have hcd : c ≠ d := fun hcd => by rw [hcd, hnone] at hg; cases hg
    exact ⟨g, (Function.update_of_ne hcd ..).trans hg⟩
  | readEnds hh => exact fun c hc => at_setPc hh HandlerPc.noConfusion rfl (hf c hc)
  | erase hh => exact fun c hc => at_setPc hh HandlerPc.noConfusion rfl (hf c hc)
  | @close d fd hh =>
    have hc : s.holds d = some fd := holds_of_handler hh
    have ho := (hs.roster.accounted.holds_iff d fd).mp hc
    intro c hc
    replace hc : c ∈ (s.table.close fd [d]).hits := hc
    rw [Descriptors.Table.hits_close, ho] at hc
    rcases List.mem_cons.mp hc with rfl | hc
    · exact ⟨fd, Function.update_self ..⟩
    · exact at_setPc hh HandlerPc.noConfusion rfl (hf c hc)
  | _ => exact hf

theorem finished_run (hrun : run (step max) .init is = some (rs, s)) : Finished s := by
  have hstep : ∀ s i r s', Inv max s ∧ Finished s → True → step max s i = some (r, s') →
      Inv max s' ∧ Finished s' :=
    fun _ _ _ _ hs _ h => ⟨inv_step hs.1 h, finished_step hs.1 hs.2 h⟩
  have hstart : Inv max .init ∧ Finished .init := ⟨inv_init max, fun c hc => nomatch hc⟩
  exact (inv_of_alongRun (C := fun _ _ => True) hstep hstart
    (alongRun_of_forall (fun _ _ _ => trivial) _) hrun).2

theorem not_open_of_done (hs : Inv max s) (hd : s.At c .done) : ¬s.table.IsOpen c := by
  rintro ⟨fd, ho⟩
  obtain ⟨g, hg⟩ := hd
  have hc := (hs.roster.accounted.holds_iff c fd).mpr ho
  rw [holds_of_handler hg] at hc
  cases hc

/-- The connection `c` is open, has been announced, and is not yet reported as gone. -/
def Alive (s : State) (heard : List Event) (c : Nat) : Prop :=
  s.table.IsOpen c ∧ ¬s.At c .done ∧ heard = [.onConnect c]

/-- The connection `c` has been announced, closed once and reported as gone. -/
def Gone (s : State) (heard : List Event) (c : Nat) : Prop :=
  s.table.ClosedOnce c ∧ s.At c .done ∧ heard = [.onConnect c, .onDisconnect c]

/-- **Connections.** Whatever order the threads take their steps in, also when the server is
stopped and started again: every close hits the connection it is meant for, every `shutdown`
an open one, the list has numbers of open connections only, and each connection that came is
alive or gone. -/
theorem connections_of_run (max : Nat) (is : List Action)
    (hrun : run (step max) .init is = some (rs, s)) :
    s.table.AllProper ∧ (∀ e ∈ s.shutdowns, ∃ c, e.hit = some c) ∧
      (∀ fd ∈ s.clientsList, ∃ c, s.table.owner fd = some c) ∧
      ∀ c < s.table.next, Alive s (rs.flatMap (about c)) c ∨ Gone s (rs.flatMap (about c)) c := by
  have hs := inv_run hrun
  refine ⟨hs.roster.accounted.proper, hs.hit, fun fd hfd => ?_, fun c hc => ?_⟩
  · obtain ⟨c, -, ho⟩ := hs.roster.owner_of_mem hfd
    exact ⟨c, ho⟩
  · have hheard : s.heard c = rs.flatMap (about c) := heard_run (inv_init max) hrun c
    rw [← hheard]
    rcases (hs.roster.accounted.ok.came_iff c).mp hc with hopen | hhit
    · left
      refine ⟨hopen, fun hd => not_open_of_done hs hd hopen, ?_⟩
      obtain ⟨fd, ho⟩ := hopen
      unfold State.heard
      rw [if_pos hc, if_neg (hs.roster.accounted.ok.not_hit ho), List.append_nil]
    · right
      have hdone := finished_run hrun c hhit
      refine ⟨Descriptors.Table.closedOnce_of_not_open hs.roster.accounted.ok hc
        (not_open_of_done hs hdone), hdone, ?_⟩
      unfold State.heard
      rw [if_pos hc, if_pos hhit]
      rfl

/-- The second client comes with the number of the first one, and is served while the server
is stopped. -/
def reused : List Action :=
  [.start .ok, .accept 5, .insert, .serve, .readEnds 0, .erase 0, .close 0, .accept 5, .stop,
    .insert, .serve, .shutdown, .acceptFails, .leave, .join]

theorem connections_of_run_reused : ∃ rs s, run (step 32) .init reused = some (rs, s) ∧
    s.table.AllProper ∧ (∀ e ∈ s.shutdowns, ∃ c, e.hit = some c) ∧
      (∀ fd ∈ s.clientsList, ∃ c, s.table.owner fd = some c) ∧
      ∀ c < s.table.next, Alive s (rs.flatMap (about c)) c ∨ Gone s (rs.flatMap (about c)) c :=
  ⟨_, _, rfl, connections_of_run 32 reused rfl⟩

/-! ## The end of the server thread -/

/-- **The end.** When the server thread has ended, which it has when `Stop` has returned, a
client that its handler still reads from has been shut down, though it may have come while
the server was being stopped; with a single connection no handler is left at all. -/
theorem clients_after_end (max : Nat) (is : List Action)
    (hrun : run (step max) .init is = some (rs, s)) :
    (s.control = .stopped → s.serverThread = .ended) ∧
    (s.serverThread = .ended → (∀ c, s.At c .reading → s.Halted c) ∧
      (max = 1 → s.clientsList = [] ∧ ∀ c h, s.handlers c = some h → h.pc = .done)) := by
  have hs := inv_run hrun
  refine ⟨fun hc => hs.threads.ended (hs.threads.stopped hc), fun hend => ⟨?_, fun hmax => ?_⟩⟩
  · rintro c ⟨fd, hh⟩
    exact hs.halted hend c fd (listed_of_handler hh)
  · have hdone : ∀ c h, s.handlers c = some h → h.pc = .done := by
      intro c h hh
      refine done_of_single hs (fun d hd => ?_) hmax hh
      rw [hend] at hd
      cases hd
    refine ⟨List.eq_nil_iff_forall_not_mem.mpr fun fd hfd => ?_, hdone⟩
    obtain ⟨c, hc⟩ := (hs.roster.mem_iff fd).mp hfd
    cases hh : s.handlers c with
    | none =>
      rw [listed_of_server hh, hend] at hc
      cases hc
    | some h =>
      have hpc := hdone c h hh
      rw [listed_of_handler hh, Handler.listed, hpc] at hc
      cases hc

theorem clients_after_end_reused : ∃ rs s, run (step 32) .init reused = some (rs, s) ∧
    s.At 1 .reading ∧ s.Halted 1 := by
  refine ⟨_, _, rfl, ⟨5, rfl⟩, ?_⟩
  exact ((clients_after_end 32 reused rfl).2 rfl).1 1 ⟨5, rfl⟩

/-! ## Starting and stopping -/

/-- `_sockfd` has a value, but no thread was started. -/
def Stuck (s : State) : Prop := s.control ≠ .stopped ∧ s.joinable = false

end MyLibraries.CppServer
