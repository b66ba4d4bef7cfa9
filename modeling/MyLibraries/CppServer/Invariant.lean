import MyLibraries.CppServer.Model

/-!
# What the steps of the `Server` keep

Every open connection is held by exactly one thread, and the list has the numbers that have
been registered; `unregister_clients` changes neither. A connection is in the list before
its handler runs, so that the server thread, when it has left its loop, finds all that are
still served.
-/

namespace MyLibraries.CppServer

open Descriptors Run

/-- The connection of the server thread is not yet a handler's. -/
def ServerPc.Fresh (pc : ServerPc) (handlers : Nat → Option Handler) : Prop :=
  ∀ c fd, pc.holds c = some fd → handlers c = none

/-- The thread that has been started can be joined, and it has ended before it is. -/
structure Threads (s : State) : Prop where
  ended : s.joinable = false → s.serverThread = .ended
  stopped : s.control = .stopped → s.joinable = false

structure Inv (max : Nat) (s : State) : Prop where
  roster : Roster s.table s.clientsList s.holds s.listed
  fresh : s.serverThread.Fresh s.handlers
  handler_lt : ∀ {c h}, s.handlers c = some h → c < s.table.next
  hit : ∀ e ∈ s.shutdowns, ∃ c, e.hit = some c
  halted : s.serverThread = .ended → ∀ c fd, s.listed c = some fd → s.Halted c
  single : max = 1 → ∀ c h, s.handlers c = some h → h.pc ≠ .done → s.serverThread = .serving c
  threads : Threads s

variable {max : Nat} {s s' : State} {a : Action} {r : Option Event} {c d fd n : Nat}
  {h : Handler} {pc : HandlerPc}

/-! ## What a step can do -/

/-- The steps of the threads, with what must hold before, what is reported and what holds
after. -/
inductive Move (max : Nat) (s : State) : Action → Option Event → State → Prop
  | socketFails (hc : s.control = .stopped) :
      Move max s (.start .socketFails) (some .socketError) s
  | bindFails (hc : s.control = .stopped) :
      Move max s (.start .bindFails) (some .setupError) { s with control := .started }
  | start (hc : s.control = .stopped) :
      Move max s (.start .ok) none
        { s with control := .started, serverThread := .accepting, joinable := true }
  | alreadyOpened {setup : Setup} (hc : s.control = .started) :
      Move max s (.start setup) (some .alreadyOpened) s
  | accept {fd c : Nat} {table : Descriptors.Table} (hp : s.serverThread = .accepting)
      (hc : s.control ≠ .shut) (ha : s.table.accept fd = some (c, table)) :
      Move max s (.accept fd) (some (.onConnect c))
        { s with table := table, serverThread := .accepted fd c }
  | acceptFails (hp : s.serverThread = .accepting) :
      Move max s .acceptFails none { s with serverThread := .leaving }
  | insert {fd c : Nat} (hp : s.serverThread = .accepted fd c) :
      Move max s .insert none { s with
        clientsList := s.clientsList.insert fd, serverThread := .registered fd c }
  | serve {fd c : Nat} (hp : s.serverThread = .registered fd c) :
      Move max s .serve none
        { s.setPc c fd .reading with serverThread := .afterServe max c }
  | leave (hp : s.serverThread = .leaving) :
      Move max s .leave none { s.unregisterClients with serverThread := .ended }
  | readEnds {c fd : Nat} (hh : s.handlers c = some ⟨fd, .reading⟩) :
      Move max s (.readEnds c) none (s.setPc c fd .removing)
  | erase {c fd : Nat} (hh : s.handlers c = some ⟨fd, .removing⟩) :
      Move max s (.erase c) none
        { s.setPc c fd .closing with clientsList := s.clientsList.erase fd }
  | close {c fd : Nat} (hh : s.handlers c = some ⟨fd, .closing⟩) :
      Move max s (.close c) (some (.onDisconnect c)) { s.setPc c fd .done with
        table := s.table.close fd [c]
        serverThread := s.serverThread.afterHandler c }
  | notStarted (hc : s.control = .stopped) : Move max s .stop none s
  | stop (hc : s.control = .started) :
      Move max s .stop none { s.unregisterClients with control := .unregistered }
  | shutdown (hc : s.control = .unregistered) :
      Move max s .shutdown none { s with control := .shut }
  | join (hc : s.control = .shut) (hj : s.joinable = true) (hp : s.serverThread = .ended) :
      Move max s .join none { s with control := .stopped, joinable := false }
  | joinThrows (hc : s.control = .shut) (hj : s.joinable = false) :
      Move max s .join (some .joinThrows) { s with control := .started }

theorem move_of_step (h : step max s a = some (r, s')) : Move max s a r s' := by
  unfold step at h
  split at h
  · split at h
    · rename_i setup _ hc
      cases setup with
      | ok =>
        cases h
        exact .start hc
      | socketFails =>
        cases h
        exact .socketFails hc
      | bindFails =>
        cases h
        exact .bindFails hc
    · rename_i hc
      cases h
      exact .alreadyOpened hc
    · cases h
  · rename_i hp
    split at h
    · cases h
    · rename_i hc
      obtain ⟨⟨c, table⟩, ha, heq⟩ := Option.map_eq_some_iff.mp h
      cases heq
      exact .accept hp hc ha
  · rename_i hp
    cases h
    exact .acceptFails hp
  · rename_i hp
    cases h
    exact .insert hp
  · rename_i hp
    cases h
    exact .serve hp
  · rename_i hp
    cases h
    exact .leave hp
  · split at h
    · rename_i hh
      cases h
      exact .readEnds hh
    · cases h
  · split at h
    · rename_i hh
      cases h
      exact .erase hh
    · cases h
  · split at h
    · rename_i hh
      cases h
      exact .close hh
    · cases h
  · split at h
    · rename_i hc
      cases h
      exact .notStarted hc
    · rename_i hc
      cases h
      exact .stop hc
    · cases h
  · split at h
    · rename_i hc
      cases h
      exact .shutdown hc
    · cases h
  · split at h
    · rename_i hc
      split at h
      · rename_i hj
        split at h
        · rename_i hp
          cases h
          exact .join hc hj hp
        · cases h
      · rename_i hj
        cases h
        exact .joinThrows hc (Bool.eq_false_iff.mpr hj)
    · cases h
  · cases h

/-! ## The two views of a state -/

theorem holds_of_handler (hc : s.handlers c = some h) : s.holds c = h.holds :=
  view_of_handler hc

theorem listed_of_handler (hc : s.handlers c = some h) : s.listed c = h.listed :=
  view_of_handler hc

theorem holds_of_server (hc : s.handlers c = none) : s.holds c = s.serverThread.holds c :=
  view_of_accept hc

theorem listed_of_server (hc : s.handlers c = none) : s.listed c = s.serverThread.listed c :=
  view_of_accept hc

@[simp] theorem afterServe_holds (max c d : Nat) : (ServerPc.afterServe max c).holds d = none := by
  unfold ServerPc.afterServe
  split <;> rfl

@[simp] theorem afterServe_listed (max c d : Nat) :
    (ServerPc.afterServe max c).listed d = none := by
  unfold ServerPc.afterServe
  split <;> rfl

@[simp] theorem afterHandler_holds (p : ServerPc) (c : Nat) :
    (p.afterHandler c).holds = p.holds := by
  unfold ServerPc.afterHandler
  split
  · rename_i hp
    rw [hp]
    rfl
  · rfl

@[simp] theorem afterHandler_listed (p : ServerPc) (c : Nat) :
    (p.afterHandler c).listed = p.listed := by
  unfold ServerPc.afterHandler
  split
  · rename_i hp
    rw [hp]
    rfl
  · rfl

theorem afterHandler_eq_ended {p : ServerPc} : p.afterHandler c = .ended ↔ p = .ended := by
  unfold ServerPc.afterHandler
  split
  · rename_i hp
    rw [hp]
    exact iff_of_false ServerPc.noConfusion ServerPc.noConfusion
  · exact Iff.rfl

/-- The connection that the server thread holds, seen from the state. -/
theorem holds_of_serverThread (hs : Inv max s) (hp : s.serverThread.holds c = some fd) :
    s.handlers c = none ∧ s.holds c = some fd := by
  have hnone := hs.fresh c fd hp
  refine ⟨hnone, ?_⟩
  rw [holds_of_server hnone]
  exact hp

theorem setPc_lt (hs : Inv max s) (hc : s.holds c = some fd)
    (hh : s'.handlers = Function.update s.handlers c (some h)) {d : Nat} {g : Handler}
    (hd : s'.handlers d = some g) : d < s.table.next := by
  by_cases hdc : d = c
  · rw [hdc]
    exact hs.roster.accounted.lt hc
  · rw [hh, Function.update_of_ne hdc] at hd
    exact hs.handler_lt hd

/-- A handler that goes on is none that the server thread is about to start. -/
theorem fresh_setPc (hs : Inv max s) (hc : s.handlers c = some h) {g : Handler} :
    s.serverThread.Fresh (Function.update s.handlers c (some g)) := by
  intro d fd hd
  have hnone := hs.fresh d fd hd
  by_cases hdc : d = c
  · rw [hdc, hc] at hnone
    cases hnone
  · rw [Function.update_of_ne hdc]
    exact hnone

/-- With a single connection, a handler that goes on is run by the server thread. -/
theorem single_setPc (hs : Inv max s) (hc : s.handlers c = some h) (hpc : h.pc ≠ .done)
    {g g' : Handler} (hp : s'.serverThread = s.serverThread)
    (hh : s'.handlers = Function.update s.handlers c (some g)) (hmax : max = 1)
    (hd : s'.handlers d = some g') (hdone : g'.pc ≠ .done) : s'.serverThread = .serving d := by
  rw [hp]
  by_cases hdc : d = c
  · rw [hdc]
    exact hs.single hmax c h hc hpc
  · rw [hh, Function.update_of_ne hdc] at hd
    exact hs.single hmax d g' hd hdone

/-- A handler runs when the server thread is not at `accept` with a single connection. -/
theorem done_of_single (hs : Inv max s) (hp : ∀ c, s.serverThread ≠ .serving c) (hmax : max = 1)
    (hc : s.handlers c = some h) : h.pc = .done :=
  by_contra fun hdone => hp c (hs.single hmax c h hc hdone)

/-! ## Closing the listening socket -/

theorem unregister_hit (hs : Inv max s) :
    ∀ e ∈ s.unregisterClients.shutdowns, ∃ c, e.hit = some c := by
  intro e he
  rcases List.mem_append.mp he with hnew | hold
  · obtain ⟨fd, hfd, rfl⟩ := List.mem_map.mp hnew
    obtain ⟨c, -, ho⟩ := hs.roster.owner_of_mem hfd
    exact ⟨c, ho⟩
  · exact hs.hit e hold

/-- All that are in the list are shut down. -/
theorem unregister_halted (hs : Inv max s) (hl : s.listed c = some fd) :
    s.unregisterClients.Halted c := by
  have hmem : fd ∈ s.clientsList := (hs.roster.mem_iff fd).mpr ⟨c, hl⟩
  have ho := (hs.roster.accounted.holds_iff c fd).mp (hs.roster.holds_of_listed hl)
  exact ⟨⟨fd, s.table.owner fd⟩, List.mem_append_left _ (List.mem_map.mpr ⟨fd, hmem, rfl⟩), ho⟩

theorem halted_mono (h : s.Halted c) : s.unregisterClients.Halted c := by
  obtain ⟨e, he, hc⟩ := h
  exact ⟨e, List.mem_append_right _ he, hc⟩

/-! ## The steps -/

theorem inv_init (max : Nat) : Inv max .init := by
  constructor
  · exact Roster.empty
  · intro c fd h
    cases h
  · intro c h hc
    cases hc
  · intro e he
    cases he
  · intro _ c fd h
    cases h
  · intro _ c h hc
    cases hc
  · exact ⟨fun _ => rfl, fun _ => rfl⟩

theorem inv_accept (hs : Inv max s) {table : Descriptors.Table} (hp : s.serverThread = .accepting)
    (ha : s.table.accept fd = some (c, table)) :
    Inv max { s with table := table, serverThread := .accepted fd c } := by
  obtain ⟨-, hc, htable⟩ := Descriptors.Table.accept_eq_some ha
  have hnone : s.handlers c = none := by
    cases hh : s.handlers c with
    | none => rfl
    | some h => exact absurd (hc ▸ hs.handler_lt hh) (Nat.lt_irrefl _)
  have hholds : State.holds { s with table := table, serverThread := .accepted fd c } =
      Function.update s.holds c (some fd) := by
    refine view_accept hnone (if_pos rfl) fun d hd => ?_
    rw [hp]
    exact if_neg hd
  have hlisted : State.listed { s with table := table, serverThread := .accepted fd c } =
      s.listed := by
    unfold State.listed
    rw [hp]
    rfl
  constructor
  · rw [hholds, hlisted]
    exact hs.roster.accept ha
  · intro d g hd
    simp only [ServerPc.holds] at hd
    split at hd
    · rename_i heq
      rw [heq]
      exact hnone
    · cases hd
  · intro d h hd
    rw [htable]
    exact Nat.lt_succ_of_lt (hs.handler_lt hd)
  · exact hs.hit
  · intro hend
    cases hend
  · intro hmax d h hd hdone
    have hserving := hs.single hmax d h hd hdone
    rw [hp] at hserving
    cases hserving
  · refine ⟨fun hj => ?_, hs.threads.stopped⟩
    have hend := hs.threads.ended hj
    rw [hp] at hend
    cases hend

theorem inv_insert (hs : Inv max s) (hp : s.serverThread = .accepted fd c) :
    Inv max { s with
      clientsList := s.clientsList.insert fd, serverThread := .registered fd c } := by
  have hconn : s.serverThread.holds c = some fd := by rw [hp]; exact if_pos rfl
  obtain ⟨hnone, hc⟩ := holds_of_serverThread hs hconn
  have hfresh := hs.fresh
  rw [hp] at hfresh
  have hholds : State.holds { s with
      clientsList := s.clientsList.insert fd, serverThread := .registered fd c } = s.holds := by
    unfold State.holds
    rw [hp]
    rfl
  have hlisted : State.listed { s with
      clientsList := s.clientsList.insert fd, serverThread := .registered fd c } =
      Function.update s.listed c (some fd) := by
    refine view_accept hnone (if_pos rfl) fun d hd => ?_
    rw [hp]
    exact if_neg hd
  have hbefore : s.listed c = none := by
    rw [listed_of_server hnone, hp]
    rfl
  constructor
  · rw [hholds, hlisted]
    exact hs.roster.insert hc hbefore
  · exact hfresh
  · exact hs.handler_lt
  · exact hs.hit
  · intro hend
    cases hend
  · intro hmax d h hd hdone
    have hserving := hs.single hmax d h hd hdone
    rw [hp] at hserving
    cases hserving
  · refine ⟨fun hj => ?_, hs.threads.stopped⟩
    have hend := hs.threads.ended hj
    rw [hp] at hend
    cases hend

theorem inv_serve (hs : Inv max s) (hp : s.serverThread = .registered fd c) :
    Inv max { s.setPc c fd .reading with serverThread := .afterServe max c } := by
  have hconn : s.serverThread.holds c = some fd := by rw [hp]; exact if_pos rfl
  obtain ⟨hnone, hc⟩ := holds_of_serverThread hs hconn
  have hl : s.listed c = some fd := by
    rw [listed_of_server hnone, hp]
    exact if_pos rfl
  have hholds : State.holds { s.setPc c fd .reading with serverThread := .afterServe max c } =
      s.holds := by
    refine view_update_same (f := Handler.holds) c ⟨fd, .reading⟩ (fun d hd => ?_) hc
    rw [afterServe_holds, hp]
    exact (if_neg hd).symm
  have hlisted : State.listed { s.setPc c fd .reading with serverThread := .afterServe max c } =
      s.listed := by
    refine view_update_same (f := Handler.listed) c ⟨fd, .reading⟩ (fun d hd => ?_) hl
    rw [afterServe_listed, hp]
    exact (if_neg hd).symm
  have hnever : ServerPc.afterServe max c ≠ .ended := by
    unfold ServerPc.afterServe
    split <;> exact ServerPc.noConfusion
  constructor
  · rw [hholds, hlisted]
    exact hs.roster
  · intro d g hd
    rw [afterServe_holds] at hd
    cases hd
  · exact fun hd => setPc_lt hs hc rfl hd
  · exact hs.hit
  · exact fun hend => absurd hend hnever
  · intro hmax d h hd hdone
    by_cases hdc : d = c
    · rw [hdc]
      exact if_pos hmax
    · replace hd : Function.update s.handlers c (some ⟨fd, .reading⟩) d = some h := hd
      rw [Function.update_of_ne hdc] at hd
      have hserving := hs.single hmax d h hd hdone
      rw [hp] at hserving
      cases hserving
  · refine ⟨fun hj => ?_, hs.threads.stopped⟩
    have hend := hs.threads.ended hj
    rw [hp] at hend
    cases hend

theorem inv_readEnds (hs : Inv max s) (hh : s.handlers c = some ⟨fd, .reading⟩) :
    Inv max (s.setPc c fd .removing) := by
  have hc : s.holds c = some fd := holds_of_handler hh
  have hl : s.listed c = some fd := listed_of_handler hh
  have hholds : (s.setPc c fd .removing).holds = s.holds :=
    view_update_same (f := Handler.holds) c ⟨fd, .removing⟩ (fun _ _ => rfl) hc
  have hlisted : (s.setPc c fd .removing).listed = s.listed :=
    view_update_same (f := Handler.listed) c ⟨fd, .removing⟩ (fun _ _ => rfl) hl
  constructor
  · rw [hholds, hlisted]
    exact hs.roster
  · exact fresh_setPc hs hh
  · exact fun hd => setPc_lt hs hc rfl hd
  · exact hs.hit
  · intro hend d g hd
    rw [hlisted] at hd
    exact hs.halted hend d g hd
  · exact fun hmax d h hd hdone =>
      single_setPc hs hh HandlerPc.noConfusion rfl rfl hmax hd hdone
  · exact ⟨hs.threads.ended, hs.threads.stopped⟩

theorem inv_erase (hs : Inv max s) (hh : s.handlers c = some ⟨fd, .removing⟩) :
    Inv max { s.setPc c fd .closing with clientsList := s.clientsList.erase fd } := by
  have hc : s.holds c = some fd := holds_of_handler hh
  have hl : s.listed c = some fd := listed_of_handler hh
  have hholds : State.holds { s.setPc c fd .closing with clientsList := s.clientsList.erase fd } =
      s.holds := view_update_same (f := Handler.holds) c ⟨fd, .closing⟩ (fun _ _ => rfl) hc
  have hlisted : State.listed { s.setPc c fd .closing with
      clientsList := s.clientsList.erase fd } = Function.update s.listed c none :=
    view_update (f := Handler.listed) c ⟨fd, .closing⟩ fun _ _ => rfl
  constructor
  · rw [hholds, hlisted]
    exact hs.roster.erase hl
  · exact fresh_setPc hs hh
  · exact fun hd => setPc_lt hs hc rfl hd
  · exact hs.hit
  · intro hend d g hd
    rw [hlisted] at hd
    by_cases hdc : d = c
    · rw [hdc, Function.update_self] at hd
      cases hd
    · rw [Function.update_of_ne hdc] at hd
      exact hs.halted hend d g hd
  · exact fun hmax d h hd hdone =>
      single_setPc hs hh HandlerPc.noConfusion rfl rfl hmax hd hdone
  · exact ⟨hs.threads.ended, hs.threads.stopped⟩

theorem inv_close (hs : Inv max s) (hh : s.handlers c = some ⟨fd, .closing⟩) :
    Inv max { s.setPc c fd .done with
      table := s.table.close fd [c]
      serverThread := s.serverThread.afterHandler c } := by
  have hc : s.holds c = some fd := holds_of_handler hh
  have hl : s.listed c = none := listed_of_handler hh
  have hholds : State.holds { s.setPc c fd .done with
      table := s.table.close fd [c]
      serverThread := s.serverThread.afterHandler c } =
      Function.update s.holds c none :=
    view_update (f := Handler.holds) c ⟨fd, .done⟩ fun d _ => congrFun (afterHandler_holds ..) d
  have hlisted : State.listed { s.setPc c fd .done with
      table := s.table.close fd [c]
      serverThread := s.serverThread.afterHandler c } =
      s.listed :=
    view_update_same (f := Handler.listed) c ⟨fd, .done⟩
      (fun d _ => congrFun (afterHandler_listed ..) d) hl
  constructor
  · rw [hholds, hlisted]
    exact hs.roster.close hc hl
  · intro d g hd
    rw [afterHandler_holds] at hd
    exact fresh_setPc hs hh d g hd
  · exact fun hd => setPc_lt hs hc rfl hd
  · exact hs.hit
  · intro hend d g hd
    rw [hlisted] at hd
    exact hs.halted (afterHandler_eq_ended.mp hend) d g hd
  · intro hmax d h hd hdone
    replace hd : Function.update s.handlers c (some ⟨fd, .done⟩) d = some h := hd
    have hdc : d ≠ c := by
      intro hdc
      rw [hdc, Function.update_self] at hd
      cases hd
      exact hdone rfl
    rw [Function.update_of_ne hdc] at hd
    have hserving := hs.single hmax d h hd hdone
    have hother : s.serverThread ≠ .serving c := by
      rw [hserving]
      exact fun heq => hdc (ServerPc.serving.inj heq)
    exact (if_neg hother).trans hserving
  · exact ⟨fun hj => afterHandler_eq_ended.mpr (hs.threads.ended hj), hs.threads.stopped⟩

/-- The server thread leaves: with all clients of the list shut down. -/
theorem inv_leave (hs : Inv max s) (hp : s.serverThread = .leaving) :
    Inv max { s.unregisterClients with serverThread := .ended } := by
  have hholds : State.holds { s.unregisterClients with serverThread := .ended } = s.holds := by
    unfold State.holds
    rw [hp]
    rfl
  have hlisted : State.listed { s.unregisterClients with serverThread := .ended } = s.listed := by
    unfold State.listed
    rw [hp]
    rfl
  constructor
  · rw [hholds, hlisted]
    exact hs.roster
  · intro d g hd
    cases hd
  · exact hs.handler_lt
  · exact unregister_hit hs
  · intro _ d g hd
    rw [hlisted] at hd
    exact unregister_halted hs hd
  · intro hmax d h hd hdone
    have hserving := hs.single hmax d h hd hdone
    rw [hp] at hserving
    cases hserving
  · exact ⟨fun _ => rfl, hs.threads.stopped⟩

/-- A step of the thread that starts and stops the server, without the server thread. -/
theorem inv_control (hs : Inv max s) {control : Control} {joinable : Bool}
    (ht : Threads { s with control := control, joinable := joinable }) :
    Inv max { s with control := control, joinable := joinable } :=
  ⟨hs.roster, hs.fresh, hs.handler_lt, hs.hit, hs.halted, hs.single, ht⟩

/-- The server thread begins its loop or leaves it. -/
theorem inv_quiet (hs : Inv max s) {p : ServerPc} {control : Control} {joinable : Bool}
    (hnone : s.serverThread = .ended ∨ s.serverThread = .accepting)
    (hp : p = .accepting ∨ p = .leaving)
    (ht : Threads { s with control := control, joinable := joinable, serverThread := p }) :
    Inv max { s with control := control, joinable := joinable, serverThread := p } := by
  have hholds : State.holds
      { s with control := control, joinable := joinable, serverThread := p } = s.holds := by
    unfold State.holds
    rcases hnone with hq | hq <;> rcases hp with rfl | rfl <;> rw [hq] <;> rfl
  have hlisted : State.listed
      { s with control := control, joinable := joinable, serverThread := p } = s.listed := by
    unfold State.listed
    rcases hnone with hq | hq <;> rcases hp with rfl | rfl <;> rw [hq] <;> rfl
  constructor
  · rw [hholds, hlisted]
    exact hs.roster
  · intro d g hd
    rcases hp with rfl | rfl <;> cases hd
  · exact hs.handler_lt
  · exact hs.hit
  · intro hend
    rcases hp with rfl | rfl <;> cases hend
  · intro hmax d h hd hdone
    have hserving := hs.single hmax d h hd hdone
    rcases hnone with hq | hq <;> rw [hq] at hserving <;> cases hserving
  · exact ht

theorem inv_stop (hs : Inv max s) :
    Inv max { s.unregisterClients with control := .unregistered } := by
  refine ⟨hs.roster, hs.fresh, hs.handler_lt, unregister_hit hs, ?_, hs.single, ?_⟩
  · exact fun hend c fd hl => halted_mono (hs.halted hend c fd hl)
  · exact ⟨hs.threads.ended, fun hc => nomatch hc⟩

/-- **Every step keeps the invariant.** -/
theorem inv_step (hs : Inv max s) (h : step max s a = some (r, s')) : Inv max s' := by
  cases move_of_step h with
  | socketFails _ => exact hs
  | bindFails _ => exact inv_control hs ⟨hs.threads.ended, fun hc => nomatch hc⟩
  | start hc =>
    have hend := hs.threads.ended (hs.threads.stopped hc)
    exact inv_quiet hs (.inl hend) (.inl rfl) ⟨fun hj => (nomatch hj), fun hc => nomatch hc⟩
  | alreadyOpened _ => exact hs
  | accept hp _ ha => exact inv_accept hs hp ha
  | acceptFails hp =>
    refine inv_quiet hs (.inr hp) (.inr rfl) ⟨fun hj => ?_, hs.threads.stopped⟩
    have hend := hs.threads.ended hj
    rw [hp] at hend
    cases hend
  | insert hp => exact inv_insert hs hp
  | serve hp => exact inv_serve hs hp
  | leave hp => exact inv_leave hs hp
  | readEnds hh => exact inv_readEnds hs hh
  | erase hh => exact inv_erase hs hh
  | close hh => exact inv_close hs hh
  | notStarted _ => exact hs
  | stop _ => exact inv_stop hs
  | shutdown _ => exact inv_control hs ⟨hs.threads.ended, fun hc => nomatch hc⟩
  | join _ _ hp => exact inv_control hs ⟨fun _ => hp, fun _ => rfl⟩
  | joinThrows _ _ => exact inv_control hs ⟨hs.threads.ended, fun hc => nomatch hc⟩

theorem inv_run {is : List Action} {rs : List (Option Event)}
    (hrun : run (step max) .init is = some (rs, s)) : Inv max s :=
  inv_of_alongRun (C := fun _ _ => True) (fun _ _ _ _ hs _ hstep => inv_step hs hstep)
    (inv_init max) (alongRun_of_forall (fun _ _ _ => trivial) _) hrun

end MyLibraries.CppServer
