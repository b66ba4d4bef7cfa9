import MyLibraries.Core.Roster
import MyLibraries.TcpServer.Model

/-!
# What the steps of the server keep

Every connection that is open is held by exactly one thread, and the list is the set of
the numbers that have been registered. A step moves a connection from one place to the
next; the invariant looks at it through `holds` and `listed` only.

Closing all clients breaks the invariant unless the list is empty: `Orderly` is the
condition on the steps.
-/

namespace MyLibraries.TcpServer

open Descriptors Run

/-- The list holds nobody when all clients are closed. -/
def Orderly (s : State) (a : Action) : Prop := a = .closeAllClients → s.clientsList = []

instance (s : State) (a : Action) : Decidable (Orderly s a) :=
  inferInstanceAs (Decidable (_ → _))

/-- The list is no longer than the count that let the next client in. -/
def AcceptPc.Counts (pc : AcceptPc) (n : Nat) : Prop :=
  match pc with
  | .counted _ _ m => n ≤ m
  | _ => True

/-- The connection of the accept thread is not yet a handler's. -/
def AcceptPc.Fresh (pc : AcceptPc) (handlers : Nat → Option Handler) : Prop :=
  ∀ c fd, pc.holds c = some fd → handlers c = none

structure Inv (max : Nat) (s : State) : Prop where
  accounted : s.table.Accounted s.holds
  mem_iff : ∀ fd, fd ∈ s.clientsList ↔ ∃ c, s.listed c = some fd
  nodup : s.clientsList.Nodup
  length_le : s.clientsList.length ≤ max
  counts : s.acceptThread.Counts s.clientsList.length
  fresh : s.acceptThread.Fresh s.handlers
  handler_lt : ∀ {c h}, s.handlers c = some h → c < s.table.next

variable {max : Nat} {s s' : State} {a : Action} {r : Option Callback} {c d fd n : Nat}
  {h : Handler} {pc : HandlerPc}

/-! ## What a step can do -/

/-- The steps of the threads, with what must hold before and what holds after. -/
inductive Move (max : Nat) (s : State) : Action → State → Prop
  | accept {fd c : Nat} {table : Descriptors.Table} (hp : s.acceptThread = .accepting)
      (hopen : s.stop ≠ .shut) (ha : s.table.accept fd = some (c, table)) :
      Move max s (.accept fd) { s with table := table, acceptThread := .accepted fd c }
  | acceptFails (hp : s.acceptThread = .accepting) :
      Move max s .acceptFails { s with acceptThread := .ended }
  | getNumberOfClients {fd c : Nat} (hp : s.acceptThread = .accepted fd c) :
      Move max s .getNumberOfClients
        { s with acceptThread := .counted fd c s.clientsList.length }
  | reject {fd c n : Nat} (hp : s.acceptThread = .counted fd c n) (hn : max ≤ n) :
      Move max s .reject { s with table := s.table.close fd [c], acceptThread := .accepting }
  | addClient {fd c n : Nat} (hp : s.acceptThread = .counted fd c n) (hn : n < max) :
      Move max s .addClient { s with
        clientsList := insert s.clientsList fd, acceptThread := .registered fd c n }
  | start {fd c n : Nat} (hp : s.acceptThread = .registered fd c n) :
      Move max s .start { s.setPc c fd .reading with acceptThread := .afterStart c n }
  | readEnds {c fd : Nat} (hh : s.handlers c = some ⟨fd, .reading⟩) :
      Move max s (.readEnds c) (s.setPc c fd .removing)
  | removeClient {c fd : Nat} (hh : s.handlers c = some ⟨fd, .removing⟩) :
      Move max s (.removeClient c)
        { s.setPc c fd .closing with clientsList := s.clientsList.erase fd }
  | close {c fd : Nat} (hh : s.handlers c = some ⟨fd, .closing⟩) :
      Move max s (.close c) { s.setPc c fd .done with
        table := s.table.close fd [c]
        acceptThread := s.acceptThread.afterHandler c }
  | closeAllClients (hstop : s.stop = .running) :
      Move max s .closeAllClients s.closeAllClients
  | shutdown (hstop : s.stop = .closedAll) : Move max s .shutdown { s with stop := .shut }

theorem move_of_step (h : step max s a = some (r, s')) : Move max s a s' := by
  unfold step at h
  split at h
  · rename_i hp
    split at h
    · cases h
    · rename_i hopen
      obtain ⟨⟨c, table⟩, ha, heq⟩ := Option.map_eq_some_iff.mp h
      cases heq
      exact .accept hp hopen ha
  · rename_i hp
    cases h
    exact .acceptFails hp
  · rename_i hp
    cases h
    exact .getNumberOfClients hp
  · rename_i hp
    split at h
    · rename_i hn
      cases h
      exact .reject hp hn
    · cases h
  · rename_i hp
    split at h
    · cases h
    · rename_i hn
      cases h
      exact .addClient hp (Nat.lt_of_not_le hn)
  · rename_i hp
    cases h
    exact .start hp
  · split at h
    · rename_i hh
      cases h
      exact .readEnds hh
    · cases h
  · split at h
    · rename_i hh
      cases h
      exact .removeClient hh
    · cases h
  · split at h
    · rename_i hh
      cases h
      exact .close hh
    · cases h
  · split at h
    · rename_i hstop
      cases h
      exact .closeAllClients hstop
    · cases h
  · split at h
    · rename_i hstop
      cases h
      exact .shutdown hstop
    · cases h
  · cases h

/-! ## The two views of a state -/

theorem holds_of_handler (hc : s.handlers c = some h) : s.holds c = h.holds :=
  view_of_handler hc

theorem listed_of_handler (hc : s.handlers c = some h) : s.listed c = h.listed :=
  view_of_handler hc

theorem holds_of_accept (hc : s.handlers c = none) : s.holds c = s.acceptThread.holds c :=
  view_of_accept hc

theorem listed_of_accept (hc : s.handlers c = none) : s.listed c = s.acceptThread.listed c :=
  view_of_accept hc

theorem holds_of_listed (hl : s.listed c = some fd) : s.holds c = some fd := by
  cases hc : s.handlers c with
  | none =>
    rw [listed_of_accept hc] at hl
    rw [holds_of_accept hc]
    cases hp : s.acceptThread with
    | registered g d n =>
      rw [hp] at hl
      exact hl
    | _ => rw [hp] at hl; cases hl
  | some h =>
    rw [listed_of_handler hc] at hl
    rw [holds_of_handler hc]
    obtain ⟨g, pc⟩ := h
    cases pc with
    | reading => exact hl
    | removing => exact hl
    | closing => cases hl
    | done => cases hl

@[simp] theorem afterStart_holds (c n d : Nat) : (AcceptPc.afterStart c n).holds d = none := by
  unfold AcceptPc.afterStart
  split <;> rfl

@[simp] theorem afterStart_listed (c n d : Nat) : (AcceptPc.afterStart c n).listed d = none := by
  unfold AcceptPc.afterStart
  split <;> rfl

theorem afterStart_counts (c n m : Nat) : (AcceptPc.afterStart c n).Counts m := by
  unfold AcceptPc.afterStart
  split <;> trivial

@[simp] theorem afterHandler_holds (p : AcceptPc) (c : Nat) :
    (p.afterHandler c).holds = p.holds := by
  unfold AcceptPc.afterHandler
  split
  · rename_i hp
    rw [hp]
    rfl
  · rfl

@[simp] theorem afterHandler_listed (p : AcceptPc) (c : Nat) :
    (p.afterHandler c).listed = p.listed := by
  unfold AcceptPc.afterHandler
  split
  · rename_i hp
    rw [hp]
    rfl
  · rfl

theorem afterHandler_counts {p : AcceptPc} {m : Nat} (h : p.Counts m) :
    (p.afterHandler c).Counts m := by
  unfold AcceptPc.afterHandler
  split
  · trivial
  · exact h

/-- The accept thread goes on without a change of what it holds. -/
theorem holds_congr (hh : s'.handlers = s.handlers)
    (hp : s'.acceptThread.holds = s.acceptThread.holds) : s'.holds = s.holds := by
  unfold State.holds
  rw [hh, hp]

theorem listed_congr (hh : s'.handlers = s.handlers)
    (hp : s'.acceptThread.listed = s.acceptThread.listed) : s'.listed = s.listed := by
  unfold State.listed
  rw [hh, hp]

/-! ## The list -/

theorem insert_eq (l : List Nat) (fd : Nat) : insert l fd = l.insert fd := by
  unfold insert List.insert
  simp only [List.contains_iff_mem]

theorem length_insert_le {l : List Nat} : (insert l fd).length ≤ l.length + 1 := by
  unfold insert
  split
  · exact Nat.le_succ _
  · exact Nat.le_refl _

/-- The list is one of connections that are held. -/
theorem Inv.roster (hs : Inv max s) : Roster s.table s.clientsList s.holds s.listed :=
  ⟨hs.accounted, hs.mem_iff, hs.nodup, holds_of_listed⟩

/-! ## The steps -/

theorem inv_init (max : Nat) : Inv max .init := by
  constructor
  · exact Descriptors.Table.accounted_empty
  · intro fd
    constructor
    · intro h
      cases h
    · rintro ⟨c, h⟩
      cases h
  · exact List.nodup_nil
  · exact Nat.zero_le _
  · trivial
  · intro c fd h
    cases h
  · intro c h hc
    cases hc

/-- A step that moves nothing between the places. -/
theorem inv_of_views (hs : Inv max s) (hholds : s'.holds = s.holds) (hlisted : s'.listed = s.listed)
    (htable : s'.table = s.table) (hlist : s'.clientsList = s.clientsList)
    (hcounts : s'.acceptThread.Counts s.clientsList.length)
    (hfresh : s'.acceptThread.Fresh s'.handlers)
    (hlt : ∀ d h, s'.handlers d = some h → d < s.table.next) : Inv max s' := by
  constructor
  · rw [htable, hholds]
    exact hs.accounted
  · rw [hlist, hlisted]
    exact hs.mem_iff
  · rw [hlist]
    exact hs.nodup
  · rw [hlist]
    exact hs.length_le
  · rw [hlist]
    exact hcounts
  · exact hfresh
  · intro d h hd
    rw [htable]
    exact hlt d h hd

/-- The connection that the accept thread holds, seen from the state. -/
theorem holds_of_acceptThread (hs : Inv max s) (hp : s.acceptThread.holds c = some fd) :
    s.handlers c = none ∧ s.holds c = some fd := by
  have hnone := hs.fresh c fd hp
  refine ⟨hnone, ?_⟩
  rw [holds_of_accept hnone]
  exact hp

theorem setPc_lt (hs : Inv max s) (hc : s.holds c = some fd)
    (hh : s'.handlers = Function.update s.handlers c (some h)) {d : Nat} {g : Handler}
    (hd : s'.handlers d = some g) : d < s.table.next := by
  by_cases hdc : d = c
  · rw [hdc]
    exact hs.accounted.lt hc
  · rw [hh, Function.update_of_ne hdc] at hd
    exact hs.handler_lt hd

/-- A handler that goes on is none that the accept thread is about to start. -/
theorem fresh_setPc (hs : Inv max s) (hc : s.handlers c = some h) {g : Handler} :
    s.acceptThread.Fresh (Function.update s.handlers c (some g)) := by
  intro d fd hd
  have hnone := hs.fresh d fd hd
  by_cases hdc : d = c
  · rw [hdc, hc] at hnone
    cases hnone
  · rw [Function.update_of_ne hdc]
    exact hnone

theorem inv_accept (hs : Inv max s) {table : Descriptors.Table} (hp : s.acceptThread = .accepting)
    (ha : s.table.accept fd = some (c, table)) :
    Inv max { s with table := table, acceptThread := .accepted fd c } := by
  obtain ⟨-, hc, htable⟩ := Descriptors.Table.accept_eq_some ha
  have hnone : s.handlers c = none := by
    cases hh : s.handlers c with
    | none => rfl
    | some h => exact absurd (hc ▸ hs.handler_lt hh) (Nat.lt_irrefl _)
  have hholds : State.holds { s with table := table, acceptThread := .accepted fd c } =
      Function.update s.holds c (some fd) := by
    refine view_accept hnone (if_pos rfl) fun d hd => ?_
    rw [hp]
    exact if_neg hd
  have hlisted : State.listed { s with table := table, acceptThread := .accepted fd c } =
      s.listed := listed_congr rfl (by rw [hp]; rfl)
  constructor
  · rw [hholds]
    exact hs.accounted.accept ha
  · rw [hlisted]
    exact hs.mem_iff
  · exact hs.nodup
  · exact hs.length_le
  · trivial
  · intro d g hd
    simp only [AcceptPc.holds] at hd
    split at hd
    · rename_i heq
      rw [heq]
      exact hnone
    · cases hd
  · intro d h hd
    rw [htable]
    exact Nat.lt_succ_of_lt (hs.handler_lt hd)

theorem inv_acceptFails (hs : Inv max s) (hp : s.acceptThread = .accepting) :
    Inv max { s with acceptThread := .ended } := by
  refine inv_of_views hs (holds_congr rfl ?_) (listed_congr rfl ?_) rfl rfl trivial ?_ ?_
  · rw [hp]
    rfl
  · rw [hp]
    rfl
  · intro c fd h
    cases h
  · exact fun d h hd => hs.handler_lt hd

theorem inv_getNumberOfClients (hs : Inv max s) (hp : s.acceptThread = .accepted fd c) :
    Inv max { s with acceptThread := .counted fd c s.clientsList.length } := by
  have hfresh := hs.fresh
  rw [hp] at hfresh
  refine inv_of_views hs (holds_congr rfl ?_) (listed_congr rfl ?_) rfl rfl (Nat.le_refl _)
    hfresh ?_
  · rw [hp]
    rfl
  · rw [hp]
    rfl
  · exact fun d h hd => hs.handler_lt hd

theorem inv_reject (hs : Inv max s) (hp : s.acceptThread = .counted fd c n) :
    Inv max { s with table := s.table.close fd [c], acceptThread := .accepting } := by
  have hconn : s.acceptThread.holds c = some fd := by rw [hp]; exact if_pos rfl
  obtain ⟨hnone, hc⟩ := holds_of_acceptThread hs hconn
  have hholds : State.holds { s with table := s.table.close fd [c], acceptThread := .accepting } =
      Function.update s.holds c none := by
    refine view_accept hnone rfl fun d hd => ?_
    rw [hp]
    exact (if_neg hd).symm
  have hlisted : State.listed { s with table := s.table.close fd [c], acceptThread := .accepting } =
      s.listed := listed_congr rfl (by rw [hp]; rfl)
  constructor
  · rw [hholds]
    exact hs.accounted.close hc
  · rw [hlisted]
    exact hs.mem_iff
  · exact hs.nodup
  · exact hs.length_le
  · trivial
  · intro d g hd
    cases hd
  · exact hs.handler_lt

theorem inv_addClient (hs : Inv max s) (hp : s.acceptThread = .counted fd c n) (hn : n < max) :
    Inv max { s with
      clientsList := insert s.clientsList fd, acceptThread := .registered fd c n } := by
  have hconn : s.acceptThread.holds c = some fd := by rw [hp]; exact if_pos rfl
  obtain ⟨hnone, hc⟩ := holds_of_acceptThread hs hconn
  have hcounts := hs.counts
  have hfresh := hs.fresh
  rw [hp] at hcounts hfresh
  have hholds : State.holds { s with
      clientsList := insert s.clientsList fd, acceptThread := .registered fd c n } = s.holds :=
    holds_congr rfl (by rw [hp]; rfl)
  have hlisted : State.listed { s with
      clientsList := insert s.clientsList fd, acceptThread := .registered fd c n } =
      Function.update s.listed c (some fd) := by
    refine view_accept hnone (if_pos rfl) fun d hd => ?_
    rw [hp]
    exact if_neg hd
  have hbefore : s.listed c = none := by
    rw [listed_of_accept hnone, hp]
    rfl
  have hroster := hs.roster.insert hc hbefore
  rw [← insert_eq] at hroster
  constructor
  · rw [hholds]
    exact hs.accounted
  · rw [hlisted]
    exact hroster.mem_iff
  · exact hroster.nodup
  · have hle : s.clientsList.length ≤ n := hcounts
    have hlen : (insert s.clientsList fd).length ≤ s.clientsList.length + 1 := length_insert_le
    show (insert s.clientsList fd).length ≤ max
    omega
  · trivial
  · exact hfresh
  · exact hs.handler_lt

theorem inv_start (hs : Inv max s) (hp : s.acceptThread = .registered fd c n) :
    Inv max { s.setPc c fd .reading with acceptThread := .afterStart c n } := by
  have hconn : s.acceptThread.holds c = some fd := by rw [hp]; exact if_pos rfl
  obtain ⟨hnone, hc⟩ := holds_of_acceptThread hs hconn
  have hl : s.listed c = some fd := by
    rw [listed_of_accept hnone, hp]
    exact if_pos rfl
  refine inv_of_views hs ?_ ?_ rfl rfl ?_ ?_ ?_
  · refine view_update_same (f := Handler.holds) c ⟨fd, .reading⟩ (fun d hd => ?_) hc
    rw [hp]
    exact (afterStart_holds ..).trans (if_neg hd).symm
  · refine view_update_same (f := Handler.listed) c ⟨fd, .reading⟩ (fun d hd => ?_) hl
    rw [hp]
    exact (afterStart_listed ..).trans (if_neg hd).symm
  · exact afterStart_counts ..
  · intro d g hd
    rw [afterStart_holds] at hd
    cases hd
  · exact fun d h hd => setPc_lt hs hc rfl hd

theorem inv_readEnds (hs : Inv max s) (hh : s.handlers c = some ⟨fd, .reading⟩) :
    Inv max (s.setPc c fd .removing) := by
  have hc : s.holds c = some fd := holds_of_handler hh
  have hl : s.listed c = some fd := listed_of_handler hh
  refine inv_of_views hs ?_ ?_ rfl rfl hs.counts (fresh_setPc hs hh) ?_
  · exact view_update_same (f := Handler.holds) c ⟨fd, .removing⟩ (fun _ _ => rfl) hc
  · exact view_update_same (f := Handler.listed) c ⟨fd, .removing⟩ (fun _ _ => rfl) hl
  · exact fun d h hd => setPc_lt hs hc rfl hd

theorem inv_removeClient (hs : Inv max s) (hh : s.handlers c = some ⟨fd, .removing⟩) :
    Inv max { s.setPc c fd .closing with clientsList := s.clientsList.erase fd } := by
  have hc : s.holds c = some fd := holds_of_handler hh
  have hl : s.listed c = some fd := listed_of_handler hh
  have hholds : State.holds { s.setPc c fd .closing with clientsList := s.clientsList.erase fd } =
      s.holds :=
    view_update_same (f := Handler.holds) c ⟨fd, .closing⟩ (fun _ _ => rfl) hc
  have hlisted : State.listed { s.setPc c fd .closing with clientsList := s.clientsList.erase fd } =
      Function.update s.listed c none :=
    view_update (f := Handler.listed) c ⟨fd, .closing⟩ fun _ _ => rfl
  have hroster := hs.roster.erase hl
  constructor
  · rw [hholds]
    exact hs.accounted
  · rw [hlisted]
    exact hroster.mem_iff
  · exact hroster.nodup
  · exact Nat.le_trans List.length_erase_le hs.length_le
  · have hcounts := hs.counts
    show s.acceptThread.Counts (s.clientsList.erase fd).length
    cases hp : s.acceptThread with
    | counted g d m =>
      rw [hp] at hcounts
      exact Nat.le_trans List.length_erase_le hcounts
    | _ => trivial
  · exact fresh_setPc hs hh
  · exact fun hd => setPc_lt hs hc rfl hd

theorem inv_close (hs : Inv max s) (hh : s.handlers c = some ⟨fd, .closing⟩) :
    Inv max { s.setPc c fd .done with
      table := s.table.close fd [c]
      acceptThread := s.acceptThread.afterHandler c } := by
  have hc : s.holds c = some fd := holds_of_handler hh
  have hl : s.listed c = none := listed_of_handler hh
  have hholds : State.holds { s.setPc c fd .done with
      table := s.table.close fd [c]
      acceptThread := s.acceptThread.afterHandler c } =
      Function.update s.holds c none :=
    view_update (f := Handler.holds) c ⟨fd, .done⟩ fun d _ => congrFun (afterHandler_holds ..) d
  have hlisted : State.listed { s.setPc c fd .done with
      table := s.table.close fd [c]
      acceptThread := s.acceptThread.afterHandler c } =
      s.listed :=
    view_update_same (f := Handler.listed) c ⟨fd, .done⟩
      (fun d _ => congrFun (afterHandler_listed ..) d) hl
  constructor
  · rw [hholds]
    exact hs.accounted.close hc
  · rw [hlisted]
    exact hs.mem_iff
  · exact hs.nodup
  · exact hs.length_le
  · exact afterHandler_counts hs.counts
  · intro d g hd
    rw [afterHandler_holds] at hd
    exact fresh_setPc hs hh d g hd
  · exact fun hd => setPc_lt hs hc rfl hd

theorem inv_closeAllClients (hs : Inv max s) (hempty : s.clientsList = []) :
    Inv max s.closeAllClients := by
  refine inv_of_views hs rfl rfl ?_ rfl hs.counts hs.fresh fun d h hd => hs.handler_lt hd
  unfold State.closeAllClients
  rw [hempty]
  rfl

/-- **Every orderly step keeps the invariant.** -/
theorem inv_step (hs : Inv max s) (ho : Orderly s a) (h : step max s a = some (r, s')) :
    Inv max s' := by
  cases move_of_step h with
  | accept hp _ ha => exact inv_accept hs hp ha
  | acceptFails hp => exact inv_acceptFails hs hp
  | getNumberOfClients hp => exact inv_getNumberOfClients hs hp
  | reject hp _ => exact inv_reject hs hp
  | addClient hp hn => exact inv_addClient hs hp hn
  | start hp => exact inv_start hs hp
  | readEnds hh => exact inv_readEnds hs hh
  | removeClient hh => exact inv_removeClient hs hh
  | close hh => exact inv_close hs hh
  | closeAllClients _ => exact inv_closeAllClients hs (ho rfl)
  | shutdown _ =>
    exact inv_of_views hs rfl rfl rfl rfl hs.counts hs.fresh fun d h hd => hs.handler_lt hd

end MyLibraries.TcpServer
