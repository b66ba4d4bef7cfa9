import MyLibraries.Server.Model

/-!
# The list of clients while descriptors are reused

A handler closes its socket before it takes it out of the list, and the number may be
handed out again in between. Taking out the first entry with the number is still right:
the entries are the numbers of the clients that have been added and not yet removed,
counted with repetitions, and it does not matter which of two equal entries goes.
-/

namespace MyLibraries.Server

open Descriptors Run

variable {cfg : Config} {s s' : State} {a : Action} {r : List Call} {list : SocketList}
  {c d fd : Nat} {h : Handler}

/-! ## The list -/

theorem sockets_cons_free : sockets (0 :: list) = sockets list := rfl

theorem sockets_cons (h : fd ≠ 0) : sockets (fd :: list) = fd :: sockets list := by
  simp [sockets, h]

theorem addClientToList_full (h : 0 ∉ list) : addClientToList list fd = (eagain, list) := by
  induction list with
  | nil => rfl
  | cons g list ih =>
    rw [List.mem_cons, not_or] at h
    rw [addClientToList, if_neg (Ne.symm h.1), ih h.2]

/-- A free slot is filled. -/
theorem addClientToList_free (h : 0 ∈ list) (hfd : fd ≠ 0) :
    ∃ list', addClientToList list fd = (0, list') ∧ list'.length = list.length ∧
      (sockets list').Perm (fd :: sockets list) := by
  induction list with
  | nil => cases h
  | cons g list ih =>
    by_cases hg : g = 0
    · subst hg
      refine ⟨fd :: list, by rw [addClientToList, if_pos rfl], rfl, ?_⟩
      rw [sockets_cons hfd, sockets_cons_free]
    · obtain ⟨list', hadd, hlen, hperm⟩ := ih ((List.mem_cons.mp h).resolve_left (Ne.symm hg))
      refine ⟨g :: list', by rw [addClientToList, if_neg hg, hadd],
        by rw [List.length_cons, hlen, List.length_cons], ?_⟩
      rw [sockets_cons hg, sockets_cons hg]
      exact (hperm.cons g).trans (List.Perm.swap ..)

theorem removeClientFromList_length : (removeClientFromList list fd).length = list.length := by
  induction list with
  | nil => rfl
  | cons g list ih =>
    rw [removeClientFromList]
    split
    · rfl
    · rw [List.length_cons, ih, List.length_cons]

/-- One entry with the number goes. -/
theorem removeClientFromList_perm (h : fd ∈ list) (hfd : fd ≠ 0) :
    (sockets list).Perm (fd :: sockets (removeClientFromList list fd)) := by
  induction list with
  | nil => cases h
  | cons g list ih =>
    by_cases hg : g = fd
    · subst hg
      rw [removeClientFromList, if_pos rfl, sockets_cons hfd, sockets_cons_free]
    · have hperm := ih ((List.mem_cons.mp h).resolve_left (Ne.symm hg))
      rw [removeClientFromList, if_neg hg]
      by_cases hz : g = 0
      · rw [hz, sockets_cons_free, sockets_cons_free]
        exact hperm
      · rw [sockets_cons hz, sockets_cons hz]
        exact (hperm.cons g).trans (List.Perm.swap ..)

/-! ## What a step can do -/

/-- The steps of the threads, with what must hold before and what holds after. -/
inductive Move (cfg : Config) (s : State) : Action → State → Prop
  | noMemory {answer g : Int} (hp : s.acceptThread = .loop (.looping g)) (l : Loop) :
      Move cfg s (.noMemory answer) { s with acceptThread := .loop l }
  | acceptFails {errno answer g : Int} (hp : s.acceptThread = .loop (.looping g)) (l : Loop) :
      Move cfg s (.acceptFails errno answer) { s with acceptThread := .loop l }
  | accept {g : Int} {fd c : Nat} {table : Descriptors.Table}
      (hp : s.acceptThread = .loop (.looping g)) (hfd : 0 < fd)
      (ha : s.table.accept fd = some (c, table)) :
      Move cfg s (.accept fd) { s with table := table, acceptThread := .accepted fd c }
  | addFails {fd c : Nat} (hp : s.acceptThread = .accepted fd c) (hfull : 0 ∉ s.list) :
      Move cfg s .addClient { s with acceptThread := .loop .ended }
  | addClient {fd c : Nat} {list : SocketList} (hp : s.acceptThread = .accepted fd c)
      (hadd : addClientToList s.list fd = (0, list)) :
      Move cfg s .addClient { s with list := list, acceptThread := .added fd c }
  | start {fd c : Nat} (hp : s.acceptThread = .added fd c) (l : Loop) :
      Move cfg s .start { s.setPc c fd .reading with acceptThread := .loop l }
  | createFails {err : Int} {fd c : Nat} (hp : s.acceptThread = .added fd c) :
      Move cfg s (.createFails err) { s with acceptThread := .createFailed fd c }
  | closeClient {fd c : Nat} (hp : s.acceptThread = .createFailed fd c) :
      Move cfg s .closeClient
        { s with table := s.table.close fd [c], acceptThread := .createClosed fd c }
  | removeClient {fd c : Nat} (hp : s.acceptThread = .createClosed fd c) :
      Move cfg s .removeClient
        { s with list := removeClientFromList s.list fd, acceptThread := .loop .ended }
  | readEnds {c fd : Nat} (hh : s.handlers c = some ⟨fd, .reading⟩) :
      Move cfg s (.readEnds c) (s.setPc c fd .closing)
  | close {c fd : Nat} (hh : s.handlers c = some ⟨fd, .closing⟩) :
      Move cfg s (.close c) { s.setPc c fd .removing with table := s.table.close fd [c] }
  | remove {c fd : Nat} (hh : s.handlers c = some ⟨fd, .removing⟩) :
      Move cfg s (.remove c)
        { s.setPc c fd .done with list := removeClientFromList s.list fd }
  | terminateAll (hstop : s.stop = .running) : Move cfg s .terminateAll s.terminateAllClients
  | closeListening (hstop : s.stop = .terminated) :
      Move cfg s .closeListening { s with stop := .closed }

theorem addClientToList_result (list : SocketList) (fd : Nat) :
    (0 ∉ list ∧ addClientToList list fd = (eagain, list)) ∨
      ∃ list', addClientToList list fd = (0, list') := by
  induction list with
  | nil => exact .inl ⟨List.not_mem_nil, rfl⟩
  | cons g list ih =>
    by_cases hg : g = 0
    · exact .inr ⟨fd :: list, by rw [addClientToList, if_pos hg]⟩
    · rcases ih with ⟨hnot, hadd⟩ | ⟨list', hadd⟩
      · refine .inl ⟨?_, by rw [addClientToList, if_neg hg, hadd]⟩
        rw [List.mem_cons, not_or]
        exact ⟨Ne.symm hg, hnot⟩
      · exact .inr ⟨g :: list', by rw [addClientToList, if_neg hg, hadd]⟩

theorem move_of_step (h : step cfg s a = some (r, s')) : Move cfg s a s' := by
  unfold step at h
  split at h
  · rename_i hp
    cases h
    exact .noMemory hp _
  · rename_i hp
    cases h
    exact .acceptFails hp _
  · rename_i hp
    split at h
    · rename_i hfd
      obtain ⟨⟨c, table⟩, ha, heq⟩ := Option.map_eq_some_iff.mp h
      cases heq
      exact .accept hp hfd.1 ha
    · cases h
  · rename_i fd c hp
    rcases addClientToList_result s.list fd with ⟨hfull, hadd⟩ | ⟨list, hadd⟩
    · rw [hadd] at h
      cases h
      exact .addFails hp hfull
    · rw [hadd] at h
      cases h
      exact .addClient hp hadd
  · rename_i hp
    cases h
    exact .start hp _
  · rename_i hp
    cases h
    exact .createFails hp
  · rename_i hp
    cases h
    exact .closeClient hp
  · rename_i hp
    cases h
    exact .removeClient hp
  · split at h
    · rename_i hh
      cases h
      exact .readEnds hh
    · cases h
  · split at h
    · rename_i hh
      cases h
      exact .close hh
    · cases h
  · split at h
    · rename_i hh
      cases h
      exact .remove hh
    · cases h
  · split at h
    · rename_i hstop
      cases h
      exact .terminateAll hstop
    · cases h
  · split at h
    · rename_i hstop
      cases h
      exact .closeListening hstop
    · cases h
  · cases h

/-! ## The invariant -/

/-- The descriptor and the connection that the accept thread has in its locals. -/
def AcceptPc.conn : AcceptPc → Option (Nat × Nat)
  | .accepted fd c | .added fd c | .createFailed fd c | .createClosed fd c => some (fd, c)
  | .loop _ => none

structure Listed (cfg : Config) (s : State) : Prop where
  fresh : ∀ {fd c}, s.acceptThread.conn = some (fd, c) →
    s.handlers c = none ∧ c < s.table.next ∧ fd ≠ 0
  handler : ∀ {c h}, s.handlers c = some h → c < s.table.next ∧ h.socket ≠ 0
  length_eq : s.list.length = cfg.maxClients
  perm : (sockets s.list).Perm (listing s.table.next s.listed)

theorem listed_of_handler (hc : s.handlers c = some h) : s.listed c = h.listed :=
  view_of_handler hc

theorem listed_of_accept (hc : s.handlers c = none) : s.listed c = s.acceptThread.listed c :=
  view_of_accept hc

theorem handler_setPc (hs : Listed cfg s) (hc : c < s.table.next) (hfd : fd ≠ 0) {pc : HandlerPc}
    {g : Handler} (hd : (s.setPc c fd pc).handlers d = some g) :
    d < s.table.next ∧ g.socket ≠ 0 := by
  by_cases hdc : d = c
  · subst hdc
    have hg : (s.setPc d fd pc).handlers d = some ⟨fd, pc⟩ :=
      Function.update_self d _ s.handlers
    rw [hg] at hd
    cases hd
    exact ⟨hc, hfd⟩
  · exact hs.handler ((Function.update_of_ne hdc ..).symm.trans hd)

theorem fresh_setPc (hs : Listed cfg s) (hc : s.handlers c = some h) {pc : HandlerPc} {g : Nat}
    (hd : s.acceptThread.conn = some (fd, d)) :
    (s.setPc c g pc).handlers d = none ∧ d < s.table.next ∧ fd ≠ 0 := by
  obtain ⟨hnone, hrest⟩ := hs.fresh hd
  have hdc : d ≠ c := fun heq => by rw [heq, hc] at hnone; cases hnone
  exact ⟨(Function.update_of_ne hdc ..).trans hnone, hrest⟩

/-- An entry that is taken out of the list and a number that is taken out of the view. -/
theorem perm_remove (hs : Listed cfg s) (hc : c < s.table.next) (hl : s.listed c = some fd)
    (hfd : fd ≠ 0) : (sockets (removeClientFromList s.list fd)).Perm
      (listing s.table.next (Function.update s.listed c none)) := by
  have hmem : fd ∈ sockets s.list := hs.perm.mem_iff.mpr (mem_listing.mpr ⟨c, hc, hl⟩)
  have hlist := removeClientFromList_perm (List.mem_filter.mp hmem).1 hfd
  exact (hlist.symm.trans (hs.perm.trans (listing_remove hc hl))).cons_inv

theorem listed_init (cfg : Config) (g : Int) : Listed cfg (.init cfg g) := by
  constructor
  · intro fd c h
    cases h
  · intro c h hc
    cases hc
  · exact List.length_replicate ..
  · have hnone : sockets (List.replicate cfg.maxClients 0) = [] := by
      unfold sockets
      rw [List.filter_eq_nil_iff]
      intro fd hfd
      rw [List.eq_of_mem_replicate hfd]
      decide
    show (sockets (List.replicate cfg.maxClients 0)).Perm []
    rw [hnone]

/-- A step of the accept thread, or of `server_stop`, that leaves the list alone. -/
theorem listed_acceptThread (hs : Listed cfg s) {p p' : AcceptPc} {t : Descriptors.Table}
    {stop : StopPc} (hp : s.acceptThread = p) (ht : t.next = s.table.next)
    (hl : p'.listed = p.listed) (hc : ∀ fd c, p'.conn = some (fd, c) → p.conn = some (fd, c)) :
    Listed cfg { s with table := t, acceptThread := p', stop := stop } := by
  constructor
  · intro fd c hfd
    show _ ∧ c < t.next ∧ _
    rw [ht]
    exact hs.fresh ((congrArg AcceptPc.conn hp).trans (hc fd c hfd))
  · intro c h hd
    show c < t.next ∧ _
    rw [ht]
    exact hs.handler hd
  · exact hs.length_eq
  · show (sockets s.list).Perm (listing t.next (view s.handlers Handler.listed p'.listed))
    rw [ht, hl, ← hp]
    exact hs.perm

/-- The connection that the accept thread has in its locals. -/
theorem listed_conn (hs : Listed cfg s) {p : AcceptPc} (hp : s.acceptThread = p)
    (hconn : p.conn = some (fd, c)) :
    s.handlers c = none ∧ c < s.table.next ∧ fd ≠ 0 ∧ s.listed c = p.listed c := by
  obtain ⟨hnone, hlt, hfd⟩ := hs.fresh ((congrArg AcceptPc.conn hp).trans hconn)
  exact ⟨hnone, hlt, hfd, by rw [listed_of_accept hnone, hp]⟩

/-- A step of a handler that leaves the list alone. -/
theorem listed_setPc (hs : Listed cfg s) {pc pc' : HandlerPc} {t : Descriptors.Table}
    (hh : s.handlers c = some ⟨fd, pc⟩) (ht : t.next = s.table.next)
    (hl : Handler.listed ⟨fd, pc⟩ = Handler.listed ⟨fd, pc'⟩) :
    Listed cfg { s.setPc c fd pc' with table := t } := by
  constructor
  · intro g d hd
    show _ ∧ d < t.next ∧ _
    rw [ht]
    exact fresh_setPc hs hh hd
  · intro d g hd
    show d < t.next ∧ _
    rw [ht]
    exact handler_setPc hs (hs.handler hh).1 (hs.handler hh).2 hd
  · exact hs.length_eq
  · have hsame : view (Function.update s.handlers c (some ⟨fd, pc'⟩)) Handler.listed
        s.acceptThread.listed = s.listed :=
      view_update_same (f := Handler.listed) c ⟨fd, pc'⟩ (fun _ _ => rfl)
        ((listed_of_handler hh).trans hl)
    have hperm := hs.perm
    rw [← ht, ← hsame] at hperm
    exact hperm

theorem listed_accept (hs : Listed cfg s) {g : Int} {table : Descriptors.Table}
    (hp : s.acceptThread = .loop (.looping g)) (hfd : 0 < fd)
    (ha : s.table.accept fd = some (c, table)) :
    Listed cfg { s with table := table, acceptThread := .accepted fd c } := by
  obtain ⟨-, rfl, rfl⟩ := Descriptors.Table.accept_eq_some ha
  have hnone : s.handlers s.table.next = none := by
    cases hh : s.handlers s.table.next with
    | none => rfl
    | some h => exact absurd (hs.handler hh).1 (Nat.lt_irrefl _)
  have hlisted : s.listed s.table.next = none := by
    rw [listed_of_accept hnone, hp]
    rfl
  constructor
  · intro g d hd
    cases hd
    exact ⟨hnone, Nat.lt_succ_self _, by omega⟩
  · intro d h hd
    exact ⟨Nat.lt_succ_of_lt (hs.handler hd).1, (hs.handler hd).2⟩
  · exact hs.length_eq
  · show (sockets s.list).Perm (listing (s.table.next + 1) (view s.handlers Handler.listed _))
    have hsame : view s.handlers Handler.listed (AcceptPc.accepted fd s.table.next).listed =
        s.listed := by
      unfold State.listed
      rw [hp]
      rfl
    rw [hsame, listing_succ hlisted]
    exact hs.perm

theorem listed_addClient (hs : Listed cfg s) (hp : s.acceptThread = .accepted fd c)
    (hadd : addClientToList s.list fd = (0, list)) :
    Listed cfg { s with list := list, acceptThread := .added fd c } := by
  obtain ⟨hnone, hlt, hfd, hbefore⟩ := listed_conn hs hp rfl
  have hfree : 0 ∈ s.list := by
    by_contra hfull
    rw [addClientToList_full hfull] at hadd
    cases hadd
  obtain ⟨list', hadd', hlen, hperm⟩ := addClientToList_free hfree hfd
  rw [hadd] at hadd'
  cases hadd'
  have hafter : view s.handlers Handler.listed (AcceptPc.added fd c).listed =
      Function.update s.listed c (some fd) := by
    refine view_accept hnone (if_pos rfl) fun d hd => ?_
    rw [hp]
    exact if_neg hd
  constructor
  · intro g d hd
    cases hd
    exact ⟨hnone, hlt, hfd⟩
  · exact hs.handler
  · exact hlen.trans hs.length_eq
  · show (sockets list).Perm (listing s.table.next (view _ _ _))
    rw [hafter]
    exact hperm.trans ((hs.perm.cons fd).trans (listing_insert hlt hbefore).symm)

theorem listed_start (hs : Listed cfg s) (hp : s.acceptThread = .added fd c) (l : Loop) :
    Listed cfg { s.setPc c fd .reading with acceptThread := .loop l } := by
  obtain ⟨hnone, hlt, hfd, hlisted⟩ := listed_conn hs hp rfl
  have hl : s.listed c = some fd := hlisted.trans (if_pos rfl)
  constructor
  · intro g d hd
    cases hd
  · exact fun hd => handler_setPc hs hlt hfd hd
  · exact hs.length_eq
  · have hsame : view (Function.update s.handlers c (some ⟨fd, .reading⟩)) Handler.listed
        (AcceptPc.loop l).listed = s.listed := by
      refine view_update_same (f := Handler.listed) c ⟨fd, .reading⟩ (fun d hd => ?_) hl
      rw [hp]
      exact (if_neg hd).symm
    have hperm := hs.perm
    rw [← hsame] at hperm
    exact hperm

theorem listed_removeClient (hs : Listed cfg s) (hp : s.acceptThread = .createClosed fd c) :
    Listed cfg { s with
      list := removeClientFromList s.list fd, acceptThread := .loop .ended } := by
  obtain ⟨hnone, hlt, hfd, hlisted⟩ := listed_conn hs hp rfl
  have hl : s.listed c = some fd := hlisted.trans (if_pos rfl)
  constructor
  · intro g d hd
    cases hd
  · exact hs.handler
  · exact removeClientFromList_length.trans hs.length_eq
  · have hafter : view s.handlers Handler.listed (AcceptPc.loop .ended).listed =
        Function.update s.listed c none := by
      refine view_accept hnone rfl fun d hd => ?_
      rw [hp]
      exact (if_neg hd).symm
    have hperm := perm_remove hs hlt hl hfd
    rw [← hafter] at hperm
    exact hperm

theorem listed_remove (hs : Listed cfg s) (hh : s.handlers c = some ⟨fd, .removing⟩) :
    Listed cfg { s.setPc c fd .done with list := removeClientFromList s.list fd } := by
  obtain ⟨hlt, hfd⟩ := hs.handler hh
  have hl : s.listed c = some fd := listed_of_handler hh
  constructor
  · exact fun hd => fresh_setPc hs hh hd
  · exact fun hd => handler_setPc hs hlt hfd hd
  · exact removeClientFromList_length.trans hs.length_eq
  · have hafter : view (Function.update s.handlers c (some ⟨fd, .done⟩)) Handler.listed
        s.acceptThread.listed = Function.update s.listed c none :=
      view_update (f := Handler.listed) c ⟨fd, .done⟩ fun _ _ => rfl
    have hperm := perm_remove hs hlt hl hfd
    rw [← hafter] at hperm
    exact hperm

/-- **Every step keeps the list right.** -/
theorem listed_step (hs : Listed cfg s) (h : step cfg s a = some (r, s')) : Listed cfg s' := by
  cases move_of_step h with
  | noMemory hp l => exact listed_acceptThread hs hp rfl rfl fun _ _ hc => nomatch hc
  | acceptFails hp l => exact listed_acceptThread hs hp rfl rfl fun _ _ hc => nomatch hc
  | accept hp hfd ha => exact listed_accept hs hp hfd ha
  | addFails hp _ => exact listed_acceptThread hs hp rfl rfl fun _ _ hc => nomatch hc
  | addClient hp hadd => exact listed_addClient hs hp hadd
  | start hp l => exact listed_start hs hp l
  | createFails hp => exact listed_acceptThread hs hp rfl rfl fun _ _ hc => hc
  | closeClient hp => exact listed_acceptThread hs hp rfl rfl fun _ _ hc => hc
  | removeClient hp => exact listed_removeClient hs hp
  | readEnds hh => exact listed_setPc hs hh rfl rfl
  | close hh => exact listed_setPc hs hh rfl rfl
  | remove hh => exact listed_remove hs hh
  | terminateAll _ =>
    exact listed_acceptThread hs rfl (Descriptors.Table.foldl_close_next ..) rfl
      fun _ _ hc => hc
  | closeListening _ => exact listed_acceptThread hs rfl rfl rfl fun _ _ hc => hc

/-! ## Runs -/

/-- The sockets of the clients that have been added and not yet been removed. -/
def clients (s : State) : List Nat := listing s.table.next s.listed

/-- The client of `c` is connected as `fd`, and its handler runs. -/
def Served (s : State) (c fd : Nat) : Prop :=
  s.table.owner fd = some c ∧ ∃ pc, s.handlers c = some ⟨fd, pc⟩ ∧ pc ≠ .done

theorem listed_run {g : Int} {is : List Action} {rs : List (List Call)}
    (hrun : run (step cfg) (.init cfg g) is = some (rs, s)) : Listed cfg s :=
  inv_of_alongRun (C := fun _ _ => True) (fun _ _ _ _ hs _ hstep => listed_step hs hstep)
    (listed_init cfg g) (alongRun_of_forall (fun _ _ _ => trivial) _) hrun

/-- **The list is the multiset of the clients**, in every state of every run, whatever
numbers are reused. -/
theorem list_of_clients (cfg : Config) (g : Int) (is : List Action) {rs : List (List Call)}
    (hrun : run (step cfg) (.init cfg g) is = some (rs, s)) :
    (sockets s.list).Perm (clients s) ∧ (∀ c fd, Served s c fd → fd ∈ s.list) ∧
      (sockets s.list).length ≤ cfg.maxClients := by
  have hs := listed_run hrun
  refine ⟨hs.perm, ?_, ?_⟩
  · rintro c fd ⟨-, pc, hh, hpc⟩
    have hl : s.listed c = some fd := by
      rw [listed_of_handler hh]
      cases pc with
      | done => exact absurd rfl hpc
      | _ => rfl
    have hmem := hs.perm.mem_iff.mpr (mem_listing.mpr ⟨c, (hs.handler hh).1, hl⟩)
    exact (List.mem_filter.mp hmem).1
  · rw [← hs.length_eq]
    exact List.length_filter_le ..

/-- The descriptor 5 is handed out again before the first client is taken out of the list,
which then holds it twice. -/
def reuse : List Action :=
  [.accept 5, .addClient, .start, .readEnds 0, .close 0, .accept 5, .addClient, .start]

theorem list_of_clients_reuse : ∃ rs s,
    run (step ⟨false, 3, 2⟩) (.init ⟨false, 3, 2⟩ 0) reuse = some (rs, s) ∧ s.list = [5, 5] ∧
      (sockets s.list).Perm (clients s) ∧ (∀ c fd, Served s c fd → fd ∈ s.list) ∧
      (sockets s.list).length ≤ 2 :=
  ⟨_, _, rfl, rfl, list_of_clients ⟨false, 3, 2⟩ 0 reuse rfl⟩

end MyLibraries.Server
