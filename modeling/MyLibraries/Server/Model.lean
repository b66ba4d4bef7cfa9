import MyLibraries.Core.Descriptors
import MyLibraries.Core.Run

/-!
# The TCP server in C

`src/Linux/server.c`: the list of the clients' sockets, the loop of the accept thread, and
the server as a whole, with the accept thread, a thread for each client and
`server_stop`, whose steps interleave in any order. What clients send, the options of the
sockets and the memory of the `client` records are left out.
-/

namespace MyLibraries.Server

open Descriptors

def eagain : Int := 11
def enomem : Int := 12

/-! ## The list of sockets -/

/-- `client_socket_list`, in which `0` is a free slot. -/
abbrev SocketList := List Nat

/-- `add_client_to_list` -/
def addClientToList : SocketList → Nat → Int × SocketList
  | [], _ => (eagain, [])
  | s :: list, newSocket =>
    if s = 0 then
      (0, newSocket :: list)
    else
      let (res, list) := addClientToList list newSocket
      (res, s :: list)

/-- `remove_client_from_list` -/
def removeClientFromList : SocketList → Nat → SocketList
  | [], _ => []
  | s :: list, oldSocket =>
    if s = oldSocket then 0 :: list else s :: removeClientFromList list oldSocket

/-- The sockets that `terminate_all_clients` shuts down and closes. -/
def sockets (list : SocketList) : List Nat := list.filter (· ≠ 0)

/-! ## The accept loop -/

/-- What happens in one pass through the loop of `server_handler`. An error callback, when
one is installed, answers `answer`. `stopped` says that `server_stop` has closed the
listening socket. -/
inductive Outcome
  | noMemory (answer : Int)
  | acceptFails (errno answer : Int) (stopped : Bool)
  | accepted (clientfd : Nat) (listFull : Bool)
  deriving DecidableEq, Repr

/-- What the loop does besides. -/
inductive Call
  | error (str : String) (err : Int)
  | start (clientfd : Nat)
  | shutdown
  deriving DecidableEq, Repr

/-- The accept thread before a pass, with the value of `clientfd`, or behind the loop. -/
inductive Loop
  | looping (clientfd : Int)
  | ended
  deriving DecidableEq, Repr

/-- The condition of the `do … while`, which `continue` evaluates as well. -/
def whileCondition (socket clientfd : Int) : List Call × Loop :=
  if clientfd > 0 ∧ socket > 0 then ([], .looping clientfd) else ([.shutdown], .ended)

/-- An error is reported to the callback, if there is one; when it answers something else
than `0` the loop is left, otherwise it is continued with `clientfd`. -/
def reportOrLeave (error : Bool) (socket : Int) (str : String) (err answer clientfd : Int) :
    List Call × Loop :=
  if error then
    if answer ≠ 0 then
      ([.error str err, .shutdown], .ended)
    else
      let (calls, loop) := whileCondition socket clientfd
      (.error str err :: calls, loop)
  else
    whileCondition socket clientfd

/-- One pass of `server_handler`, with an error callback or without. -/
def pass (error : Bool) (socket : Int) : Loop → Outcome → List Call × Loop
  | .ended, _ => ([], .ended)
  | .looping clientfd, .noMemory answer =>
    reportOrLeave error socket "No memory" enomem answer clientfd
  | .looping _, .acceptFails errno answer _ =>
    reportOrLeave error socket "Socket accept error" errno answer (-1)
  | .looping _, .accepted clientfd listFull =>
    if listFull then
      ([.shutdown], .ended)
    else
      let (calls, loop) := whileCondition socket clientfd
      (.start clientfd :: calls, loop)

/-! ## The server as a whole -/

/-- Where the accept thread is, with its local `clientfd`; `c` is the connection that
`clientfd` was handed out for. -/
inductive AcceptPc
  | loop (l : Loop)
  | accepted (clientfd c : Nat)
  | added (clientfd c : Nat)
  /-- `pthread_create` has failed. -/
  | createFailed (clientfd c : Nat)
  | createClosed (clientfd c : Nat)
  deriving DecidableEq, Repr

/-- Where a `client_handler` is: it closes its socket before it takes it out of the list. -/
inductive HandlerPc
  | reading
  | closing
  | removing
  | done
  deriving DecidableEq, Repr

structure Handler where
  socket : Nat
  pc : HandlerPc
  deriving DecidableEq, Repr

/-- How far `server_stop` has come. -/
inductive StopPc
  | running
  | terminated
  | closed
  deriving DecidableEq, Repr

structure State where
  list : SocketList
  table : Descriptors.Table
  acceptThread : AcceptPc
  handlers : Nat → Option Handler
  stop : StopPc

/-- An error callback is installed, the listening socket, and the number of slots
`MAX_CLIENTS`. -/
structure Config where
  error : Bool
  socket : Int
  maxClients : Nat
  deriving Repr

inductive Action
  | noMemory (answer : Int)
  | acceptFails (errno answer : Int)
  | accept (fd : Nat)
  | addClient
  | start
  | createFails (err : Int)
  | closeClient
  | removeClient
  | readEnds (c : Nat)
  | close (c : Nat)
  | remove (c : Nat)
  | terminateAll
  | closeListening
  deriving DecidableEq, Repr

/-- The server after `server_start`, with what `clientfd` holds before it is set. -/
def State.init (cfg : Config) (g : Int) : State where
  list := List.replicate cfg.maxClients 0
  table := .empty
  acceptThread := .loop (.looping g)
  handlers := fun _ => none
  stop := .running

/-- The number under which a handler will close its connection. -/
def Handler.holds (h : Handler) : Option Nat :=
  match h.pc with
  | .reading | .closing => some h.socket
  | _ => none

/-- The number that a handler will take out of the list. -/
def Handler.listed (h : Handler) : Option Nat :=
  match h.pc with
  | .done => none
  | _ => some h.socket

def AcceptPc.holds (pc : AcceptPc) (c : Nat) : Option Nat :=
  match pc with
  | .accepted fd c' | .added fd c' | .createFailed fd c' => if c = c' then some fd else none
  | _ => none

def AcceptPc.listed (pc : AcceptPc) (c : Nat) : Option Nat :=
  match pc with
  | .added fd c' | .createFailed fd c' | .createClosed fd c' => if c = c' then some fd else none
  | _ => none

/-- The number under which some thread has the connection `c` and will close it. -/
def State.holds (s : State) : Nat → Option Nat :=
  view s.handlers Handler.holds s.acceptThread.holds

/-- The number under which the client of the connection `c` has been added and not yet
been removed. -/
def State.listed (s : State) : Nat → Option Nat :=
  view s.handlers Handler.listed s.acceptThread.listed

/-- Take the handler of `c` from one place to the next. -/
def State.setPc (s : State) (c socket : Nat) (pc : HandlerPc) : State :=
  { s with handlers := Function.update s.handlers c (some ⟨socket, pc⟩) }

/-- `terminate_all_clients` -/
def State.terminateAllClients (s : State) : State :=
  { s with
    table := (sockets s.list).foldl
      (fun t fd => t.close fd ((List.range s.table.next).filter fun c => s.listed c = some fd))
      s.table
    stop := .terminated }

/-- One step of one of the threads; `none` when no thread can take it. -/
def step (cfg : Config) (s : State) (a : Action) : Option (List Call × State) :=
  match a, s.acceptThread with
  | .noMemory answer, .loop (.looping clientfd) =>
    let (calls, loop) := pass cfg.error cfg.socket (.looping clientfd) (.noMemory answer)
    some (calls, { s with acceptThread := .loop loop })
  | .acceptFails errno answer, .loop (.looping clientfd) =>
    let (calls, loop) := pass cfg.error cfg.socket (.looping clientfd)
      (.acceptFails errno answer (s.stop = .closed))
    some (calls, { s with acceptThread := .loop loop })
  | .accept fd, .loop (.looping _) =>
    if 0 < fd ∧ s.stop ≠ .closed then
      (s.table.accept fd).map fun (c, table) =>
        ([], { s with table := table, acceptThread := .accepted fd c })
    else
      none
  | .addClient, .accepted fd c =>
    let (res, list) := addClientToList s.list fd
    if res ≠ 0 then
      some ([.shutdown], { s with acceptThread := .loop .ended })
    else
      some ([], { s with list := list, acceptThread := .added fd c })
  | .start, .added fd c =>
    let (calls, loop) := whileCondition cfg.socket fd
    some (.start fd :: calls, { s.setPc c fd .reading with acceptThread := .loop loop })
  | .createFails err, .added fd c =>
    some (if cfg.error then [.error "Thread create error" err] else [],
      { s with acceptThread := .createFailed fd c })
  | .closeClient, .createFailed fd c =>
    some ([], { s with table := s.table.close fd [c], acceptThread := .createClosed fd c })
  | .removeClient, .createClosed fd _ =>
    some ([.shutdown], { s with
      list := removeClientFromList s.list fd, acceptThread := .loop .ended })
  | .readEnds c, _ =>
    match s.handlers c with
    | some ⟨fd, .reading⟩ => some ([], s.setPc c fd .closing)
    | _ => none
  | .close c, _ =>
    match s.handlers c with
    | some ⟨fd, .closing⟩ =>
      some ([], { s.setPc c fd .removing with table := s.table.close fd [c] })
    | _ => none
  | .remove c, _ =>
    match s.handlers c with
    | some ⟨fd, .removing⟩ =>
      some ([], { s.setPc c fd .done with list := removeClientFromList s.list fd })
    | _ => none
  | .terminateAll, _ => if s.stop = .running then some ([], s.terminateAllClients) else none
  | .closeListening, _ =>
    if s.stop = .terminated then some ([], { s with stop := .closed }) else none
  | _, _ => none

end MyLibraries.Server
