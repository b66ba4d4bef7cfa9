import MyLibraries.Core.Descriptors
import MyLibraries.Core.Run

/-!
# The TCP server with a thread for each client

`tcp_handler`, `client_handler` and `Stop` of `src/Linux/server/server.cpp`. The accept
thread, the threads of the clients and the thread that stops the server take their steps
in any order; a step is one system call or one operation under the lock. What clients send
and the server replies is left out.
-/

namespace MyLibraries.TcpServer

open Descriptors

/-- Where the accept thread is in the loop of `tcp_handler`, with its locals `clientfd`
and `num_clients`; `c` is the connection that `clientfd` was handed out for. -/
inductive AcceptPc
  | accepting
  | accepted (clientfd c : Nat)
  | counted (clientfd c numClients : Nat)
  | registered (clientfd c numClients : Nat)
  /-- It runs `client_handler` itself. -/
  | serving (c : Nat)
  | ended
  deriving DecidableEq, Repr

/-- Where a `client_handler` is. -/
inductive HandlerPc
  | reading
  | removing
  | closing
  | done
  deriving DecidableEq, Repr

structure Handler where
  sockfd : Nat
  pc : HandlerPc
  deriving DecidableEq, Repr

/-- How far `ServerSocket::Stop` has come. -/
inductive StopPc
  | running
  | closedAll
  | shut
  deriving DecidableEq, Repr

structure State where
  clientsList : List Nat
  table : Descriptors.Table
  acceptThread : AcceptPc
  handlers : Nat → Option Handler
  stop : StopPc

inductive Action
  | accept (fd : Nat)
  | acceptFails
  | getNumberOfClients
  | reject
  | addClient
  | start
  | readEnds (c : Nat)
  | removeClient (c : Nat)
  | close (c : Nat)
  | closeAllClients
  | shutdown
  deriving DecidableEq, Repr

/-- The event handlers of `ServerBase` that the connections reach. -/
inductive Callback
  | onConnect (c : Nat)
  | onDisconnect (c : Nat)
  deriving DecidableEq, Repr

/-- The server after `Start`. -/
def State.init : State where
  clientsList := []
  table := .empty
  acceptThread := .accepting
  handlers := fun _ => none
  stop := .running

/-! ## Who has to close a connection, and who is in the list -/

/-- The number under which a handler will close its connection. -/
def Handler.holds (h : Handler) : Option Nat :=
  match h.pc with
  | .done => none
  | _ => some h.sockfd

/-- The number that a handler will take out of the list. -/
def Handler.listed (h : Handler) : Option Nat :=
  match h.pc with
  | .reading | .removing => some h.sockfd
  | _ => none

def AcceptPc.holds (pc : AcceptPc) (c : Nat) : Option Nat :=
  match pc with
  | .accepted fd c' | .counted fd c' _ | .registered fd c' _ => if c = c' then some fd else none
  | _ => none

def AcceptPc.listed (pc : AcceptPc) (c : Nat) : Option Nat :=
  match pc with
  | .registered fd c' _ => if c = c' then some fd else none
  | _ => none

/-- The number under which some thread has the connection `c` and will close it. -/
def State.holds (s : State) : Nat → Option Nat :=
  view s.handlers Handler.holds s.acceptThread.holds

/-- The number that was put into the list for the connection `c` and has not been taken
out of it by its handler. -/
def State.listed (s : State) : Nat → Option Nat :=
  view s.handlers Handler.listed s.acceptThread.listed

/-! ## Steps -/

/-- `clients_list.insert` -/
def insert (l : List Nat) (fd : Nat) : List Nat := if fd ∈ l then l else fd :: l

/-- Take the handler of `c` from one place to the next. -/
def State.setPc (s : State) (c sockfd : Nat) (pc : HandlerPc) : State :=
  { s with handlers := Function.update s.handlers c (some ⟨sockfd, pc⟩) }

/-- Where the accept thread goes with the first client it has counted: for a single
connection it is the thread of the handler, too. -/
def AcceptPc.afterStart (c numClients : Nat) : AcceptPc :=
  if numClients = 1 then .serving c else .accepting

/-- The accept thread when the handler of `c` has returned. -/
def AcceptPc.afterHandler (pc : AcceptPc) (c : Nat) : AcceptPc :=
  if pc = .serving c then .accepting else pc

/-- `CloseAllClients` -/
def State.closeAllClients (s : State) : State :=
  { s with
    table := s.clientsList.foldl
      (fun t fd => t.close fd ((List.range s.table.next).filter fun c => s.listed c = some fd))
      s.table
    stop := .closedAll }

/-- One step of one of the threads; `none` when no thread can take it. -/
def step (maxConnections : Nat) (s : State) (a : Action) : Option (Option Callback × State) :=
  match a, s.acceptThread with
  | .accept fd, .accepting =>
    if s.stop = .shut then
      none
    else
      (s.table.accept fd).map fun (c, table) =>
        (some (.onConnect c), { s with table := table, acceptThread := .accepted fd c })
  | .acceptFails, .accepting => some (none, { s with acceptThread := .ended })
  | .getNumberOfClients, .accepted fd c =>
    some (none, { s with acceptThread := .counted fd c s.clientsList.length })
  | .reject, .counted fd c n =>
    if n ≥ maxConnections then
      some (none, { s with table := s.table.close fd [c], acceptThread := .accepting })
    else
      none
  | .addClient, .counted fd c n =>
    if n ≥ maxConnections then
      none
    else
      some (none, { s with
        clientsList := insert s.clientsList fd, acceptThread := .registered fd c n })
  | .start, .registered fd c n =>
    some (none, { s.setPc c fd .reading with acceptThread := .afterStart c n })
  | .readEnds c, _ =>
    match s.handlers c with
    | some ⟨fd, .reading⟩ => some (none, s.setPc c fd .removing)
    | _ => none
  | .removeClient c, _ =>
    match s.handlers c with
    | some ⟨fd, .removing⟩ =>
      some (none, { s.setPc c fd .closing with clientsList := s.clientsList.erase fd })
    | _ => none
  | .close c, pc =>
    match s.handlers c with
    | some ⟨fd, .closing⟩ =>
      some (some (.onDisconnect c), { s.setPc c fd .done with
        table := s.table.close fd [c]
        acceptThread := pc.afterHandler c })
    | _ => none
  | .closeAllClients, _ => if s.stop = .running then some (none, s.closeAllClients) else none
  | .shutdown, _ => if s.stop = .closedAll then some (none, { s with stop := .shut }) else none
  | _, _ => none

end MyLibraries.TcpServer
