import MyLibraries.Core.Roster
import MyLibraries.Core.Run

/-!
# The `Server` class

`Start`, `Stop`, `server_handler`, `client_handler` and `unregister_clients` of
`src/Linux/server_cpp.h`, for TCP. The thread that starts and stops the server, the server
thread and the threads of the clients take their steps in any order; a step is one system
call or one operation under `guard`. What clients send is left out.
-/

namespace MyLibraries.CppServer

open Descriptors

/-- Where the server thread is in `server_handler`, with its local `clientfd`; `c` is the
connection that `clientfd` was handed out for. -/
inductive ServerPc
  | accepting
  | accepted (clientfd c : Nat)
  | registered (clientfd c : Nat)
  /-- It runs `client_handler` itself. -/
  | serving (c : Nat)
  /-- It has left the loop. -/
  | leaving
  | ended
  deriving DecidableEq, Repr

/-- Where a `client_handler` is. -/
inductive HandlerPc
  | reading
  | removing
  | closing
  | done
  deriving DecidableEq, Repr

structure Handler where
  sockfd : Nat
  pc : HandlerPc
  deriving DecidableEq, Repr

/-- Where the thread that starts and stops the server is; `_sockfd` has a value except in
`stopped`. -/
inductive Control
  | stopped
  | started
  | unregistered
  | shut
  deriving DecidableEq, Repr

/-- What comes of the system calls of `Start`. -/
inductive Setup
  | ok
  | socketFails
  /-- `bind` or `listen`. -/
  | bindFails
  deriving DecidableEq, Repr

/-- A `shutdown` of the number `fd`, that reaches the connection `hit`. -/
structure Shutdown where
  fd : Nat
  hit : Option Nat
  deriving DecidableEq, Repr

structure State where
  clientsList : List Nat
  table : Descriptors.Table
  shutdowns : List Shutdown
  serverThread : ServerPc
  /-- `_server_thread.joinable()` -/
  joinable : Bool
  handlers : Nat → Option Handler
  control : Control

inductive Action
  | start (setup : Setup)
  | accept (fd : Nat)
  | acceptFails
  | insert
  | serve
  | leave
  | readEnds (c : Nat)
  | erase (c : Nat)
  | close (c : Nat)
  | stop
  | shutdown
  | join
  deriving DecidableEq, Repr

/-- The callbacks of `ServerEvents` that the steps reach, and the exception of `join`. -/
inductive Event
  | onConnect (c : Nat)
  | onDisconnect (c : Nat)
  | alreadyOpened
  | socketError
  | setupError
  | joinThrows
  deriving DecidableEq, Repr

/-- A constructed `Server`. -/
def State.init : State where
  clientsList := []
  table := .empty
  shutdowns := []
  serverThread := .ended
  joinable := false
  handlers := fun _ => none
  control := .stopped

/-! ## Who has to close a connection, and who is in the list -/

/-- The number under which a handler will close its connection. -/
def Handler.holds (h : Handler) : Option Nat :=
  match h.pc with
  | .done => none
  | _ => some h.sockfd

/-- The number that a handler will take out of the list. -/
def Handler.listed (h : Handler) : Option Nat :=
  match h.pc with
  | .reading | .removing => some h.sockfd
  | _ => none

def ServerPc.holds (pc : ServerPc) (c : Nat) : Option Nat :=
  match pc with
  | .accepted fd c' | .registered fd c' => if c = c' then some fd else none
  | _ => none

def ServerPc.listed (pc : ServerPc) (c : Nat) : Option Nat :=
  match pc with
  | .registered fd c' => if c = c' then some fd else none
  | _ => none

/-- The number under which some thread has the connection `c` and will close it. -/
def State.holds (s : State) : Nat → Option Nat :=
  view s.handlers Handler.holds s.serverThread.holds

/-- The number that was put into the list for the connection `c` and has not been taken
out of it by its handler. -/
def State.listed (s : State) : Nat → Option Nat :=
  view s.handlers Handler.listed s.serverThread.listed

/-- The connection has been shut down: its handler reads no more. -/
def State.Halted (s : State) (c : Nat) : Prop := ∃ e ∈ s.shutdowns, e.hit = some c

/-! ## Steps -/

/-- Take the handler of `c` from one place to the next. -/
def State.setPc (s : State) (c sockfd : Nat) (pc : HandlerPc) : State :=
  { s with handlers := Function.update s.handlers c (some ⟨sockfd, pc⟩) }

/-- `unregister_clients` -/
def State.unregisterClients (s : State) : State :=
  { s with shutdowns := s.clientsList.map (fun fd => ⟨fd, s.table.owner fd⟩) ++ s.shutdowns }

/-- Where the server thread goes with a registered client: for a single connection it is
the thread of the handler, too. -/
def ServerPc.afterServe (maxConnections c : Nat) : ServerPc :=
  if maxConnections = 1 then .serving c else .accepting

/-- The server thread when the handler of `c` has returned. -/
def ServerPc.afterHandler (pc : ServerPc) (c : Nat) : ServerPc :=
  if pc = .serving c then .accepting else pc

/-- `Start` of a server that is not started. -/
def State.start (s : State) : Setup → Option Event × State
  | .socketFails => (some .socketError, s)
  | .bindFails => (some .setupError, { s with control := .started })
  | .ok => (none, { s with control := .started, serverThread := .accepting, joinable := true })

/-- One step of one of the threads; `none` when no thread can take it. -/
def step (maxConnections : Nat) (s : State) (a : Action) : Option (Option Event × State) :=
  match a, s.serverThread with
  | .start setup, _ =>
    match s.control with
    | .stopped => some (s.start setup)
    | .started => some (some .alreadyOpened, s)
    | _ => none
  | .accept fd, .accepting =>
    if s.control = .shut then
      none
    else
      (s.table.accept fd).map fun (c, table) =>
        (some (.onConnect c), { s with table := table, serverThread := .accepted fd c })
  | .acceptFails, .accepting => some (none, { s with serverThread := .leaving })
  | .insert, .accepted fd c =>
    some (none, { s with
      clientsList := s.clientsList.insert fd, serverThread := .registered fd c })
  | .serve, .registered fd c =>
    some (none, { s.setPc c fd .reading with serverThread := .afterServe maxConnections c })
  | .leave, .leaving => some (none, { s.unregisterClients with serverThread := .ended })
  | .readEnds c, _ =>
    match s.handlers c with
    | some ⟨fd, .reading⟩ => some (none, s.setPc c fd .removing)
    | _ => none
  | .erase c, _ =>
    match s.handlers c with
    | some ⟨fd, .removing⟩ =>
      some (none, { s.setPc c fd .closing with clientsList := s.clientsList.erase fd })
    | _ => none
  | .close c, pc =>
    match s.handlers c with
    | some ⟨fd, .closing⟩ =>
      some (some (.onDisconnect c), { s.setPc c fd .done with
        table := s.table.close fd [c]
        serverThread := pc.afterHandler c })
    | _ => none
  | .stop, _ =>
    match s.control with
    | .stopped => some (none, s)
    | .started => some (none, { s.unregisterClients with control := .unregistered })
    | _ => none
  | .shutdown, _ =>
    if s.control = .unregistered then some (none, { s with control := .shut }) else none
  | .join, pc =>
    if s.control = .shut then
      if s.joinable then
        if pc = .ended then some (none, { s with control := .stopped, joinable := false })
        else none
      else
        some (some .joinThrows, { s with control := .started })
    else
      none
  | _, _ => none

end MyLibraries.CppServer
