import MyLibraries.Core.Heap
import MyLibraries.Core.Run
import MyLibraries.Ota.Model

/-!
# The process of the firmware server

`main` of `src/Linux/ota/ota.c` loads the image, starts the server, and when the file
changes it stops the server, frees the image and starts all over. `server_stop` does not
wait for the threads of the clients, and nothing orders their reads of `ota_ops` and the
writes of `main`, so the steps of all threads interleave freely. The receive buffers of the
clients and the records of the server are left out.
-/

namespace MyLibraries.Ota

open Memory Run Alloc

def enomem : Int := 12
def efault : Int := 14
def einval : Int := 22

/-! ## State -/

/-- Where `main` is. `get_firmware` works on the block `tmp`, for a file of `stSize` bytes;
`crashed` is behind an access of memory that is not there. -/
inductive MainPc
  | restart
  | getFirmware
  | readingFile (tmp stSize : Nat)
  | loadFailed (res : Int)
  | loaded
  | started
  | watching
  | modified
  | terminated
  | freed
  | returned (res : Int)
  | crashed
  deriving DecidableEq, Repr

/-- Where the thread of a client is: `get_version` has copied the string, `get_next_page`
has computed `left`, or `src` as well. -/
inductive ClientPc
  | idle
  | copied (vers : List UInt8)
  | counted (pageSize pageNum left : Nat)
  | located (pageSize pageNum left : Nat) (src : Ptr)
  deriving DecidableEq, Repr

/-- The process: the heap, the fields of `ota_ops` that change, and the threads. `served`
says that a server has been started. -/
structure Process where
  heap : Heap Mem
  firmware : Ptr
  filesize : Nat
  versionString : Ptr
  pc : MainPc
  served : Bool
  clients : Nat → ClientPc

def Process.init : Process where
  heap := .empty
  firmware := none
  filesize := 0
  versionString := none
  pc := .restart
  served := false
  clients := fun _ => .idle

/-- One step of `main`, or of the thread of the client `c`. `stat` finds a file as long as
the block that `malloc` hands out, with these bytes left in it; `read` ends with the bytes
that it has read, or with `-1`. -/
inductive Action
  | free
  | statFails (errno : Int)
  | noMemory
  | stat (block : Mem)
  | openFails (errno : Int)
  | read (bytes : Option (List UInt8))
  | giveUp
  | serverFails
  | serverStarts
  | setVersion
  | modify
  | terminate
  | freeLast
  | serverStop (res : Int)
  | getVersion (c : Nat)
  | sendVersion (c : Nat)
  | getNextPage (c pageSize pageNum : Nat)
  | locate (c : Nat)
  | copyPage (c : Nat)
  deriving DecidableEq, Repr

/-- What is sent to a client. -/
inductive Reply
  | version (c : Nat) (vers : List UInt8) (fwFileSize : Nat)
  | page (c pageSize pageNum : Nat) (data : List UInt8)
  deriving DecidableEq, Repr

/-! ## Steps -/

def Process.crash (s : Process) : Process := { s with pc := .crashed }

/-- `free(ota_ops.firmware)` -/
def Process.freeFirmware (s : Process) (pc : MainPc) : Process :=
  match s.heap.free s.firmware with
  | some heap => { s with heap := heap, pc := pc }
  | none => s.crash

/-- `free(tmp)` in `get_firmware`. -/
def Process.freeTmp (s : Process) (tmp : Nat) (res : Int) : Process :=
  match s.heap.free (some tmp) with
  | some heap => { s with heap := heap, pc := .loadFailed res }
  | none => s.crash

def Process.setClient (s : Process) (c : Nat) (pc : ClientPc) : Process :=
  { s with clients := Function.update s.clients c pc }

/-- What `read` returns, in the `uint32_t` that takes it. -/
def readResult : Option (List UInt8) → Nat
  | some bytes => wrap 32 bytes.length
  | none => 2 ^ 32 - 1

/-- The block after the `read`. -/
def filled (block : Mem) : Option (List UInt8) → Mem
  | some bytes => bytes ++ block.drop bytes.length
  | none => block

/-- The string in the block of `p` at the offset `version`. -/
def Process.stringAt (s : Process) (p : Ptr) : Option (List UInt8) :=
  (s.heap.deref p).bind fun m => loadString m version

/-- `offset` in `get_next_page`. -/
def pageOffset (pageSize pageNum : Nat) : Nat := wrap 32 (pageSize * pageNum)

/-- The end of `get_next_page`, from the test of `offset` on. -/
def Process.copyPage (s : Process) (c pageSize pageNum left : Nat) (src : Ptr) :
    List Reply × Process :=
  if pageOffset pageSize pageNum ≥ s.filesize then
    ([], s.setClient c .idle)
  else
    match (s.heap.deref src).bind fun m =>
        load m (pageOffset pageSize pageNum) (min left pageSize) with
    | some data => ([.page c pageSize pageNum data], s.setClient c .idle)
    | none => ([], s.crash)

/-- A step of the thread of a client. -/
def clientStep (s : Process) : Action → Option (List Reply × Process)
  | .getVersion c =>
    if s.clients c = .idle then
      match s.stringAt s.versionString with
      | some vers => some ([], s.setClient c (.copied vers))
      | none => some ([], s.crash)
    else none
  | .sendVersion c =>
    match s.clients c with
    | .copied vers => some ([.version c vers s.filesize], s.setClient c .idle)
    | _ => none
  | .getNextPage c pageSize pageNum =>
    if s.clients c = .idle then
      some ([], s.setClient c (.counted pageSize pageNum
        (wrap 32 (2 ^ 32 + s.filesize - pageOffset pageSize pageNum))))
    else none
  | .locate c =>
    match s.clients c with
    | .counted pageSize pageNum left =>
      some ([], s.setClient c (.located pageSize pageNum left s.firmware))
    | _ => none
  | .copyPage c =>
    match s.clients c with
    | .located pageSize pageNum left src => some (s.copyPage c pageSize pageNum left src)
    | _ => none
  | _ => none

/-- A step of `main`. -/
def mainStep (s : Process) (a : Action) : Option Process :=
  match s.pc, a with
  | .restart, .free => some (s.freeFirmware .getFirmware)
  | .getFirmware, .statFails errno =>
    if errno ≠ 0 then some { s with pc := .loadFailed errno } else none
  | .getFirmware, .noMemory => some { s with pc := .loadFailed enomem }
  | .getFirmware, .stat block =>
    some { s with
      heap := s.heap.malloc block
      filesize := wrap 32 block.length
      pc := .readingFile s.heap.next block.length }
  | .readingFile tmp _, .openFails errno =>
    if errno ≠ 0 then some (s.freeTmp tmp errno) else none
  | .readingFile tmp stSize, .read bytes =>
    match s.heap.deref (some tmp) with
    | some block =>
      if ∀ bs ∈ bytes, bs.length ≤ stSize then
        if readResult bytes ≠ stSize then
          some (s.freeTmp tmp einval)
        else
          some { s with
            heap := s.heap.fill tmp (filled block bytes)
            firmware := some tmp
            pc := .loaded }
      else none
    | none => some s.crash
  | .loadFailed res, .giveUp => some (s.freeFirmware (.returned res))
  | .loaded, .serverFails => some (s.freeFirmware (.returned efault))
  | .loaded, .serverStarts => some { s with served := true, pc := .started }
  | .started, .setVersion =>
    match s.stringAt s.firmware with
    | some _ => some { s with versionString := s.firmware, pc := .watching }
    | none => some s.crash
  | .watching, .modify => some { s with pc := .modified }
  | .watching, .terminate => some { s with pc := .terminated }
  | .modified, .serverStop _ => some { s with pc := .restart }
  | .terminated, .freeLast => some (s.freeFirmware .freed)
  | .freed, .serverStop res => some { s with pc := .returned res }
  | _, _ => none

/-- `main` has returned, or the process has crashed. -/
def MainPc.ended : MainPc → Bool
  | .returned _ | .crashed => true
  | _ => false

/-- One step of one of the threads; `none` when no thread can take it. -/
def step (s : Process) (a : Action) : Option (List Reply × Process) :=
  match mainStep s a with
  | some s' => some ([], s')
  | none => if s.served = true ∧ s.pc.ended = false then clientStep s a else none

end MyLibraries.Ota
