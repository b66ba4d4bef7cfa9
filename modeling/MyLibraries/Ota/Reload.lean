import MyLibraries.Ota.Download
import MyLibraries.Ota.Lifecycle

/-!
# What the clients are told while the image is loaded again

Seen from outside, the server has one file, and a request is answered from the file as it
was read last. The process, with its heap and the reads of its threads one after the other,
answers like that when no client is in the middle of a request while `main` frees the image
and none asks before the next one is there.
-/

namespace MyLibraries.Ota

open Memory Access Run Alloc

/-! ## The server seen from outside -/

/-- What a client has asked for. -/
inductive Asked
  | nothing
  | vers
  | page (pageSize pageNum : Nat)
  deriving DecidableEq, Repr

/-- The file as it was read last, and the requests that are not answered yet. -/
structure Served where
  file : Mem
  asked : Nat → Asked

def Served.init : Served := ⟨[], fun _ => .nothing⟩

/-- What a client gets for its request: the version string and the size of the file, or the
bytes of the file from the offset on, if there are any. -/
def Asked.reply (file : Mem) (c : Nat) : Asked → List Reply
  | .nothing => []
  | .vers => [.version c ((loadString file version).getD []) file.length]
  | .page pageSize pageNum =>
    if pageOffset pageSize pageNum < file.length then
      [.page c pageSize pageNum ((file.drop (pageOffset pageSize pageNum)).take pageSize)]
    else []

def Served.ask (t : Served) (c : Nat) (asked : Asked) : Served :=
  { t with asked := Function.update t.asked c asked }

/-- A file is read, a client asks, or it is answered. -/
def serveStep (t : Served) : Action → List Reply × Served
  | .read (some bytes) => ([], { t with file := bytes })
  | .getVersion c => ([], t.ask c .vers)
  | .getNextPage c pageSize pageNum => ([], t.ask c (.page pageSize pageNum))
  | .sendVersion c => ((t.asked c).reply t.file c, t.ask c .nothing)
  | .copyPage c => ((t.asked c).reply t.file c, t.ask c .nothing)
  | _ => ([], t)

/-- The image is freed between the requests, and a client asks for what lies in it. The
version string is there, `get_firmware` fails on the first image only, and the file is not
so long that a failed `read` goes unnoticed. -/
def Settled (s : Process) : Action → Prop
  | .free | .freeLast => ∀ c, s.clients c = .idle
  | .getVersion _ | .getNextPage .. => s.pc.serving = true
  | .giveUp => s.firmware = none
  | .setVersion => s.stringAt s.firmware ≠ none
  | .stat block => block.length ≠ 2 ^ 32 - 1
  | _ => True

/-- How far a client has come with what it has asked for. -/
inductive Agrees (firmware : Ptr) (file : Mem) : ClientPc → Asked → Prop
  | idle : Agrees firmware file .idle .nothing
  | copied {vers : List UInt8} : loadString file version = some vers →
      Agrees firmware file (.copied vers) .vers
  | counted {pageSize pageNum left : Nat} :
      (pageOffset pageSize pageNum < file.length →
        left = file.length - pageOffset pageSize pageNum) →
      Agrees firmware file (.counted pageSize pageNum left) (.page pageSize pageNum)
  | located {pageSize pageNum left : Nat} :
      (pageOffset pageSize pageNum < file.length →
        left = file.length - pageOffset pageSize pageNum) →
      Agrees firmware file (.located pageSize pageNum left firmware) (.page pageSize pageNum)

/-- The image is the file, and the clients wait for what they have asked for; none does
where there is no image. -/
structure Tells (s : Process) (t : Served) : Prop where
  sound : Sound s
  file : s.pc.holdsImage = true → ∀ m, s.heap.deref s.firmware = some m → m = t.file
  agrees : ∀ c, Agrees s.firmware t.file (s.clients c) (t.asked c)
  idle : s.pc.serving = false → ∀ c, s.clients c = .idle
  stat : ∀ tmp stSize, s.pc = .readingFile tmp stSize → stSize ≠ 2 ^ 32 - 1

variable {s s' : Process} {t t' : Served} {a : Action} {r : List Reply}
  {rs : List (List Reply)} {c : Nat} {file : Mem} {asked : Asked}

theorem agrees_idle (firmware : Ptr) (file : Mem) (h : Agrees firmware file .idle asked) :
    asked = .nothing := by
  cases h
  rfl

/-! ## The steps of `main` -/

/-- A step of `main` that leaves the image where it is, with the clients that wait for it. -/
theorem Tells.setPc (h : Tells s t) {pc : MainPc} (hs : Sound { s with pc := pc })
    (himage : pc.holdsImage = s.pc.holdsImage) (hserving : pc.serving = s.pc.serving)
    (hplain : pc.plain = true) : Tells { s with pc := pc } t := by
  constructor
  · exact hs
  · intro hi
    exact h.file (himage ▸ hi)
  · exact h.agrees
  · intro hi
    exact h.idle (hserving ▸ hi)
  · intro tmp stSize hpc
    rw [show pc = .readingFile tmp stSize from hpc] at hplain
    cases hplain

/-- A step of `main` while no client waits. -/
theorem Tells.quiet (h : Tells s t) (file : List UInt8) (hidle : ∀ c, s.clients c = .idle)
    (hs : Sound s') (hclients : s'.clients = s.clients)
    (hfile : s'.pc.holdsImage = true → ∀ m, s'.heap.deref s'.firmware = some m → m = file)
    (hstat : ∀ tmp stSize, s'.pc = .readingFile tmp stSize → stSize ≠ 2 ^ 32 - 1) :
    Tells s' { t with file := file } := by
  have hidle' : ∀ c, s'.clients c = .idle := by
    intro c
    rw [hclients]
    exact hidle c
  constructor
  · exact hs
  · exact hfile
  · intro c
    have hasked : t.asked c = .nothing := agrees_idle _ _ (hidle c ▸ h.agrees c)
    show Agrees s'.firmware file (s'.clients c) (t.asked c)
    rw [hidle' c, hasked]
    exact .idle
  · exact fun _ => hidle'
  · exact hstat

theorem Tells.freeFirmware (h : Tells s t) (hidle : ∀ c, s.clients c = .idle) {pc : MainPc}
    (hs : Sound (s.freeFirmware pc)) (himage : pc.holdsImage = false) (hplain : pc.plain = true) :
    Tells (s.freeFirmware pc) t := by
  have hgoing := hs.going
  cases hfree : s.heap.free s.firmware with
  | none =>
    rw [Process.freeFirmware, hfree] at hgoing
    exact absurd rfl hgoing
  | some heap =>
    have heq : s.freeFirmware pc = { s with heap := heap, pc := pc } := by
      rw [Process.freeFirmware, hfree]
    rw [heq] at hs ⊢
    refine h.quiet t.file hidle hs rfl (fun hi => ?_) fun tmp stSize hpc => ?_
    · rw [himage] at hi
      cases hi
    · rw [show pc = .readingFile tmp stSize from hpc] at hplain
      cases hplain

theorem Tells.freeTmp (h : Tells s t) (hidle : ∀ c, s.clients c = .idle) {tmp : Nat} {res : Int}
    (hs : Sound (s.freeTmp tmp res)) (file : Mem) :
    Tells (s.freeTmp tmp res) { t with file := file } := by
  have hgoing := hs.going
  cases hfree : s.heap.free (some tmp) with
  | none =>
    rw [Process.freeTmp, hfree] at hgoing
    exact absurd rfl hgoing
  | some heap =>
    have heq : s.freeTmp tmp res = { s with heap := heap, pc := .loadFailed res } := by
      rw [Process.freeTmp, hfree]
    rw [heq] at hs ⊢
    exact h.quiet _ hidle hs rfl (fun hi => by cases hi) fun tmp stSize hpc => by cases hpc

/-- A `read` that has been found complete has read the whole file. -/
theorem filled_eq {block bs : Mem} {stSize : Nat} (hlen : block.length = stSize)
    (hle : bs.length ≤ stSize) (hall : readResult (some bs) = stSize) :
    filled block (some bs) = bs := by
  have hmod : wrap 32 bs.length ≤ bs.length := Nat.mod_le _ _
  have hbs : stSize = wrap 32 bs.length := hall.symm
  show bs ++ block.drop bs.length = bs
  rw [List.drop_of_length_le (by omega), List.append_nil]

theorem Tells.read (h : Tells s t) {tmp stSize : Nat} {m : Mem} {bytes : Option (List UInt8)}
    (hpc : s.pc = .readingFile tmp stSize) (hm : s.heap.deref (some tmp) = some m)
    (hle : ∀ bs ∈ bytes, bs.length ≤ stSize) (hall : readResult bytes = stSize) :
    Tells { s with
      heap := s.heap.fill tmp (filled m bytes)
      firmware := some tmp
      pc := .loaded } (serveStep t (.read bytes)).2 := by
  have hs := h.sound.read hpc hm hle hall
  cases bytes with
  | none => exact absurd hall.symm (h.stat tmp stSize hpc)
  | some bs =>
    obtain ⟨m', hm', hlen, -⟩ := h.sound.block tmp stSize hpc
    cases hm.symm.trans hm'
    refine h.quiet _ (h.idle (by rw [hpc]; rfl)) hs rfl (fun _ m' hderef => ?_) fun _ _ hpc => ?_
    · cases deref_fill.symm.trans hderef
      exact filled_eq hlen (hle bs rfl) hall
    · cases hpc

theorem holdsImage_of_serving {pc : MainPc} (h : pc.serving = true) : pc.holdsImage = true := by
  cases pc <;> first | rfl | cases h

theorem Tells.serving (h : Tells s t) (hc : s.clients c ≠ .idle) : s.pc.serving = true := by
  by_contra hn
  exact hc (h.idle (Bool.not_eq_true _ ▸ hn) c)

/-- Where clients are served, the file lies in the heap. -/
theorem Tells.image (h : Tells s t) (hserved : s.served = true) (hserving : s.pc.serving = true) :
    s.heap.deref s.firmware = some t.file ∧ s.filesize = t.file.length ∧
      t.file.length < 2 ^ 32 := by
  have himage := holdsImage_of_serving hserving
  obtain ⟨m, hm, hsize⟩ := h.sound.image_exists hserved himage
  cases h.file himage m hm
  exact ⟨hm, hsize⟩

@[simp] theorem ask_self : (t.ask c asked).asked c = asked := Function.update_self ..

theorem ask_of_ne {d : Nat} (h : d ≠ c) : (t.ask c asked).asked d = t.asked d :=
  Function.update_of_ne h ..

theorem Tells.setClient (h : Tells s t) {pc : ClientPc} (hs : Sound (s.setClient c pc))
    (hserving : s.pc.serving = true) (hc : Agrees s.firmware t.file pc asked) :
    Tells (s.setClient c pc) (t.ask c asked) := by
  constructor
  · exact hs
  · exact h.file
  · intro d
    show Agrees s.firmware t.file ((s.setClient c pc).clients d) ((t.ask c asked).asked d)
    by_cases hd : d = c
    · subst hd
      rw [setClient_self, ask_self]
      exact hc
    · rw [setClient_of_ne hd, ask_of_ne hd]
      exact h.agrees d
  · intro hi
    rw [show s.pc.serving = false from hi] at hserving
    cases hserving
  · exact h.stat

/-- A page ends with the file. -/
theorem take_left (file : Mem) (offset pageSize : Nat) :
    (file.drop offset).take (min (file.length - offset) pageSize) =
      (file.drop offset).take pageSize := by
  rw [List.take_eq_take_iff, List.length_drop]
  omega

/-- The handler, alone with the image, sends the same page. -/
theorem getNextPage_replies {ops : OtaOps} {buffer : Mem} (c : Nat)
    (hlen : buffer.length = otaHeaderSize)
    (hoff : pageOffset (field buffer pageSizeAt) (field buffer pageNumAt) < ops.filesize)
    (hfit : field buffer pageSizeAt ≤ pageSizeMax) :
    ∃ buffer' sent, Yields (getNextPage ops) (ops.blocks buffer) [sent] () (ops.blocks buffer') ∧
      Asked.reply ops.firmware c (.page (field buffer pageSizeAt) (field buffer pageNumAt)) =
        [.page c (field buffer pageSizeAt) (field buffer pageNumAt) (payload sent)] := by
  obtain ⟨buffer', sent, hsends, -, -, hpayload⟩ := getNextPage_sends hlen rfl hoff rfl
    (Nat.le_trans (Nat.min_le_right ..) hfit)
  refine ⟨buffer', sent, hsends, ?_⟩
  rw [hpayload, ops.filesize_eq, take_left, Asked.reply, if_pos (ops.filesize_eq ▸ hoff)]
  rfl

/-! ## Runs -/

end MyLibraries.Ota
