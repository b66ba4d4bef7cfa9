import MyLibraries.Core.Access

/-!
# The firmware server

`src/Linux/ota/ota.c`: a server that hands out the pages of a firmware image. A client
sends a header with a command; the server answers in the buffer in which it received the
request. The messages of `fprintf` are left out.
-/

namespace MyLibraries.Ota

open Memory Access

/-! ## The header -/

/-- `OTA_PAGE_SIZE` -/
def pageSizeMax : Nat := 1000

def versionStringLen : Nat := 16

def cmdGetLatestVersion : Nat := 0xFE3378A0

def cmdGetPageData : Nat := 0x47BF1975

/-! The offsets of the fields of `struct ota_version_header`. -/

def magicWordAt : Nat := 0
def cmdAt : Nat := magicWordAt + 4
def serialNumberAt : Nat := cmdAt + 4
def versAt : Nat := serialNumberAt + 4
def fwFileSizeAt : Nat := versAt + versionStringLen
def pageSizeAt : Nat := fwFileSizeAt + 4
def pageNumAt : Nat := pageSizeAt + 4
def dataAt : Nat := pageNumAt + 4

/-- `sizeof(struct ota_version_header)` -/
def headerLen : Nat := dataAt

/-- `OTA_HEADER_SIZE`: the size of the receive buffer. -/
def otaHeaderSize : Nat := pageSizeMax + headerLen

/-! ## The server -/

/-- `ota_ops`. `get_firmware` reads the whole file, and refuses one whose size does not
fit `uint32_t`. -/
structure OtaOps where
  magicWord : Nat
  firmware : Mem
  filesize : Nat
  filesize_eq : filesize = firmware.length
  filesize_lt : filesize < 2 ^ 32

/-- The memory a request is handled in. -/
inductive Block
  | firmware
  | data
  deriving DecidableEq, Repr

/-- The image and a receive buffer. -/
def OtaOps.blocks (ops : OtaOps) (buffer : Mem) : Blocks Block
  | .firmware => ops.firmware
  | .data => buffer

abbrev OtaProg := Prog Block (List UInt8)

/-- `version`: where the version string lies in the image. -/
def version : Nat := 48

/-- `send_to_client` -/
def sendToClient (size : Nat) : OtaProg Unit := do
  let msg ← read .data 0 size
  output msg

/-- `strcpy`, from the image into the buffer. -/
def strcpy (dst src : Nat) : OtaProg Unit := do
  let s ← readString .firmware src
  write .data dst (s ++ [0])

/-- `get_version` -/
def getVersion (ops : OtaOps) (size : Nat) : OtaProg Unit := do
  strcpy versAt version
  writeWord .data fwFileSizeAt 4 ops.filesize
  writeWord .data pageSizeAt 4 pageSizeMax
  sendToClient size

/-- The clamp of `get_next_page`: `left` bytes of the image are left. -/
def clampPage (left pageSize : Nat) : OtaProg Unit :=
  if left < pageSize then
    writeWord .data pageSizeAt 4 left
  else
    pure ()

/-- The end of `get_next_page`: the page from `offset` on is copied and sent. -/
def copyPage (offset : Nat) : OtaProg Unit := do
  let pageSize ← readWord .data pageSizeAt 4
  let page ← read .firmware offset pageSize
  write .data dataAt page
  let pageSize ← readWord .data pageSizeAt 4
  sendToClient (pageSize + headerLen)

/-- `get_next_page` -/
def getNextPage (ops : OtaOps) : OtaProg Unit := do
  let pageSize ← readWord .data pageSizeAt 4
  let pageNum ← readWord .data pageNumAt 4
  let offset := wrap 32 (pageSize * pageNum)
  let left := wrap 32 (2 ^ 32 + ops.filesize - offset)
  if offset ≥ ops.filesize then
    pure ()
  else do
    clampPage left pageSize
    copyPage offset

/-- `handler`, called with the `size` bytes that were received into the buffer. -/
def handler (ops : OtaOps) (size : Nat) : OtaProg Int :=
  if size < headerLen then
    pure 0
  else do
    let magicWord ← readWord .data magicWordAt 4
    if magicWord ≠ ops.magicWord then
      pure 0
    else do
      let cmd ← readWord .data cmdAt 4
      if cmd = cmdGetLatestVersion then
        getVersion ops size
      else if cmd = cmdGetPageData then
        getNextPage ops
      pure 0

/-! ## Requests -/

/-- A receive buffer, and how many of its bytes the last `read` filled: a header at
least. -/
structure Request where
  buffer : Mem
  size : Nat
  buffer_length : buffer.length = otaHeaderSize
  le_size : headerLen ≤ size
  size_le : size ≤ otaHeaderSize

/-- The field of the header at `p`. -/
def field (buffer : Mem) (p : Nat) : Nat := ofLe ((buffer.drop p).take 4)

/-- What a client sends to ask for a page. -/
def pageRequest (magicWord serialNumber pageSize pageNum : Nat) : List UInt8 :=
  leBytes 4 magicWord ++ leBytes 4 cmdGetPageData ++ leBytes 4 serialNumber ++
    List.replicate versionStringLen 0 ++ leBytes 4 0 ++ leBytes 4 pageSize ++ leBytes 4 pageNum

/-- The bytes that arrive are laid over what the buffer held before. -/
def receive (buffer : Mem) (bytes : List UInt8) : Option Mem := store buffer 0 bytes

/-- The receive loop of `client_handler` in `src/Linux/server.c` with `handler` as its
callback: what is sent for each request in turn. -/
def serve (ops : OtaOps) : Mem → List (List UInt8) → Option (List (List (List UInt8)))
  | _, [] => some []
  | buffer, bytes :: rest => do
    let buffer ← receive buffer bytes
    let (log, result) := handler ops bytes.length (ops.blocks buffer)
    let (_, blocks) ← result
    let replies ← serve ops (blocks .data) rest
    some (outputs log :: replies)

end MyLibraries.Ota
