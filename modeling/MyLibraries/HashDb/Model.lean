import MyLibraries.Core.Memory

/-!
# The hash database `HashDB`

A database is a block of `max_size_` bytes: a header of two words, the name hash and the
number of bytes in use, then the entries. An entry is a header of the same shape, its name
hash and the size of its data, followed by the data; the next entry begins where this one
ends. The memory below is exactly the block at `location_`, so `max_size_` is its length
and `none` is an access at or beyond `max_size_`, or a scan that never ends.

The space check adds a `size_t`; its width is the parameter `sizeBits`.
-/

namespace MyLibraries.HashDb

open Memory

/-- `0`, or the errno code that a call returns. -/
inductive Status
  | success
  | enospc
  | einval
  | enoent
  deriving DecidableEq, Repr

/-- `HashDB::initialize_database`. -/
def initializeDatabase (nameHash : UInt32) (location : Mem) : Option Mem := do
  let m ← storeWord location 0 4 nameHash.toNat
  storeWord m 4 4 8

/-- `HashDB::GetUsedSize`. -/
def getUsedSize (m : Mem) : Option Nat := loadWord m 4 4

/-- The scan of `write_int` and `read_int`: where it stops, and whether the entry there
has the hash. The memory does not change in it, so `2 ^ 32` rounds decide whether it ends. -/
def scanLoop (nameHash : UInt32) (dbSize : Nat) (m : Mem) : Nat → Nat → Option (Nat × Bool)
  | 0, _ => none
  | fuel + 1, offset =>
    if offset < dbSize then do
      let entryHash ← loadWord m offset 4
      if entryHash = nameHash.toNat then some (offset, true)
      else
        let entrySize ← loadWord m (offset + 4) 4
        scanLoop nameHash dbSize m fuel (wrap 32 (offset + (8 + entrySize)))
    else some (offset, false)

def scan (nameHash : UInt32) (m : Mem) : Option (Nat × Bool) := do
  let dbSize ← getUsedSize m
  scanLoop nameHash dbSize m (2 ^ 32) 8

/-- `HashDB::write_int`, of the bytes `data`. -/
def writeInt (sizeBits : Nat) (nameHash : UInt32) (data : List UInt8) (m : Mem) :
    Option (Status × Mem) := do
  let (offset, found) ← scan nameHash m
  let dbSize ← getUsedSize m
  if m.length < wrap sizeBits (dbSize + 8 + data.length) then some (.enospc, m)
  else
    let m ← storeWord m offset 4 nameHash.toNat
    let m ← storeWord m (offset + 4) 4 data.length
    let m ← store m (offset + 8) data
    if found then some (.success, m)
    else
      let dbSize ← getUsedSize m
      let m ← storeWord m 4 4 (dbSize + (8 + data.length))
      some (.success, m)

/-- `HashDB::read_int`: the status and the bytes copied to the caller. -/
def readInt (nameHash : UInt32) (size : Nat) (m : Mem) : Option (Status × List UInt8) := do
  let (offset, found) ← scan nameHash m
  if found then
    let entrySize ← loadWord m (offset + 4) 4
    if entrySize ≠ size then some (.einval, [])
    else
      let data ← load m (offset + 8) size
      some (.success, data)
  else some (.enoent, [])

end MyLibraries.HashDb
