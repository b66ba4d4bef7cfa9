import MyLibraries.Core.Memory

/-!
# The tag database `simple_db`

A database is one block of memory: a 32-bit size, a 32-bit checksum, then the entries one
after another, each a null-terminated tag, a type, a 16-bit size and the data. Nothing is
indexed: `findData` walks the tags and the sizes from the first entry on.

The functions below follow `simple_db.c` statement by statement, with its integer widths.
`none` is an access outside the memory, or a walk that never ends. The type field is
addressed as an `enum db_data_type` array, so its address depends on the size that the
compiler gives the enum; that size and the installed checksum are the `Env`.
-/

namespace MyLibraries.SimpleDb

open Memory

/-- `enum db_data_type`. -/
inductive DbDataType
  | dbText
  | db8b
  | db16b
  | db32b
  | dbTypeError
  deriving DecidableEq, Repr

def DbDataType.code : DbDataType → Nat
  | .dbText => 0
  | .db8b => 1
  | .db16b => 2
  | .db32b => 4
  | .dbTypeError => 5

/-- `enum db_error`. -/
inductive DbError
  | dbSuccess
  | dbWrongCRC
  | dbTagNotFound
  | dbTagExist
  | dbNoCRCFunc
  | dbWrongFormat
  | dbBlank
  deriving DecidableEq, Repr

/-- `sizeof(enum db_data_type)`, and the function assigned by `db_init`, of which the
code sees 32 bits. -/
structure Env where
  enumSize : Nat
  crcFunc : Option (List UInt8 → Nat)

/-- The number of bytes that `update_db` and `db_validate` pass to the checksum. -/
def crcLength (size : Nat) : Nat := wrap 32 (size + 2 ^ 32 - 8)

/-- `update_db`. -/
def updateDb (env : Env) (size : Nat) (db : Mem) : Option Mem := do
  let db ← storeWord db 0 4 size
  match env.crcFunc with
  | none => some db
  | some crc =>
    let body ← load db 8 (crcLength size)
    storeWord db 4 4 (wrap 32 (crc body))

/-- `db_get_size`. -/
def dbGetSize (db : Mem) : Option Nat := do
  let size ← loadWord db 0 4
  if size = 0xFFFFFFFF then some 0 else some size

/-- The loop of `find_data`. The memory does not change in it, so a walk that revisits a
32-bit pointer never ends: `2 ^ 32` rounds decide it. -/
def findLoop (tag : List UInt8) (dbsize : Nat) (db : Mem) : Nat → Nat → Nat → Option (Nat × Nat)
  | 0, _, _ => none
  | fuel + 1, pointer, tagsFound => do
    let tagsFound := wrap 16 (tagsFound + 1)
    let found ← loadString db pointer
    if found = tag then some (pointer, tagsFound)
    else
      let tagSize := wrap 16 found.length
      let pointer := wrap 32 (pointer + (tagSize + 2))
      let low ← loadWord db pointer 1
      let pointer := wrap 32 (pointer + 1)
      let high ← loadWord db pointer 1
      let pointer := wrap 32 (pointer + 1)
      let entrySize := low + 256 * high
      let pointer := wrap 32 (pointer + entrySize)
      if tagSize ≠ 0 ∧ pointer < dbsize then findLoop tag dbsize db fuel pointer tagsFound
      else some (0, tagsFound)

/-- `find_data`: the address of the entry, `0` if there is none, and `*tags_found`. -/
def findData (tag : List UInt8) (db : Mem) : Option (Nat × Nat) := do
  let dbsize ← dbGetSize db
  if dbsize ≤ 8 then some (0, 0) else findLoop tag dbsize db (2 ^ 32) 8 0

/-- The size in bytes of `datasize` elements. -/
def byteCount (type : DbDataType) (datasize : Nat) : Nat :=
  match type with
  | .db16b => wrap 16 (datasize * 2)
  | .db32b => wrap 16 (datasize * 4)
  | _ => datasize

/-- The number of elements in `size` bytes, for a stored type. -/
def elementCount (type size : Nat) : Nat :=
  if type = DbDataType.db16b.code then size / 2
  else if type = DbDataType.db32b.code then size / 4
  else size

/-- `db_write`. -/
def dbWrite (env : Env) (tag data : List UInt8) (datasize : Nat) (type : DbDataType) (db : Mem) :
    Option (DbError × Mem) := do
  let size ← dbGetSize db
  let (found, _) ← findData tag db
  if found ≠ 0 then some (.dbTagExist, db)
  else
    let pointer := if size ≤ 8 ∨ size = 0xFFFFFFFF then 8 else size
    let db ← store db pointer (tag ++ [0])
    let pointer := wrap 32 (pointer + tag.length)
    let db ← store db pointer [0]
    let pointer := wrap 32 (pointer + 1)
    let db ← storeWord db (env.enumSize * pointer) env.enumSize type.code
    let pointer := wrap 32 (pointer + 1)
    let datasize := byteCount type datasize
    let db ← storeWord db pointer 1 datasize
    let pointer := wrap 32 (pointer + 1)
    let db ← storeWord db pointer 1 (datasize / 256)
    let pointer := wrap 32 (pointer + 1)
    let bytes ← load data 0 datasize
    let db ← store db pointer bytes
    let pointer := wrap 32 (pointer + datasize)
    let db ← updateDb env pointer db
    some (.dbSuccess, db)

/-- The part of an entry after its tag, as `db_read` and `db_get_entry_size` read it:
type, size in bytes, address of the data. -/
def entryHeader (env : Env) (tag : List UInt8) (pointer : Nat) (db : Mem) :
    Option (Nat × Nat × Nat) := do
  let pointer := wrap 32 (pointer + (tag.length + 1))
  let type ← loadWord db (env.enumSize * pointer) env.enumSize
  let pointer := wrap 32 (pointer + 1)
  let low ← loadWord db pointer 1
  let pointer := wrap 32 (pointer + 1)
  let high ← loadWord db pointer 1
  let pointer := wrap 32 (pointer + 1)
  some (type, wrap 16 (low + 256 * high), pointer)

/-- `db_read`: the returned size and the bytes copied to the caller's buffer. -/
def dbRead (env : Env) (tag : List UInt8) (db : Mem) : Option (Nat × List UInt8) := do
  let (pointer, _) ← findData tag db
  if pointer = 0 then some (0, [])
  else
    let (type, size, pointer) ← entryHeader env tag pointer db
    let data ← load db pointer size
    some (elementCount type size, data)

/-- `db_get_type`: the stored code, or that of `DB_TypeError`. -/
def dbGetType (env : Env) (tag : List UInt8) (db : Mem) : Option Nat := do
  let (pointer, _) ← findData tag db
  if pointer = 0 then some DbDataType.dbTypeError.code
  else
    let pointer := wrap 32 (pointer + (tag.length + 1))
    loadWord db (env.enumSize * pointer) env.enumSize

/-- `db_get_entry_size`. -/
def dbGetEntrySize (env : Env) (tag : List UInt8) (db : Mem) : Option Nat := do
  let (pointer, _) ← findData tag db
  if pointer = 0 then some 0
  else
    let (type, size, _) ← entryHeader env tag pointer db
    some (elementCount type size)

/-- `db_validate`. -/
def dbValidate (env : Env) (db : Mem) : Option DbError := do
  match env.crcFunc with
  | none => some .dbNoCRCFunc
  | some crc =>
    let stored ← loadWord db 4 4
    let size ← dbGetSize db
    let body ← load db 8 (crcLength size)
    if stored = wrap 32 (crc body) then some .dbSuccess else some .dbWrongCRC

/-- `db_delete`; the copy onto itself is taken as `memmove`. -/
def dbDelete (env : Env) (tag : List UInt8) (db : Mem) : Option (DbError × Mem) := do
  let (pointer, _) ← findData tag db
  let dbsize ← dbGetSize db
  if pointer = 0 then some (.dbTagNotFound, db)
  else
    let count ← dbGetEntrySize env tag db
    let entrySize := wrap 16 (count + tag.length + 4)
    let db ← move db pointer (pointer + entrySize) (wrap 32 (dbsize + 2 ^ 33 - pointer - entrySize))
    let db ← updateDb env (wrap 32 (dbsize + 2 ^ 32 - entrySize)) db
    some (.dbSuccess, db)

/-- `db_overwrite`; the result of its `db_delete` is not looked at. -/
def dbOverwrite (env : Env) (tag data : List UInt8) (datasize : Nat) (type : DbDataType)
    (db : Mem) : Option (DbError × Mem) := do
  let (found, _) ← findData tag db
  let db ← if found ≠ 0 then (dbDelete env tag db).map Prod.snd else some db
  dbWrite env tag data datasize type db

/-- `db_get_nof_tags`: the walk for a tag that is taken to be absent, `"DEADBEEF"`. -/
def dbGetNofTags (db : Mem) : Option Nat := do
  let (_, tags) ← findData [0x44, 0x45, 0x41, 0x44, 0x42, 0x45, 0x45, 0x46] db
  some tags

end MyLibraries.SimpleDb
