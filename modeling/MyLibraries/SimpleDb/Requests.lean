import MyLibraries.SimpleDb.Rows

/-!
# Rows with a one-byte type

With a one-byte enum the type of a row is its type byte. A `Request` is a call of
`db_write` with all the bytes of its elements, and `Request.row` is the row that is
appended for it: as many of the bytes as the 16-bit byte count says.

`dbWrite_append`, `dbWrite_found` and `dbDelete_row` say what the calls that change a
database do with the rows of an image. What `db_delete` takes out behind the tag is
`Row.removed`: it counts the data in elements, and in 16 bits.
-/

namespace MyLibraries.SimpleDb

open Memory

/-- The bytes of one element. -/
def DbDataType.elementSize : DbDataType → Nat
  | .dbText => 1
  | .db8b => 1
  | .db16b => 2
  | .db32b => 4
  | .dbTypeError => 1

/-- The arguments of `db_write`: `datasize` elements of a type. -/
structure Request where
  tag : CString
  type : DbDataType
  datasize : Nat
  data : List UInt8
  datasize_lt : datasize < 2 ^ 16
  data_length : data.length = datasize * type.elementSize
  deriving DecidableEq

theorem byteCount_eq {type : DbDataType} {n : Nat} (hn : n < 2 ^ 16) :
    byteCount type n = wrap 16 (n * type.elementSize) := by
  cases type
  case db16b | db32b => rfl
  all_goals
    rw [DbDataType.elementSize, Nat.mul_one, wrap_of_lt hn]
    rfl

def Request.row (r : Request) : Row where
  tag := r.tag
  slot := UInt8.ofNat r.type.code
  data := r.data.take (byteCount r.type r.datasize)
  data_lt := by
    rw [byteCount_eq r.datasize_lt]
    exact Nat.lt_of_le_of_lt (List.length_take_le ..) (wrap_lt _ _)

/-- The number of bytes that `db_delete` takes out of the image for a row. -/
def Row.removed (r : Row) : Nat :=
  wrap 16 (elementCount r.slot.toNat r.data.length + r.tag.1.length + 4)

variable {env : Env} {db : Mem} {rs pre post : List Row} {r : Row} {q : Request}
  {tag : List UInt8} {p : Nat}

/-! ## Elements and bytes -/

theorem toNat_code (type : DbDataType) : (UInt8.ofNat type.code).toNat = type.code := by
  cases type <;> rfl

theorem elementSize_pos (type : DbDataType) : 0 < type.elementSize := by
  cases type <;> decide

theorem elementCount_code (type : DbDataType) (n : Nat) :
    elementCount type.code n = n / type.elementSize := by
  cases type <;> simp [elementCount, DbDataType.code, DbDataType.elementSize]

theorem elementCount_le (type n : Nat) : elementCount type n ≤ n := by
  unfold elementCount
  split
  · exact Nat.div_le_self _ _
  · split
    · exact Nat.div_le_self _ _
    · exact Nat.le_refl n

@[simp] theorem Request.row_tag (q : Request) : q.row.tag = q.tag := rfl

theorem Request.row_type (q : Request) : q.row.slot.toNat = q.type.code := toNat_code _

theorem Request.load_data (q : Request) :
    load q.data 0 (byteCount q.type q.datasize) = some q.row.data := by
  have hle : byteCount q.type q.datasize ≤ q.data.length := by
    rw [byteCount_eq q.datasize_lt, q.data_length]
    exact Nat.mod_le _ _
  rw [load, if_pos (by omega), List.drop_zero]
  rfl

/-- Elements whose bytes can be counted in 16 bits are stored as they are. -/
theorem Request.row_data (hq : q.data.length < 2 ^ 16) : q.row.data = q.data := by
  have hcount : byteCount q.type q.datasize = q.data.length := by
    rw [byteCount_eq q.datasize_lt, ← q.data_length, wrap_of_lt hq]
  show q.data.take (byteCount q.type q.datasize) = q.data
  rw [hcount, List.take_length]

/-- They are counted as they were. -/
theorem Request.count (q : Request) :
    elementCount q.row.slot.toNat q.data.length = q.datasize := by
  rw [q.row_type, elementCount_code, q.data_length, Nat.mul_div_cancel _ (elementSize_pos _)]

theorem Row.removed_le (r : Row) : r.removed ≤ r.encode.length := by
  have hcount := elementCount_le r.slot.toNat r.data.length
  rw [r.encode_length]
  refine Nat.le_trans (Nat.mod_le _ _) ?_
  omega

/-- A row that fits 16 bits is removed as a whole when its elements are bytes. -/
theorem Row.removed_eq_iff (hr : r.encode.length < 2 ^ 16) :
    r.removed = r.encode.length ↔ elementCount r.slot.toNat r.data.length = r.data.length := by
  have hcount := elementCount_le r.slot.toNat r.data.length
  have hlen := r.encode_length
  rw [Row.removed, wrap_of_lt (by omega)]
  omega

/-! ## Reading -/

section OneByte

variable (henv : env.enumSize = 1)
include henv

theorem loadType_row (h : At db p r.encode) :
    loadWord db (env.enumSize * (p + r.tag.1.length + 1)) env.enumSize =
      some r.slot.toNat := by
  have hslot : At db (p + r.tag.1.length + 1) [r.slot] := (at_row h).2.1
  have hload : load db (p + r.tag.1.length + 1) 1 = some [r.slot] := load_of_at hslot rfl
  rw [henv, Nat.one_mul, loadWord, hload, Option.map_some]
  rfl

section Present

variable (h : RowImage env db (pre ++ r :: post)) (hpass : ∀ x ∈ pre, x.Passable r.tag.1)
include h hpass

theorem dbGetType_slot : dbGetType env r.tag.1 db = some r.slot.toNat := by
  rw [dbGetType_row h hpass, typeOffset, loadType_row henv (rowImage_at h).1]

theorem dbRead_slot :
    dbRead env r.tag.1 db = some (elementCount r.slot.toNat r.data.length, r.data) := by
  rw [dbRead_row h hpass, typeOffset, loadType_row henv (rowImage_at h).1, Option.map_some]

theorem dbGetEntrySize_slot :
    dbGetEntrySize env r.tag.1 db = some (elementCount r.slot.toNat r.data.length) := by
  rw [dbGetEntrySize_row h hpass, typeOffset, loadType_row henv (rowImage_at h).1,
    Option.map_some]

end Present

/-! ## Writing -/

theorem dbWrite_append {args : List UInt8} {datasize : Nat} {type : DbDataType}
    (h : RowImage env db rs) (hpass : ∀ x ∈ rs, x.Passable r.tag.1)
    (hslot : r.slot = UInt8.ofNat type.code)
    (hload : load args 0 (byteCount type datasize) = some r.data)
    (hcap : 8 + (encodeRows (rs ++ [r])).length ≤ db.length)
    (hb : 8 + (encodeRows (rs ++ [r])).length < 2 ^ 32 - 1) :
    ∃ db', dbWrite env r.tag.1 args datasize type db = some (.dbSuccess, db') ∧
      RowImage env db' (rs ++ [r]) ∧
      loadWord db' 0 4 = some (8 + (encodeRows (rs ++ [r])).length) ∧
      db'.length = db.length := by
  have hlen := r.encode_length
  have hsum : (encodeRows (rs ++ [r])).length = (encodeRows rs).length + r.encode.length := by
    simp
  -- the stores are one store of the encoded row
  obtain ⟨db₃, hstore⟩ := store_exists db (8 + (encodeRows rs).length) r.encode (by omega)
  have hbody : At db₃ 8 (encodeRows (rs ++ [r])) := by
    rw [encodeRows_append, at_append]
    refine ⟨(at_store_frame hstore (Or.inl (Nat.le_refl _))).mpr h.body, ?_⟩
    simpa using at_of_store hstore
  obtain ⟨db', hdb', himage, hword, hlen', -⟩ := updateDb_rows env hbody hb
  refine ⟨db', ?_, himage, hword, by rw [hlen', store_length hstore]⟩
  have hsplit : r.encode =
      r.tag.1 ++ [0] ++ (leBytes 1 type.code ++ (leBytes 2 r.data.length ++ r.data)) := by
    simp only [Row.encode, hslot, leBytes, List.append_assoc]
  have hend : 8 + (encodeRows rs).length + r.tag.1.length + 4 + r.data.length =
      8 + (encodeRows (rs ++ [r])).length := by omega
  rw [hsplit, store_append] at hstore
  obtain ⟨db₁, h₁, hstore⟩ := Option.bind_eq_some_iff.mp hstore
  rw [store_append, leBytes_length, List.length_append, List.length_singleton,
    ← Nat.add_assoc] at hstore
  obtain ⟨db₂, h₂, h₃⟩ := Option.bind_eq_some_iff.mp hstore
  rw [dbWrite_fresh h hpass hload (by omega) h₁, henv, Nat.one_mul, storeWord, h₂, some_bind,
    h₃, some_bind, hend, hdb', some_bind]

omit henv in
theorem dbWrite_found {args : List UInt8} {datasize : Nat} {type : DbDataType}
    (h : RowImage env db (pre ++ r :: post)) (hpass : ∀ x ∈ pre, x.Passable r.tag.1) :
    dbWrite env r.tag.1 args datasize type db = some (.dbTagExist, db) := by
  have hfind := findData_reaches h hpass
  obtain ⟨size, hsize, -⟩ := dbGetSize_rows h
  simp only [dbWrite, hsize, hfind, Option.bind_eq_bind, some_bind]
  rw [if_pos (by omega)]

/-! ## Deleting -/

/-- `db_delete` closes a gap of `r.removed` bytes from the row on. -/
theorem dbDelete_row (h : RowImage env db (pre ++ r :: post))
    (hpass : ∀ x ∈ pre, x.Passable r.tag.1) {body : List UInt8}
    (hbody : body = encodeRows pre ++ (r.encode ++ encodeRows post).drop r.removed) :
    ∃ db', dbDelete env r.tag.1 db = some (.dbSuccess, db') ∧ At db' 8 body ∧
      loadWord db' 0 4 = some (8 + body.length) ∧
      (∀ crc, env.crcFunc = some crc → loadWord db' 4 4 = some (wrap 32 (crc body))) ∧
      db'.length = db.length := by
  have hle := r.removed_le
  have hb := h.bound
  have himage := h.body
  have hmem := at_bound h.body
  have hfind := findData_reaches h hpass
  obtain ⟨size, hsize, rfl | ⟨hnil, -⟩⟩ := dbGetSize_rows h
  swap
  · simp at hnil
  -- the bytes of the row and of those behind it are the gap and what stays
  generalize hrest : (r.encode ++ encodeRows post).drop r.removed = rest at hbody
  obtain ⟨gap, hgap, hgaplen⟩ : ∃ gap, r.encode ++ encodeRows post = gap ++ rest ∧
      gap.length = r.removed := by
    refine ⟨(r.encode ++ encodeRows post).take r.removed, ?_, ?_⟩
    · rw [← hrest, List.take_append_drop]
    · rw [List.length_take, List.length_append]
      omega
  have hrows : encodeRows (pre ++ r :: post) = encodeRows pre ++ (gap ++ rest) := by
    rw [encodeRows_append, encodeRows_cons, hgap]
  simp only [hrows, at_append, List.length_append, hgaplen] at himage hmem hb hsize
  obtain ⟨hpre, -, hat⟩ := himage
  have hlen : body.length = (encodeRows pre).length + rest.length := by
    rw [hbody, List.length_append]
  have hcount : wrap 16 (elementCount r.slot.toNat r.data.length + r.tag.1.length + 4) =
      r.removed := rfl
  have w₁ : wrap 32 (8 + ((encodeRows pre).length + (r.removed + rest.length)) + 2 ^ 33 -
      (8 + (encodeRows pre).length) - r.removed) = rest.length := by
    simp only [wrap]
    omega
  have w₂ : wrap 32 (8 + ((encodeRows pre).length + (r.removed + rest.length)) + 2 ^ 32 -
      r.removed) = 8 + body.length := by
    simp only [wrap]
    omega
  obtain ⟨db₁, hdb₁⟩ := store_exists db (8 + (encodeRows pre).length) rest (by omega)
  have hbody₁ : At db₁ 8 body := by
    rw [hbody, at_append]
    exact ⟨(at_store_frame hdb₁ (Or.inl (Nat.le_refl _))).mpr hpre, at_of_store hdb₁⟩
  obtain ⟨db', hdb', hat', hword, hcrc, hlen', -⟩ := updateDb_body env hbody₁ (by omega)
  refine ⟨db', ?_, hat', hword, hcrc, by rw [hlen', store_length hdb₁]⟩
  simp only [dbDelete, hfind, hsize, Option.bind_eq_bind, some_bind]
  rw [if_neg (by omega)]
  simp only [dbGetEntrySize_slot henv h hpass, some_bind, hcount, w₁, move_of_at hat, hdb₁, w₂,
    hdb']

/-- A row whose elements are bytes is removed as a whole, and no other is touched. -/
theorem dbDelete_whole (h : RowImage env db (pre ++ r :: post))
    (hpass : ∀ x ∈ pre, x.Passable r.tag.1) (hr : r.removed = r.encode.length) :
    ∃ db', dbDelete env r.tag.1 db = some (.dbSuccess, db') ∧ RowImage env db' (pre ++ post) ∧
      loadWord db' 0 4 = some (8 + (encodeRows (pre ++ post)).length) ∧
      db'.length = db.length := by
  have hb := h.bound
  have hbody : encodeRows (pre ++ post) =
      encodeRows pre ++ (r.encode ++ encodeRows post).drop r.removed := by
    rw [hr, List.drop_left, encodeRows_append]
  obtain ⟨db', hdb', hat, hword, hcrc, hlen⟩ := dbDelete_row henv h hpass hbody
  refine ⟨db', hdb', ⟨Or.inl hword, hat, ?_, fun _ => hcrc⟩, hword, hlen⟩
  simp only [encodeRows_append, encodeRows_cons, List.length_append] at hb ⊢
  omega

end OneByte

/-! ## Tags that no row has -/

section Absent

variable (h : RowImage env db rs) (hpass : ∀ x ∈ rs, x.Passable tag)
include h hpass

theorem dbRead_missed : dbRead env tag db = some (0, []) := by
  have hfind := findData_misses h hpass
  simp [dbRead, hfind]

theorem dbDelete_missed : dbDelete env tag db = some (.dbTagNotFound, db) := by
  have hfind := findData_misses h hpass
  obtain ⟨size, hsize, -⟩ := dbGetSize_rows h
  simp [dbDelete, hfind, hsize]

end Absent

end MyLibraries.SimpleDb
