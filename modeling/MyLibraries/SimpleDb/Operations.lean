import MyLibraries.SimpleDb.Layout

/-!
# The operations of `simple_db` on an image

`Image env db es` says that the memory `db` holds exactly the entries `es`, in order, with
the size and the checksum that belong to them. There is one lemma for each operation and
outcome: what it returns on an image, and which image it leaves. All of them assume a
one-byte enum; the tags of the image are non-empty, since the walk of `find_data` stops at
an empty one.
-/

namespace MyLibraries.SimpleDb

open Memory

/-- The memory `db` holds the entries `es`. Before the first write the size word may also
be blank: all zeros or all ones. -/
structure Image (env : Env) (db : Mem) (es : List Entry) : Prop where
  size : loadWord db 0 4 = some (imageSize es) ∨
    es = [] ∧ (loadWord db 0 4 = some 0 ∨ loadWord db 0 4 = some 0xFFFFFFFF)
  body : At db 8 (encode es)
  bound : imageSize es < 2 ^ 32 - 1
  checksum : loadWord db 0 4 = some (imageSize es) → ∀ crc, env.crcFunc = some crc →
    loadWord db 4 4 = some (wrap 32 (crc (encode es)))

/-- No entry has the empty tag. -/
def Named (es : List Entry) : Prop := ∀ x ∈ es, x.tag.1 ≠ []

/-- The size that `db_delete` reads back for an entry is its size in bytes. -/
def Entry.ByteSized (e : Entry) : Prop := elementCount e.type.code e.data.length = e.data.length

theorem byteSized_of_type {e : Entry} (h : e.type = .dbText ∨ e.type = .db8b) : e.ByteSized := by
  rcases h with h | h <;> simp [Entry.ByteSized, elementCount, h, DbDataType.code]

variable {env : Env} {db : Mem} {es pre post : List Entry} {e : Entry} {tag : List UInt8}

theorem Image.rows (h : Image env db es) : RowImage env db (es.map Entry.row) := by
  obtain ⟨hsize, hbody, hb, hcrc⟩ := h
  rw [← encodeRows_row] at hbody hcrc
  rw [imageSize, ← encodeRows_row] at hsize hb hcrc
  exact ⟨hsize.imp id fun hblank => ⟨by rw [hblank.1, List.map_nil], hblank.2⟩, hbody, hb, hcrc⟩

theorem image_of_rows (h : RowImage env db (es.map Entry.row)) : Image env db es := by
  obtain ⟨hsize, hbody, hb, hcrc⟩ := h
  rw [encodeRows_row] at hsize hbody hb hcrc
  exact ⟨hsize.imp id fun hblank => ⟨List.map_eq_nil_iff.mp hblank.1, hblank.2⟩, hbody, hb, hcrc⟩

theorem imageSize_rows (es : List Entry) :
    8 + (encodeRows (es.map Entry.row)).length = imageSize es := by
  rw [encodeRows_row, imageSize]

/-- Entries with other, non-empty tags do not stop the walk. -/
theorem passable_all (hnamed : Named es) (htag : ∀ x ∈ es, x.tag.1 ≠ tag) :
    ∀ x ∈ es.map Entry.row, x.Passable tag := by
  intro x hx
  obtain ⟨y, hy, rfl⟩ := List.mem_map.mp hx
  exact Entry.passable (htag y hy) (hnamed y hy)

/-- The entries before `e` do not stop the walk for its tag. -/
theorem passable_pre (hnamed : Named pre) (htag : ∀ x ∈ pre, x.tag ≠ e.tag) :
    ∀ x ∈ pre.map Entry.row, x.Passable e.tag.1 :=
  passable_all hnamed fun x hx heq => htag x hx (Subtype.ext heq)

/-! ## Finding an entry -/

theorem findData_present (h : Image env db (pre ++ e :: post)) (hnamed : Named pre)
    (htag : ∀ x ∈ pre, x.tag ≠ e.tag) :
    findData e.tag.1 db = some (8 + (encode pre).length, wrap 16 (pre.length + 1)) := by
  have hrows := h.rows
  rw [List.map_append, List.map_cons] at hrows
  have hfind := findData_reaches hrows (passable_pre hnamed htag)
  rwa [encodeRows_row, List.length_map] at hfind

theorem findData_absent (h : Image env db es) (hnamed : Named es)
    (htag : ∀ x ∈ es, x.tag.1 ≠ tag) : findData tag db = some (0, wrap 16 es.length) := by
  have hfind := findData_misses h.rows (passable_all hnamed htag)
  rwa [List.length_map] at hfind

/-! ## Reading -/

section Present

variable (henv : env.enumSize = 1) (h : Image env db (pre ++ e :: post)) (hnamed : Named pre)
  (htag : ∀ x ∈ pre, x.tag ≠ e.tag)

include h in
theorem rows_split : RowImage env db (pre.map Entry.row ++ e.row :: post.map Entry.row) := by
  simpa using h.rows

include henv h hnamed htag

theorem dbGetType_present : dbGetType env e.tag.1 db = some e.type.code := by
  have htype := dbGetType_slot henv (rows_split h) (passable_pre hnamed htag)
  rwa [e.row_type] at htype

theorem dbRead_present :
    dbRead env e.tag.1 db = some (elementCount e.type.code e.data.length, e.data) := by
  have hread := dbRead_slot henv (rows_split h) (passable_pre hnamed htag)
  rwa [e.row_type] at hread

theorem dbGetEntrySize_present :
    dbGetEntrySize env e.tag.1 db = some (elementCount e.type.code e.data.length) := by
  have hsize := dbGetEntrySize_slot henv (rows_split h) (passable_pre hnamed htag)
  rwa [e.row_type] at hsize

end Present

section Absent

variable (h : Image env db es) (hnamed : Named es) (htag : ∀ x ∈ es, x.tag.1 ≠ tag)
include h hnamed htag

theorem dbRead_absent : dbRead env tag db = some (0, []) :=
  dbRead_missed h.rows (passable_all hnamed htag)

theorem dbGetType_absent : dbGetType env tag db = some DbDataType.dbTypeError.code := by
  have hfind := findData_absent h hnamed htag
  simp [dbGetType, hfind]

theorem dbGetEntrySize_absent : dbGetEntrySize env tag db = some 0 := by
  have hfind := findData_absent h hnamed htag
  simp [dbGetEntrySize, hfind]

theorem dbDelete_absent : dbDelete env tag db = some (.dbTagNotFound, db) :=
  dbDelete_missed h.rows (passable_all hnamed htag)

end Absent

/-! ## Changing the image -/

theorem crcLength_imageSize (hb : imageSize es < 2 ^ 32 - 1) :
    crcLength (imageSize es) = (encode es).length :=
  crcLength_body hb

theorem dbValidate_image (h : Image env db es) (hw : loadWord db 0 4 = some (imageSize es)) :
    dbValidate env db = some (if env.crcFunc.isSome then .dbSuccess else .dbNoCRCFunc) := by
  have hb := h.bound
  cases hcrc : env.crcFunc with
  | none => simp only [dbValidate, hcrc, Option.isSome_none, Bool.false_eq_true, if_false]
  | some crc =>
    have hsize : dbGetSize db = some (imageSize es) := by
      simp only [dbGetSize, hw, Option.bind_eq_bind, some_bind]
      rw [if_neg (by omega)]
    have hbody := load_of_at h.body rfl
    simp only [dbValidate, hcrc, h.checksum hw crc hcrc, hsize, crcLength_imageSize hb, hbody,
      Option.bind_eq_bind, some_bind, Option.isSome_some, if_true]

theorem dbWrite_absent {datasize : Nat} (henv : env.enumSize = 1) (h : Image env db es)
    (hnamed : Named es) (htag : ∀ x ∈ es, x.tag ≠ e.tag)
    (hcount : byteCount e.type datasize = e.data.length)
    (hcap : imageSize (es ++ [e]) ≤ db.length) (hb : imageSize (es ++ [e]) < 2 ^ 32 - 1) :
    ∃ db', dbWrite env e.tag.1 e.data datasize e.type db = some (.dbSuccess, db') ∧
      Image env db' (es ++ [e]) ∧ loadWord db' 0 4 = some (imageSize (es ++ [e])) ∧
      db'.length = db.length := by
  have hload : load e.data 0 (byteCount e.type datasize) = some e.row.data := by
    rw [hcount]
    exact load_all _
  have hrows : (es ++ [e]).map Entry.row = es.map Entry.row ++ [e.row] := by simp
  rw [← imageSize_rows, hrows] at hcap hb
  obtain ⟨db', hdb', himage, hword, hlen⟩ := dbWrite_append henv h.rows
    (passable_pre hnamed htag) rfl hload hcap hb
  rw [← hrows] at himage hword
  rw [imageSize_rows] at hword
  exact ⟨db', hdb', image_of_rows himage, hword, hlen⟩

theorem dbWrite_present {datasize : Nat} {data : List UInt8} {type : DbDataType}
    (h : Image env db (pre ++ e :: post)) (hnamed : Named pre)
    (htag : ∀ x ∈ pre, x.tag ≠ e.tag) :
    dbWrite env e.tag.1 data datasize type db = some (.dbTagExist, db) :=
  dbWrite_found (rows_split h) (passable_pre hnamed htag)

/-- An entry of single bytes is removed as a whole. -/
theorem Entry.removed_row (hbytes : e.ByteSized) : e.row.removed = e.row.encode.length := by
  have hfits := e.fits
  have hlen : e.row.encode.length = e.tag.1.length + e.data.length + 4 := e.row.encode_length
  rw [Row.removed_eq_iff (by omega)]
  show elementCount (UInt8.ofNat e.type.code).toNat e.data.length = e.data.length
  rw [toNat_code, hbytes]

theorem dbDelete_present (henv : env.enumSize = 1) (h : Image env db (pre ++ e :: post))
    (hnamed : Named pre) (htag : ∀ x ∈ pre, x.tag ≠ e.tag) (hbytes : e.ByteSized) :
    ∃ db', dbDelete env e.tag.1 db = some (.dbSuccess, db') ∧ Image env db' (pre ++ post) ∧
      loadWord db' 0 4 = some (imageSize (pre ++ post)) ∧ db'.length = db.length := by
  obtain ⟨db', hdb', himage, hword, hlen⟩ := dbDelete_whole henv (rows_split h)
    (passable_pre hnamed htag) (Entry.removed_row hbytes)
  rw [← List.map_append] at himage hword
  rw [imageSize_rows] at hword
  exact ⟨db', hdb', image_of_rows himage, hword, hlen⟩

end MyLibraries.SimpleDb
