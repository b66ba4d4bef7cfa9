import Mathlib.Data.List.Basic
import MyLibraries.SimpleDb.Model

/-!
# The rows of a `simple_db` image

A row is a tag, a null, a type byte, a 16-bit size and the data. The walk of `findData`
passes over the type byte without looking at it, so what it finds depends on the rows
alone, whatever their type bytes are and however wide the enum is: it goes from row to row
(`findLoop_next`), stops at the first one with the tag (`findLoop_present`) and otherwise
at the end (`findLoop_absent`). An empty tag ends it, and a tag of 65536 characters or more
derails it.
-/

namespace MyLibraries.SimpleDb

open Memory

/-- The bytes of an entry; `slot` is the byte where its type is kept. -/
structure Row where
  tag : CString
  slot : UInt8
  data : List UInt8
  data_lt : data.length < 2 ^ 16
  deriving DecidableEq

def Row.encode (r : Row) : List UInt8 :=
  r.tag.1 ++ [0] ++ [r.slot] ++ leBytes 2 r.data.length ++ r.data

def encodeRows (rs : List Row) : List UInt8 := rs.flatMap Row.encode

/-- The walk can pass over the row. -/
def Row.Passable (tag : List UInt8) (r : Row) : Prop :=
  r.tag.1 ≠ tag ∧ r.tag.1 ≠ [] ∧ r.tag.1.length < 2 ^ 16

/-- The memory `db` holds the rows `rs`. Before the first write the size word may also be
blank: all zeros or all ones. -/
structure RowImage (env : Env) (db : Mem) (rs : List Row) : Prop where
  size : loadWord db 0 4 = some (8 + (encodeRows rs).length) ∨
    rs = [] ∧ (loadWord db 0 4 = some 0 ∨ loadWord db 0 4 = some 0xFFFFFFFF)
  body : At db 8 (encodeRows rs)
  bound : 8 + (encodeRows rs).length < 2 ^ 32 - 1
  checksum : loadWord db 0 4 = some (8 + (encodeRows rs).length) → ∀ crc,
    env.crcFunc = some crc → loadWord db 4 4 = some (wrap 32 (crc (encodeRows rs)))

variable {r : Row} {rs pre post : List Row} {db : Mem} {p dbsize fuel k : Nat}
  {tag : List UInt8} {env : Env}

theorem Row.encode_length (r : Row) : r.encode.length = r.tag.1.length + r.data.length + 4 := by
  simp only [Row.encode, List.length_append, List.length_singleton, leBytes_length]
  omega

@[simp] theorem encodeRows_nil : encodeRows [] = [] := rfl

@[simp] theorem encodeRows_cons : encodeRows (r :: rs) = r.encode ++ encodeRows rs := rfl

@[simp] theorem encodeRows_append :
    encodeRows (pre ++ post) = encodeRows pre ++ encodeRows post := by
  simp [encodeRows]

theorem length_le_encodeRows (rs : List Row) : rs.length ≤ (encodeRows rs).length := by
  induction rs with
  | nil => simp
  | cons r rs ih =>
    have := r.encode_length
    simp only [List.length_cons, encodeRows_cons, List.length_append]
    omega

/-! ## Reading one row -/

/-- The fields of a row, each at its address. -/
theorem at_row (h : At db p r.encode) :
    At db p (r.tag.1 ++ [0]) ∧ At db (p + r.tag.1.length + 1) [r.slot] ∧
      loadWord db (p + r.tag.1.length + 2) 1 = some (r.data.length % 256) ∧
      loadWord db (p + r.tag.1.length + 3) 1 = some (r.data.length / 256) ∧
      At db (p + r.tag.1.length + 4) r.data := by
  have hlt := r.data_lt
  simp only [Row.encode, at_append, List.length_append, List.length_singleton,
    leBytes_length] at h
  obtain ⟨⟨⟨⟨htag, hnull⟩, hslot⟩, hsize⟩, hdata⟩ := h
  obtain ⟨hlow, hhigh⟩ := at_leBytes_succ.mp hsize
  refine ⟨at_append.mpr ⟨htag, hnull⟩, hslot, loadWord_mod_of_at hlow, loadWord_of_at hhigh ?_,
    hdata⟩
  omega

theorem loadString_row (h : At db p r.encode) : loadString db p = some r.tag.1 :=
  loadString_of_at r.tag.2 (at_row h).1

theorem rowSize (r : Row) : r.data.length % 256 + 256 * (r.data.length / 256) = r.data.length :=
  Nat.mod_add_div _ _

/-! ## The walk -/

theorem findLoop_found (h : At db p r.encode) :
    findLoop r.tag.1 dbsize db (fuel + 1) p k = some (p, wrap 16 (k + 1)) := by
  simp only [findLoop, loadString_row h, Option.bind_eq_bind, some_bind, if_true]

/-- One round of the walk. -/
theorem findLoop_next (h : At db p r.encode) (hp : p + r.encode.length ≤ dbsize)
    (hsize : dbsize < 2 ^ 32) (hpass : r.Passable tag) :
    findLoop tag dbsize db (fuel + 1) p k =
      if p + r.encode.length < dbsize then
        findLoop tag dbsize db fuel (p + r.encode.length) (wrap 16 (k + 1))
      else some (0, wrap 16 (k + 1)) := by
  obtain ⟨hne, hnil, hshort⟩ := hpass
  have hlen := r.encode_length
  obtain ⟨-, -, hlow, hhigh, -⟩ := at_row h
  have h₁ : wrap 16 r.tag.1.length = r.tag.1.length := wrap_of_lt hshort
  have h₂ : wrap 32 (p + (r.tag.1.length + 2)) = p + r.tag.1.length + 2 := by
    rw [wrap_of_lt (by omega), Nat.add_assoc]
  have h₃ : wrap 32 (p + r.tag.1.length + 2 + 1) = p + r.tag.1.length + 3 :=
    wrap_of_lt (by omega)
  have h₄ : wrap 32 (p + r.tag.1.length + 3 + 1) = p + r.tag.1.length + 4 :=
    wrap_of_lt (by omega)
  have h₅ : wrap 32 (p + r.tag.1.length + 4 + r.data.length) = p + r.encode.length := by
    rw [wrap_of_lt (by omega)]
    omega
  have hpos : r.tag.1.length ≠ 0 := fun h0 => hnil (List.length_eq_zero_iff.mp h0)
  simp only [findLoop, loadString_row h, Option.bind_eq_bind, some_bind, if_neg hne, h₁, h₂, h₃,
    h₄, hlow, hhigh, rowSize, h₅, hpos, ne_eq, not_false_eq_true, true_and]

/-- The walk over passable rows counts them and reaches what follows them. -/
theorem findLoop_pass (h : At db p (encodeRows (pre ++ post)))
    (hp : p + (encodeRows (pre ++ post)).length = dbsize) (hsize : dbsize < 2 ^ 32)
    (hpass : ∀ x ∈ pre, x.Passable tag) (hpost : post ≠ []) (hfuel : pre.length ≤ fuel)
    (hk : k < 2 ^ 16) :
    findLoop tag dbsize db fuel p k = findLoop tag dbsize db (fuel - pre.length)
      (p + (encodeRows pre).length) (wrap 16 (k + pre.length)) := by
  induction pre generalizing p k fuel with
  | nil => simp [wrap_of_lt hk]
  | cons r pre ih =>
    obtain ⟨f, rfl⟩ : ∃ f, fuel = f + 1 := ⟨fuel - 1, by simp at hfuel; omega⟩
    obtain ⟨x, post, rfl⟩ := List.exists_cons_of_ne_nil hpost
    simp only [List.cons_append, encodeRows_cons, encodeRows_append, at_append,
      List.length_append] at h hp
    have hx := x.encode_length
    have hfuel' : pre.length ≤ f := by simpa using hfuel
    have hcount : wrap 16 (wrap 16 (k + 1) + pre.length) = wrap 16 (k + (pre.length + 1)) := by
      simp only [wrap]
      omega
    have hrest := ih (p := p + r.encode.length) (k := wrap 16 (k + 1))
      (by simpa [at_append] using h.2) (by simp; omega)
      (fun y hy => hpass y (List.mem_cons_of_mem _ hy)) hfuel' (wrap_lt _ _)
    rw [findLoop_next h.1 (by omega) hsize (hpass r List.mem_cons_self), if_pos (by omega),
      hrest, hcount, List.length_cons, Nat.add_sub_add_right, encodeRows_cons,
      List.length_append, Nat.add_assoc p]

/-- The walk stops at the row with the tag. -/
theorem findLoop_reaches (h : At db p (encodeRows (pre ++ r :: post)))
    (hp : p + (encodeRows (pre ++ r :: post)).length = dbsize) (hsize : dbsize < 2 ^ 32)
    (hpass : ∀ x ∈ pre, x.Passable r.tag.1) (hfuel : pre.length < fuel) :
    findLoop r.tag.1 dbsize db fuel p 0 =
      some (p + (encodeRows pre).length, wrap 16 (pre.length + 1)) := by
  have hreach := findLoop_pass h hp hsize hpass (List.cons_ne_nil _ _) (Nat.le_of_lt hfuel)
    (Nat.two_pow_pos 16)
  obtain ⟨f, hf⟩ : ∃ f, fuel - pre.length = f + 1 := ⟨fuel - pre.length - 1, by omega⟩
  have hcount : wrap 16 (wrap 16 (0 + pre.length) + 1) = wrap 16 (pre.length + 1) := by
    simp only [wrap]
    omega
  simp only [encodeRows_append, encodeRows_cons, at_append] at h
  rw [hreach, hf, findLoop_found h.2.1, hcount]

/-- A tag that no row has is not found, and all rows are counted. -/
theorem findLoop_misses (h : At db p (encodeRows rs)) (hp : p + (encodeRows rs).length = dbsize)
    (hsize : dbsize < 2 ^ 32) (hpass : ∀ x ∈ rs, x.Passable tag) (hrs : rs ≠ [])
    (hfuel : rs.length ≤ fuel) :
    findLoop tag dbsize db fuel p 0 = some (0, wrap 16 rs.length) := by
  obtain ⟨pre, r, rfl⟩ : ∃ pre r, rs = pre ++ [r] :=
    ⟨rs.dropLast, rs.getLast hrs, (List.dropLast_concat_getLast hrs).symm⟩
  rw [List.length_append, List.length_singleton] at hfuel ⊢
  have hreach := findLoop_pass h hp hsize (fun x hx => hpass x (by simp [hx]))
    (List.cons_ne_nil _ _) (Nat.le_of_succ_le hfuel) (Nat.two_pow_pos 16)
  obtain ⟨f, hf⟩ : ∃ f, fuel - pre.length = f + 1 := ⟨fuel - pre.length - 1, by omega⟩
  have hcount : wrap 16 (wrap 16 (0 + pre.length) + 1) = wrap 16 (pre.length + 1) := by
    simp only [wrap]
    omega
  simp only [encodeRows_append, encodeRows_cons, encodeRows_nil, List.append_nil, at_append,
    List.length_append] at h hp
  rw [hreach, hf, findLoop_next h.2 (by omega) hsize (hpass r (by simp)), if_neg (by omega),
    hcount]

/-! ## Finding a row -/

theorem dbGetSize_rows (h : RowImage env db rs) :
    ∃ size, dbGetSize db = some size ∧
      (size = 8 + (encodeRows rs).length ∨ rs = [] ∧ size = 0) := by
  have hb := h.bound
  rcases h.size with hw | ⟨hrs, hw | hw⟩
  · refine ⟨8 + (encodeRows rs).length, ?_, Or.inl rfl⟩
    simp only [dbGetSize, hw, Option.bind_eq_bind, some_bind]
    rw [if_neg (by omega)]
  · exact ⟨0, by simp [dbGetSize, hw], Or.inr ⟨hrs, rfl⟩⟩
  · exact ⟨0, by simp [dbGetSize, hw], Or.inr ⟨hrs, rfl⟩⟩

theorem findData_reaches (h : RowImage env db (pre ++ r :: post))
    (hpass : ∀ x ∈ pre, x.Passable r.tag.1) :
    findData r.tag.1 db = some (8 + (encodeRows pre).length, wrap 16 (pre.length + 1)) := by
  have hb := h.bound
  have hlen := length_le_encodeRows (pre ++ r :: post)
  have hpos : 0 < (pre ++ r :: post).length := List.length_pos_iff.mpr (by simp)
  obtain ⟨size, hsize, rfl | ⟨hnil, -⟩⟩ := dbGetSize_rows h
  · rw [findData, hsize]
    simp only [Option.bind_eq_bind, some_bind]
    rw [if_neg (by omega)]
    refine findLoop_reaches h.body rfl (by omega) hpass ?_
    simp only [List.length_append] at hlen hb
    omega
  · simp at hnil

theorem findData_misses (h : RowImage env db rs) (hpass : ∀ x ∈ rs, x.Passable tag) :
    findData tag db = some (0, wrap 16 rs.length) := by
  have hb := h.bound
  have hlen := length_le_encodeRows rs
  obtain ⟨size, hsize, hs⟩ := dbGetSize_rows h
  rw [findData, hsize]
  simp only [Option.bind_eq_bind, some_bind]
  by_cases hrs : rs = []
  · subst hrs
    rw [if_pos]
    · rfl
    · rcases hs with rfl | ⟨-, rfl⟩ <;> simp
  · have hpos : 0 < rs.length := List.length_pos_iff.mpr hrs
    obtain rfl : size = 8 + (encodeRows rs).length := hs.resolve_right fun h => hrs h.1
    rw [if_neg (by omega)]
    exact findLoop_misses h.body rfl (by omega) hpass hrs (by omega)

/-! ## Reading a row -/

/-- The header that `db_read` and `db_get_entry_size` see: the size and the address of the
data are the row's, the type is whatever word lies at the address of the type field. -/
theorem entryHeader_row (env : Env) (h : At db p r.encode) (hp : p + r.encode.length < 2 ^ 32) :
    entryHeader env r.tag.1 p db =
      (loadWord db (env.enumSize * (p + r.tag.1.length + 1)) env.enumSize).bind fun type =>
        some (type, r.data.length, p + r.tag.1.length + 4) := by
  have hlen := r.encode_length
  obtain ⟨-, -, hlow, hhigh, -⟩ := at_row h
  have h₁ : wrap 32 (p + (r.tag.1.length + 1)) = p + r.tag.1.length + 1 := by
    rw [wrap_of_lt (by omega), Nat.add_assoc]
  have h₂ : wrap 32 (p + r.tag.1.length + 1 + 1) = p + r.tag.1.length + 2 :=
    wrap_of_lt (by omega)
  have h₃ : wrap 32 (p + r.tag.1.length + 2 + 1) = p + r.tag.1.length + 3 :=
    wrap_of_lt (by omega)
  have h₄ : wrap 32 (p + r.tag.1.length + 3 + 1) = p + r.tag.1.length + 4 :=
    wrap_of_lt (by omega)
  have h₅ : wrap 16 r.data.length = r.data.length := wrap_of_lt r.data_lt
  simp only [entryHeader, h₁, h₂, hlow, h₃, hhigh, h₄, rowSize, h₅, Option.bind_eq_bind,
    some_bind]

/-- The part of an image around one of its rows. -/
theorem rowImage_at (h : RowImage env db (pre ++ r :: post)) :
    At db (8 + (encodeRows pre).length) r.encode ∧
      8 + (encodeRows pre).length + r.encode.length < 2 ^ 32 - 1 := by
  have hbody := h.body
  have hb := h.bound
  simp only [encodeRows_append, encodeRows_cons, at_append, List.length_append] at hbody hb
  exact ⟨hbody.2.1, by omega⟩

/-- The address of the type field of the row behind `pre`, in units of the enum. -/
def typeOffset (pre : List Row) (tag : CString) : Nat :=
  8 + (encodeRows pre).length + tag.1.length + 1

theorem dbGetType_row (h : RowImage env db (pre ++ r :: post))
    (hpass : ∀ x ∈ pre, x.Passable r.tag.1) :
    dbGetType env r.tag.1 db =
      loadWord db (env.enumSize * typeOffset pre r.tag) env.enumSize := by
  have hlen := r.encode_length
  have hfind := findData_reaches h hpass
  obtain ⟨-, hb⟩ := rowImage_at h
  have hoffset : wrap 32 (8 + (encodeRows pre).length + (r.tag.1.length + 1)) =
      typeOffset pre r.tag := by
    rw [wrap_of_lt (by omega), typeOffset, ← Nat.add_assoc]
  simp only [dbGetType, hfind, Option.bind_eq_bind, some_bind, hoffset]
  rw [if_neg (by omega)]

theorem dbRead_row (h : RowImage env db (pre ++ r :: post))
    (hpass : ∀ x ∈ pre, x.Passable r.tag.1) :
    dbRead env r.tag.1 db =
      (loadWord db (env.enumSize * typeOffset pre r.tag) env.enumSize).map fun type =>
        (elementCount type r.data.length, r.data) := by
  have hfind := findData_reaches h hpass
  obtain ⟨hat, hb⟩ := rowImage_at h
  have hdata := load_of_at (at_row hat).2.2.2.2 rfl
  simp only [dbRead, hfind, Option.bind_eq_bind, some_bind]
  rw [if_neg (by omega), entryHeader_row env hat (by omega), ← typeOffset]
  cases loadWord db (env.enumSize * typeOffset pre r.tag) env.enumSize with
  | none => rfl
  | some type => simp only [some_bind, hdata, Option.map_some]

theorem dbGetEntrySize_row (h : RowImage env db (pre ++ r :: post))
    (hpass : ∀ x ∈ pre, x.Passable r.tag.1) :
    dbGetEntrySize env r.tag.1 db =
      (loadWord db (env.enumSize * typeOffset pre r.tag) env.enumSize).map fun type =>
        elementCount type r.data.length := by
  have hfind := findData_reaches h hpass
  obtain ⟨hat, hb⟩ := rowImage_at h
  simp only [dbGetEntrySize, hfind, Option.bind_eq_bind, some_bind]
  rw [if_neg (by omega), entryHeader_row env hat (by omega), ← typeOffset]
  cases loadWord db (env.enumSize * typeOffset pre r.tag) env.enumSize with
  | none => rfl
  | some type => simp only [some_bind, Option.map_some]

/-! ## Writing the header -/

theorem crcLength_body {n : Nat} (hn : 8 + n < 2 ^ 32 - 1) : crcLength (8 + n) = n := by
  simp only [crcLength, wrap]
  omega

/-- `update_db` over a body of bytes writes the size and the checksum that belong to it, and
changes nothing behind the header. -/
theorem updateDb_body (env : Env) {body : List UInt8} (hbody : At db 8 body)
    (hb : 8 + body.length < 2 ^ 32 - 1) :
    ∃ db', updateDb env (8 + body.length) db = some db' ∧ At db' 8 body ∧
      loadWord db' 0 4 = some (8 + body.length) ∧
      (∀ crc, env.crcFunc = some crc → loadWord db' 4 4 = some (wrap 32 (crc body))) ∧
      db'.length = db.length ∧ ∀ i, 8 ≤ i → db'[i]? = db[i]? := by
  have hlen := at_bound hbody
  obtain ⟨db₁, h₁⟩ := store_exists db 0 (leBytes 4 (8 + body.length))
    (by rw [leBytes_length]; omega)
  have hword₁ : At db₁ 0 (leBytes 4 (8 + body.length)) := at_of_store h₁
  have hbody₁ : At db₁ 8 body :=
    (at_store_frame h₁ (Or.inr (by rw [leBytes_length]; omega))).mpr hbody
  have hlen₁ := store_length h₁
  have hkept₁ : ∀ i, 8 ≤ i → db₁[i]? = db[i]? := by
    intro i hi
    rw [store_getElem? h₁, if_neg (by rw [leBytes_length]; omega)]
  cases hcrc : env.crcFunc with
  | none =>
    refine ⟨db₁, ?_, hbody₁, loadWord_of_at hword₁ (by omega), ?_, hlen₁, hkept₁⟩
    · simp only [updateDb, storeWord, h₁, hcrc, Option.bind_eq_bind, some_bind]
    · rintro crc hc
      cases hc
  | some crc =>
    obtain ⟨db₂, h₂⟩ := store_exists db₁ 4 (leBytes 4 (wrap 32 (crc body)))
      (by rw [leBytes_length, hlen₁]; omega)
    have hword₂ : loadWord db₂ 0 4 = some (8 + body.length) := by
      refine loadWord_of_at ((at_store_frame h₂ (Or.inl ?_)).mpr hword₁) (by omega)
      rw [leBytes_length]
    refine ⟨db₂, ?_, ?_, hword₂, ?_, ?_, ?_⟩
    · have hload := load_of_at hbody₁ rfl
      simp only [updateDb, storeWord, h₁, hcrc, Option.bind_eq_bind, some_bind,
        crcLength_body hb, hload, h₂]
    · exact (at_store_frame h₂ (Or.inr (by rw [leBytes_length]))).mpr hbody₁
    · rintro crc' hc
      cases hc
      have hcrcLt := wrap_lt 32 (crc body)
      exact loadWord_of_at (at_of_store h₂) (by omega)
    · rw [store_length h₂, hlen₁]
    · intro i hi
      rw [store_getElem? h₂, if_neg (by rw [leBytes_length]; omega), hkept₁ i hi]

/-- The size that `update_db` records. -/
theorem updateDb_size {size : Nat} {db' : Mem} (h : updateDb env size db = some db') :
    loadWord db' 0 4 = some (wrap 32 size) := by
  obtain ⟨db₁, h₁, hrest⟩ := Option.bind_eq_some_iff.mp h
  have hword := at_of_store h₁
  cases hcrc : env.crcFunc with
  | none =>
    rw [hcrc] at hrest
    cases hrest
    exact loadWord_mod_of_at hword
  | some crc =>
    rw [hcrc] at hrest
    obtain ⟨body, -, h₂⟩ := Option.bind_eq_some_iff.mp hrest
    refine loadWord_mod_of_at ((at_store_frame h₂ (Or.inl ?_)).mpr hword)
    rw [leBytes_length]

/-- Writing the header turns a memory with the right body into an image. -/
theorem updateDb_rows (env : Env) (hbody : At db 8 (encodeRows rs))
    (hb : 8 + (encodeRows rs).length < 2 ^ 32 - 1) :
    ∃ db', updateDb env (8 + (encodeRows rs).length) db = some db' ∧ RowImage env db' rs ∧
      loadWord db' 0 4 = some (8 + (encodeRows rs).length) ∧ db'.length = db.length ∧
      ∀ i, 8 ≤ i → db'[i]? = db[i]? := by
  obtain ⟨db', hdb', hbody', hword, hcrc, hlen, hkept⟩ := updateDb_body env hbody hb
  exact ⟨db', hdb', ⟨Or.inl hword, hbody', hb, fun _ => hcrc⟩, hword, hlen, hkept⟩

/-! ## Appending a row -/

/-- `db_write` looks at as many bytes of its data as it counts. -/
theorem dbWrite_congr {args args' : List UInt8} {datasize : Nat} {type : DbDataType}
    (h : load args 0 (byteCount type datasize) = load args' 0 (byteCount type datasize)) :
    dbWrite env tag args datasize type db = dbWrite env tag args' datasize type db := by
  simp only [dbWrite, h]

/-- The address that `db_write` appends to. -/
theorem writePointer_rows {size : Nat} (hb : 8 + (encodeRows rs).length < 2 ^ 32 - 1)
    (hs : size = 8 + (encodeRows rs).length ∨ rs = [] ∧ size = 0) :
    (if size ≤ 8 ∨ size = 0xFFFFFFFF then 8 else size) = 8 + (encodeRows rs).length := by
  rcases hs with rfl | ⟨rfl, rfl⟩
  · split <;> omega
  · rfl

/-- What is left of `db_write` once its tag is new: the tag is stored at the old end, the
type at its own address, the size and the data behind the type byte, then the header. -/
theorem dbWrite_fresh (h : RowImage env db rs) (hpass : ∀ x ∈ rs, x.Passable tag)
    {args data : List UInt8} {datasize : Nat} {type : DbDataType} {db₁ : Mem}
    (hload : load args 0 (byteCount type datasize) = some data)
    (hb : 8 + (encodeRows rs).length + tag.length + 4 + data.length < 2 ^ 32 - 1)
    (htag : store db (8 + (encodeRows rs).length) (tag ++ [0]) = some db₁) :
    dbWrite env tag args datasize type db =
      (storeWord db₁ (env.enumSize * (8 + (encodeRows rs).length + tag.length + 1))
        env.enumSize type.code).bind fun db₂ =>
      (store db₂ (8 + (encodeRows rs).length + tag.length + 2)
        (leBytes 2 data.length ++ data)).bind fun db₃ =>
      (updateDb env (8 + (encodeRows rs).length + tag.length + 4 + data.length) db₃).bind
        fun db₄ => some (.dbSuccess, db₄) := by
  obtain ⟨size, hsize, hs⟩ := dbGetSize_rows h
  have hfind := findData_misses h hpass
  have hcount : byteCount type datasize = data.length := (load_length hload).symm
  rw [hcount] at hload
  have hpointer := writePointer_rows (by omega) hs
  generalize 8 + (encodeRows rs).length = oldEnd at *
  have hnull : store db₁ (oldEnd + tag.length) [0] = some db₁ :=
    store_at_self (at_append.mp (at_of_store htag)).2
  have w₁ : wrap 32 (oldEnd + tag.length) = oldEnd + tag.length := wrap_of_lt (by omega)
  have w₂ : wrap 32 (oldEnd + tag.length + 1) = oldEnd + tag.length + 1 := wrap_of_lt (by omega)
  have w₃ : wrap 32 (oldEnd + tag.length + 1 + 1) = oldEnd + tag.length + 2 :=
    wrap_of_lt (by omega)
  have w₄ : wrap 32 (oldEnd + tag.length + 2 + 1) = oldEnd + tag.length + 2 + 1 :=
    wrap_of_lt (by omega)
  have w₅ : wrap 32 (oldEnd + tag.length + 2 + 1 + 1) = oldEnd + tag.length + 4 :=
    wrap_of_lt (by omega)
  have w₆ : wrap 32 (oldEnd + tag.length + 4 + data.length) =
      oldEnd + tag.length + 4 + data.length := wrap_of_lt (by omega)
  have hbytes (m : Mem) : store m (oldEnd + tag.length + 2) (leBytes 2 data.length ++ data) =
      (storeWord m (oldEnd + tag.length + 2) 1 data.length).bind fun m =>
        (storeWord m (oldEnd + tag.length + 2 + 1) 1 (data.length / 256)).bind fun m =>
          store m (oldEnd + tag.length + 4) data := by
    have hsplit : leBytes 2 data.length ++ data =
        leBytes 1 data.length ++ (leBytes 1 (data.length / 256) ++ data) := by
      simp [leBytes]
    simp only [hsplit, store_append, leBytes_length, storeWord]
  simp only [dbWrite, hsize, hfind, Option.bind_eq_bind, some_bind, ne_eq, not_true_eq_false,
    if_false, hpointer, htag, w₁, hnull, w₂, w₃, hcount, w₄, w₅, hload, w₆, hbytes,
    Option.bind_assoc]

/-- A write that ends has found room for the whole row. -/
theorem dbWrite_room {args data : List UInt8} {datasize : Nat} {type : DbDataType}
    {out : DbError × Mem} (h : RowImage env db rs) (hpass : ∀ x ∈ rs, x.Passable tag)
    (hload : load args 0 (byteCount type datasize) = some data)
    (hb : 8 + (encodeRows rs).length + tag.length + 4 + data.length < 2 ^ 32 - 1)
    (hwrite : dbWrite env tag args datasize type db = some out) :
    8 + (encodeRows rs).length + tag.length + 4 + data.length ≤ db.length := by
  obtain ⟨db₁, h₁⟩ : ∃ db₁, store db (8 + (encodeRows rs).length) (tag ++ [0]) = some db₁ := by
    have hfind := findData_misses h hpass
    obtain ⟨size, hsize, hs⟩ := dbGetSize_rows h
    simp only [dbWrite, hsize, hfind, Option.bind_eq_bind, some_bind, ne_eq, not_true_eq_false,
      if_false, writePointer_rows (by omega) hs] at hwrite
    obtain ⟨db₁, h₁, -⟩ := Option.bind_eq_some_iff.mp hwrite
    exact ⟨db₁, h₁⟩
  rw [dbWrite_fresh h hpass hload hb h₁] at hwrite
  obtain ⟨db₂, h₂, hwrite⟩ := Option.bind_eq_some_iff.mp hwrite
  obtain ⟨db₃, h₃, -⟩ := Option.bind_eq_some_iff.mp hwrite
  have hroom := store_bound h₃
  rw [List.length_append, leBytes_length, store_length h₂, store_length h₁] at hroom
  omega

/-- An overwrite that finds an entry deletes it and writes behind the others. -/
theorem dbOverwrite_of_found {args : List UInt8} {datasize found tags : Nat} {type : DbDataType}
    {res : DbError} {db₁ : Mem} (hfind : findData tag db = some (found, tags))
    (hne : found ≠ 0) (hdel : dbDelete env tag db = some (res, db₁)) :
    dbOverwrite env tag args datasize type db = dbWrite env tag args datasize type db₁ := by
  simp only [dbOverwrite, hfind, Option.bind_eq_bind, some_bind, ne_eq, if_pos hne, hdel,
    Option.map_some]

/-- The size that a successful write records, whatever the memory holds. -/
theorem dbWrite_size {args : List UInt8} {datasize size : Nat} {type : DbDataType} {db' : Mem}
    (hsize : dbGetSize db = some size) (h8 : 8 ≤ size) (hb : size < 2 ^ 32 - 1)
    (hwrite : dbWrite env tag args datasize type db = some (.dbSuccess, db')) :
    loadWord db' 0 4 = some (wrap 32 (size + tag.length + 4 + byteCount type datasize)) := by
  have hpointer : (if size ≤ 8 ∨ size = 0xFFFFFFFF then 8 else size) = size := by
    split <;> omega
  unfold dbWrite at hwrite
  simp only [hsize, Option.bind_eq_bind, some_bind, hpointer] at hwrite
  obtain ⟨⟨found, tags⟩, -, hwrite⟩ := Option.bind_eq_some_iff.mp hwrite
  dsimp only at hwrite
  split at hwrite
  · cases hwrite
  · obtain ⟨_, -, hwrite⟩ := Option.bind_eq_some_iff.mp hwrite
    obtain ⟨_, -, hwrite⟩ := Option.bind_eq_some_iff.mp hwrite
    obtain ⟨_, -, hwrite⟩ := Option.bind_eq_some_iff.mp hwrite
    obtain ⟨_, -, hwrite⟩ := Option.bind_eq_some_iff.mp hwrite
    obtain ⟨_, -, hwrite⟩ := Option.bind_eq_some_iff.mp hwrite
    obtain ⟨_, -, hwrite⟩ := Option.bind_eq_some_iff.mp hwrite
    obtain ⟨_, -, hwrite⟩ := Option.bind_eq_some_iff.mp hwrite
    obtain ⟨db₁, hupdate, hend⟩ := Option.bind_eq_some_iff.mp hwrite
    cases hend
    rw [updateDb_size hupdate]
    simp only [wrap]
    congr 1
    omega

end MyLibraries.SimpleDb
