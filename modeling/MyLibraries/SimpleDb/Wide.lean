import Mathlib.Data.List.Nodup
import MyLibraries.SimpleDb.Rows

/-!
# `simple_db` with a four-byte enum

`db_write` stores the type through an `enum db_data_type` pointer. Where the enum has four
bytes the store goes to four times the offset of the type byte, which for every entry lies
behind that byte: in the entry's own size or data, or beyond its end. `db_read` and
`db_get_type` load from the same address, so a type is lost only when something else is
written there, and the write stays in the entry only when it lands in it or changes
nothing. `dbWrite_wide_iff` says when both are the case.
-/

namespace MyLibraries.SimpleDb

open Memory

/-- An entry with the type that it has. The wide store leaves the type byte alone, so
nothing relates the two. -/
structure TypedRow extends Row where
  type : DbDataType
  deriving DecidableEq

def rowsOf (es : List TypedRow) : List Row := es.map TypedRow.toRow

/-- A well-formed image: every entry can be reached by its tag. -/
structure TypedImage (env : Env) (db : Mem) (es : List TypedRow) : Prop where
  rows : RowImage env db (rowsOf es)
  named : ∀ e ∈ es, e.tag.1 ≠ [] ∧ e.tag.1.length < 2 ^ 16
  distinct : (es.map fun e => e.tag).Nodup

/-- The recorded size before a write. -/
def oldEnd (es : List TypedRow) : Nat := 8 + (encodeRows (rowsOf es)).length

/-- The recorded size after it. -/
def newEnd (es : List TypedRow) (tag : CString) (data : List UInt8) : Nat :=
  oldEnd es + tag.1.length + 4 + data.length

/-- The memory with the tag, the size and the data of a new entry, but not its type. -/
def appended (es : List TypedRow) (tag : CString) (data : List UInt8) (db : Mem) : Mem :=
  fill (fill db (oldEnd es) (tag.1 ++ [0])) (oldEnd es + tag.1.length + 2)
    (leBytes 2 data.length ++ data)

/-- The offset of each type byte, with the type, of entries that start at `p`. -/
def typeFields : Nat → List TypedRow → List (Nat × DbDataType)
  | _, [] => []
  | p, e :: es => (p + e.tag.1.length + 1, e.type) :: typeFields (p + e.encode.length) es

/-- The entry is returned with this type and these bytes. -/
def ReadsBack (env : Env) (db : Mem) (tag : CString) (type : DbDataType) (data : List UInt8) :
    Prop :=
  dbGetType env tag.1 db = some type.code ∧
    dbRead env tag.1 db = some (elementCount type.code data.length, data)

variable {env : Env} {db db' : Mem} {es pre post : List TypedRow} {e : TypedRow} {tag : CString}
  {data : List UInt8} {type : DbDataType}

theorem rowsOf_append : rowsOf (pre ++ e :: post) = rowsOf pre ++ e.toRow :: rowsOf post := by
  simp [rowsOf]

theorem mem_typeFields {x : Nat × DbDataType} {p : Nat} : x ∈ typeFields p es ↔
    ∃ pre e post, es = pre ++ e :: post ∧
      x = (p + (encodeRows (rowsOf pre)).length + e.tag.1.length + 1, e.type) := by
  induction es generalizing p with
  | nil => simp [typeFields]
  | cons e es ih =>
    rw [typeFields, List.mem_cons, ih]
    constructor
    · rintro (rfl | ⟨pre, e', post, rfl, rfl⟩)
      · exact ⟨[], e, es, rfl, by simp [rowsOf]⟩
      · refine ⟨e :: pre, e', post, rfl, ?_⟩
        simp only [rowsOf, List.map_cons, encodeRows_cons, List.length_append, Nat.add_assoc]
    · rintro ⟨pre, e', post, hes, rfl⟩
      cases pre with
      | nil =>
        obtain ⟨rfl, rfl⟩ := List.cons.inj hes
        exact Or.inl (by simp [rowsOf])
      | cons e₀ pre =>
        obtain ⟨rfl, rfl⟩ := List.cons.inj hes
        refine Or.inr ⟨pre, e', post, rfl, ?_⟩
        simp only [rowsOf, List.map_cons, encodeRows_cons, List.length_append, Nat.add_assoc]

/-! ## Reading -/

/-- An entry reads back exactly when the word at its address is its type. -/
theorem readsBack_iff {rs rest : List Row} {r : Row} (h : RowImage env db (rs ++ r :: rest))
    (hpass : ∀ x ∈ rs, x.Passable r.tag.1) :
    ReadsBack env db r.tag type r.data ↔
      loadWord db (env.enumSize * typeOffset rs r.tag) env.enumSize = some type.code := by
  rw [ReadsBack, dbGetType_row h hpass, dbRead_row h hpass]
  refine ⟨And.left, fun hword => ⟨hword, ?_⟩⟩
  rw [hword, Option.map_some]

/-- The entries before `e` do not stop the walk for it. -/
theorem TypedImage.passable (h : TypedImage env db (pre ++ e :: post)) :
    ∀ x ∈ rowsOf pre, x.Passable e.tag.1 := by
  intro x hx
  obtain ⟨y, hy, rfl⟩ := List.mem_map.mp hx
  have hnamed := h.named y (List.mem_append_left _ hy)
  have hdistinct := h.distinct
  rw [List.map_append, List.nodup_append] at hdistinct
  have hne : y.tag ≠ e.tag :=
    hdistinct.2.2 _ (List.mem_map_of_mem hy) _ (List.mem_map_of_mem List.mem_cons_self)
  exact ⟨fun heq => hne (Subtype.ext heq), hnamed⟩

/-- No entry stops the walk for a new tag. -/
theorem TypedImage.passable_fresh (h : TypedImage env db es) (hfresh : ∀ e ∈ es, e.tag ≠ tag) :
    ∀ x ∈ rowsOf es, x.Passable tag.1 := by
  intro x hx
  obtain ⟨y, hy, rfl⟩ := List.mem_map.mp hx
  exact ⟨fun heq => hfresh y hy (Subtype.ext heq), h.named y hy⟩

/-! ## The bytes of the new entry -/

theorem appended_length : (appended es tag data db).length = db.length := by
  rw [appended, fill_length, fill_length]

/-- The new entry without its type is two stores. -/
theorem appended_stores (hroom : newEnd es tag data ≤ db.length) {db₁ : Mem}
    (h₁ : store db (oldEnd es) (tag.1 ++ [0]) = some db₁) :
    store db₁ (oldEnd es + tag.1.length + 2) (leBytes 2 data.length ++ data) =
      some (appended es tag data db) := by
  have hlen₁ := store_length h₁
  simp only [newEnd] at hroom
  have hfill := store_eq_fill db (oldEnd es) (tag.1 ++ [0])
    (by rw [List.length_append, List.length_singleton]; omega)
  rw [h₁, Option.some.injEq] at hfill
  rw [appended, ← hfill]
  exact store_eq_fill _ _ _ (by rw [List.length_append, leBytes_length]; omega)

theorem appended_outside {i : Nat} (hroom : newEnd es tag data ≤ db.length)
    (hout : i < oldEnd es ∨ newEnd es tag data ≤ i) :
    (appended es tag data db)[i]? = db[i]? := by
  have hnew : newEnd es tag data = oldEnd es + tag.1.length + 4 + data.length := rfl
  obtain ⟨db₁, h₁⟩ := store_exists db (oldEnd es) (tag.1 ++ [0])
    (by rw [List.length_append, List.length_singleton]; omega)
  rw [store_getElem? (appended_stores hroom h₁), if_neg, store_getElem? h₁, if_neg]
  · rw [List.length_append, List.length_singleton]
    omega
  · rw [List.length_append, leBytes_length]
    omega

/-- Where nothing but the appended bytes changed, everything reads back exactly when the
type words are right. -/
theorem readsBack_appended (henv : env.enumSize = 4) (h : TypedImage env db es)
    (hfresh : ∀ e ∈ es, e.tag ≠ tag) {slot : UInt8} {hdata : data.length < 2 ^ 16}
    (himage : RowImage env db' (rowsOf es ++ [⟨tag, slot, data, hdata⟩]))
    (hlen : db'.length = db.length)
    (hsame : ∀ i, 8 ≤ i → db'[i]? = (appended es tag data db)[i]?) :
    ((∀ e ∈ es, ReadsBack env db' e.tag e.type e.data) ∧ ReadsBack env db' tag type data) ↔
      ∀ x ∈ typeFields 8 es ++ [(oldEnd es + tag.1.length + 1, type)],
        loadWord (appended es tag data db) (4 * x.1) 4 = some x.2.code := by
  have hcongr (q : Nat) (hq : 8 ≤ q) :
      loadWord db' q 4 = loadWord (appended es tag data db) q 4 :=
    loadWord_congr (by rw [hlen, appended_length]) fun i hi _ => hsame i (by omega)
  have hnew : ReadsBack env db' tag type data ↔
      loadWord (appended es tag data db) (4 * (oldEnd es + tag.1.length + 1)) 4 =
        some type.code := by
    rw [readsBack_iff himage (h.passable_fresh hfresh), henv, typeOffset, hcongr _ (by omega),
      oldEnd]
  have hentry (pre : List TypedRow) (e : TypedRow) (post : List TypedRow)
      (hes : es = pre ++ e :: post) : ReadsBack env db' e.tag e.type e.data ↔
        loadWord (appended es tag data db)
          (4 * (8 + (encodeRows (rowsOf pre)).length + e.tag.1.length + 1)) 4 =
            some e.type.code := by
    have himage' : RowImage env db' (rowsOf pre ++ e.toRow ::
        (rowsOf post ++ [⟨tag, slot, data, hdata⟩])) := by
      simpa [hes, rowsOf_append] using himage
    rw [readsBack_iff himage' (hes ▸ h).passable, henv, typeOffset, hcongr _ (by omega)]
  have hold : (∀ e ∈ es, ReadsBack env db' e.tag e.type e.data) ↔
      ∀ x ∈ typeFields 8 es,
        loadWord (appended es tag data db) (4 * x.1) 4 = some x.2.code := by
    constructor
    · intro hall x hx
      obtain ⟨pre, e, post, hes, rfl⟩ := mem_typeFields.mp hx
      exact (hentry pre e post hes).mp (hall e (by simp [hes]))
    · intro hall e he
      obtain ⟨pre, post, hes⟩ := List.append_of_mem he
      exact (hentry pre e post hes).mpr (hall _ (mem_typeFields.mpr ⟨pre, e, post, hes, rfl⟩))
  simp only [hold, hnew, List.mem_append, List.mem_singleton, or_imp, forall_and, forall_eq]

/-! ## Writing -/

section Write

variable (henv : env.enumSize = 4) (h : TypedImage env db es)
  (hfresh : ∀ e ∈ es, e.tag ≠ tag) (htype : type = .dbText ∨ type = .db8b)
  (hb : newEnd es tag data < 2 ^ 32 - 1)
include henv h hfresh htype hb

/-- The stores of `db_write`, the header left to do. -/
theorem dbWrite_wide_eq {db₁ : Mem} (h₁ : store db (oldEnd es) (tag.1 ++ [0]) = some db₁) :
    dbWrite env tag.1 data data.length type db =
      (store db₁ (4 * (oldEnd es + tag.1.length + 1)) (leBytes 4 type.code)).bind fun db₂ =>
      (store db₂ (oldEnd es + tag.1.length + 2) (leBytes 2 data.length ++ data)).bind fun db₃ =>
      (updateDb env (newEnd es tag data) db₃).bind fun db₄ => some (.dbSuccess, db₄) := by
  have hcount : byteCount type data.length = data.length := by
    rcases htype with rfl | rfl <;> rfl
  rw [← henv]
  exact dbWrite_fresh h.rows (h.passable_fresh hfresh) (by rw [hcount, load_all]) hb h₁

variable (hroom : newEnd es tag data ≤ db.length)
include hroom

/-- The type word has to lie in the memory. -/
theorem dbWrite_wide_outside
    (hout : ¬4 * (oldEnd es + tag.1.length + 1) + 4 ≤ db.length) :
    dbWrite env tag.1 data data.length type db = none := by
  simp only [newEnd] at hroom
  obtain ⟨db₁, h₁⟩ := store_exists db (oldEnd es) (tag.1 ++ [0])
    (by rw [List.length_append, List.length_singleton]; omega)
  have h₂ : store db₁ (4 * (oldEnd es + tag.1.length + 1)) (leBytes 4 type.code) = none :=
    if_neg (by rw [leBytes_length, store_length h₁]; exact hout)
  rw [dbWrite_wide_eq henv h hfresh htype hb h₁, h₂, Option.bind_none]

variable (hdata : data.length < 2 ^ 16)
include hdata

omit henv hfresh htype hb hroom in
/-- The three stores keep the old rows and put the new one behind them. -/
theorem rows_of_stores {db₁ db₂ db₃ : Mem} {b : UInt8}
    (h₁ : store db (oldEnd es) (tag.1 ++ [0]) = some db₁)
    (h₂ : store db₁ (4 * (oldEnd es + tag.1.length + 1)) (leBytes 4 type.code) = some db₂)
    (h₃ : store db₂ (oldEnd es + tag.1.length + 2) (leBytes 2 data.length ++ data) = some db₃)
    (hslot : load db (oldEnd es + tag.1.length + 1) 1 = some [b]) :
    At db₃ 8 (encodeRows (rowsOf es ++ [⟨tag, b, data, hdata⟩])) := by
  have hold : oldEnd es = 8 + (encodeRows (rowsOf es)).length := rfl
  have hbytes : (leBytes 2 data.length ++ data).length = 2 + data.length := by
    rw [List.length_append, leBytes_length]
  have htag : (tag.1 ++ [0]).length = tag.1.length + 1 := by simp
  have hcode : (leBytes 4 type.code).length = 4 := leBytes_length _ _
  rw [encodeRows_append, at_append, encodeRows_cons, encodeRows_nil, List.append_nil, ← hold]
  refine ⟨?_, ?_⟩
  · rw [at_store_frame h₃ (by omega), at_store_frame h₂ (by omega),
      at_store_frame h₁ (by omega)]
    exact h.rows.body
  · rw [Row.encode, List.append_assoc _ (leBytes 2 _), at_append, at_append]
    simp only [List.length_append, List.length_singleton]
    refine ⟨⟨?_, ?_⟩, at_of_store h₃⟩
    · rw [at_store_frame h₃ (by omega), at_store_frame h₂ (by omega)]
      exact at_of_store h₁
    · have hone : [b].length = 1 := rfl
      rw [← Nat.add_assoc, at_store_frame h₃ (by omega), at_store_frame h₂ (by omega),
        at_store_frame h₁ (by omega)]
      exact at_of_load hslot

/-- What `db_write` leaves: the new row, with whatever its type byte was before, and the
type word where the entry does not cover it. -/
theorem dbWrite_wide (hin : 4 * (oldEnd es + tag.1.length + 1) + 4 ≤ db.length) :
    ∃ slot db', dbWrite env tag.1 data data.length type db = some (.dbSuccess, db') ∧
      RowImage env db' (rowsOf es ++ [⟨tag, slot, data, hdata⟩]) ∧
      loadWord db' 0 4 = some (newEnd es tag data) ∧ db'.length = db.length ∧
      ∀ i, 8 ≤ i → db'[i]? =
        if newEnd es tag data ≤ i ∧ 4 * (oldEnd es + tag.1.length + 1) ≤ i ∧
            i < 4 * (oldEnd es + tag.1.length + 1) + 4 then
          (leBytes 4 type.code)[i - 4 * (oldEnd es + tag.1.length + 1)]?
        else (appended es tag data db)[i]? := by
  have hold : oldEnd es = 8 + (encodeRows (rowsOf es)).length := rfl
  have hnew : newEnd es tag data = oldEnd es + tag.1.length + 4 + data.length := rfl
  have hbytes : (leBytes 2 data.length ++ data).length = 2 + data.length := by
    rw [List.length_append, leBytes_length]
  have htag : (tag.1 ++ [0]).length = tag.1.length + 1 := by simp
  obtain ⟨slot, hslot⟩ := load_exists (m := db) (p := oldEnd es + tag.1.length + 1) (n := 1)
    (by omega)
  obtain ⟨b, rfl⟩ := List.length_eq_one_iff.mp (load_length hslot)
  obtain ⟨db₁, h₁⟩ := store_exists db (oldEnd es) (tag.1 ++ [0]) (by omega)
  have hlen₁ := store_length h₁
  obtain ⟨db₂, h₂⟩ := store_exists db₁ (4 * (oldEnd es + tag.1.length + 1))
    (leBytes 4 type.code) (by rw [leBytes_length]; omega)
  have hlen₂ := store_length h₂
  obtain ⟨db₃, h₃⟩ := store_exists db₂ (oldEnd es + tag.1.length + 2)
    (leBytes 2 data.length ++ data) (by omega)
  have hlen₃ := store_length h₃
  have hbody := rows_of_stores h hdata h₁ h₂ h₃ hslot
  have hsize : newEnd es tag data =
      8 + (encodeRows (rowsOf es ++ [⟨tag, b, data, hdata⟩])).length := by
    simp only [encodeRows_append, encodeRows_cons, encodeRows_nil, List.append_nil,
      List.length_append, Row.encode_length]
    omega
  obtain ⟨db', hdb', himage, hword, hlen', hkept⟩ := updateDb_rows env hbody (by omega)
  rw [← hsize] at hdb' hword
  refine ⟨b, db', ?_, himage, hword, by omega, fun i hi => ?_⟩
  · rw [dbWrite_wide_eq henv h hfresh htype hb h₁, h₂, some_bind, h₃, some_bind,
      hdb', some_bind]
  · rw [hkept i hi, store_getElem? h₃, store_getElem? h₂,
      store_getElem? (appended_stores hroom h₁), hbytes, leBytes_length]
    by_cases hbytes : oldEnd es + tag.1.length + 2 ≤ i ∧
        i < oldEnd es + tag.1.length + 2 + (2 + data.length)
    · have hinside : ¬newEnd es tag data ≤ i := by omega
      rw [if_pos hbytes, if_pos hbytes, if_neg fun hc => hinside hc.1]
    · rw [if_neg hbytes, if_neg hbytes]
      exact if_congr (by omega) rfl rfl

/-- With a four-byte enum `db_write` keeps to the new entry and leaves every entry
readable exactly when the type words are right already: at four times the offset of each
type byte, the memory with the tag, size and data of the new entry holds the type. -/
theorem dbWrite_wide_iff :
    (∃ db', dbWrite env tag.1 data data.length type db = some (.dbSuccess, db') ∧
      loadWord db' 0 4 = some (newEnd es tag data) ∧
      (∀ i, 8 ≤ i → i < oldEnd es ∨ newEnd es tag data ≤ i → db'[i]? = db[i]?) ∧
      (∀ e ∈ es, ReadsBack env db' e.tag e.type e.data) ∧ ReadsBack env db' tag type data) ↔
    ∀ x ∈ typeFields 8 es ++ [(oldEnd es + tag.1.length + 1, type)],
      loadWord (appended es tag data db) (4 * x.1) 4 = some x.2.code := by
  by_cases hin : 4 * (oldEnd es + tag.1.length + 1) + 4 ≤ db.length
  · obtain ⟨slot, db', hwrite, himage, hword, hlen, hget⟩ :=
      dbWrite_wide henv h hfresh htype hb hroom hdata hin
    have hreads (hsame : ∀ i, 8 ≤ i → db'[i]? = (appended es tag data db)[i]?) :
        ((∀ e ∈ es, ReadsBack env db' e.tag e.type e.data) ∧ ReadsBack env db' tag type data) ↔
          ∀ x ∈ typeFields 8 es ++ [(oldEnd es + tag.1.length + 1, type)],
            loadWord (appended es tag data db) (4 * x.1) 4 = some x.2.code :=
      readsBack_appended henv h hfresh himage hlen hsame
    constructor
    · rintro ⟨db₂, hwrite₂, -, hframe, hback⟩
      obtain rfl : db' = db₂ := by simpa [hwrite] using hwrite₂
      refine (hreads fun i hi => ?_).mp hback
      by_cases hbehind : newEnd es tag data ≤ i
      · rw [hframe i hi (Or.inr hbehind), appended_outside hroom (Or.inr hbehind)]
      · rw [hget i hi, if_neg fun hc => hbehind hc.1]
    · intro hall
      have hown : At (appended es tag data db) (4 * (oldEnd es + tag.1.length + 1))
          (leBytes 4 type.code) :=
        at_of_loadWord (hall (oldEnd es + tag.1.length + 1, type) (by simp))
      have hsame : ∀ i, 8 ≤ i → db'[i]? = (appended es tag data db)[i]? := by
        intro i hi
        rw [hget i hi]
        split
        · rename_i hc
          have hbyte := (at_iff.mp hown).2 (i - 4 * (oldEnd es + tag.1.length + 1))
            (by rw [leBytes_length]; omega)
          rw [← hbyte]
          congr 1
          omega
        · rfl
      refine ⟨db', hwrite, hword, fun i hi hout => ?_, (hreads hsame).mpr hall⟩
      rw [hsame i hi, appended_outside hroom hout]
  · rw [dbWrite_wide_outside henv h hfresh htype hb hroom hin]
    simp only [reduceCtorEq, false_and, exists_false, false_iff]
    intro hall
    have hbound := loadWord_bound (hall (oldEnd es + tag.1.length + 1, type) (by simp))
    rw [appended_length] at hbound
    exact hin hbound

end Write

/-- A byte in a memory that has the right words at 40 and 64 for it and for a text
behind it. -/
theorem dbWrite_wide_in_place :
    let db : Mem := leBytes 4 14 ++ List.replicate 4 0 ++ [0x61, 0, 0, 1, 0, 7] ++
      List.replicate 26 0 ++ leBytes 4 1 ++ List.replicate 28 0
    let es : List TypedRow := [⟨⟨⟨[0x61], by decide⟩, 0, [7], by decide⟩, .db8b⟩]
    let tag : CString := ⟨[0x62], by decide⟩
    ∃ db', dbWrite ⟨4, none⟩ tag.1 [9] [9].length .dbText db = some (.dbSuccess, db') ∧
      loadWord db' 0 4 = some (newEnd es tag [9]) ∧
      (∀ i, 8 ≤ i → i < oldEnd es ∨ newEnd es tag [9] ≤ i → db'[i]? = db[i]?) ∧
      (∀ e ∈ es, ReadsBack ⟨4, none⟩ db' e.tag e.type e.data) ∧
      ReadsBack ⟨4, none⟩ db' tag .dbText [9] := by
  intro db es tag
  have himage : TypedImage ⟨4, none⟩ db es := by
    refine ⟨⟨Or.inl (by decide), by decide, by decide, ?_⟩, by decide, by decide⟩
    rintro - crc hc
    cases hc
  have hwords : ∀ x ∈ typeFields 8 es ++ [(oldEnd es + tag.1.length + 1, .dbText)],
      loadWord (appended es tag [9] db) (4 * x.1) 4 = some x.2.code := by decide
  have hroom : newEnd es tag [9] ≤ db.length := by decide
  exact (dbWrite_wide_iff rfl himage (by decide) (Or.inl rfl) (by decide) hroom
    (by decide)).mpr hwords

/-- Writing a byte into 64 zero bytes: the type goes to byte 40, behind the entry. -/
theorem type_word_behind_entry :
    let db : Mem := List.replicate 64 0
    TypedImage ⟨4, none⟩ db [] ∧ newEnd [] ⟨[0x61], by decide⟩ [7] = 14 ∧
      ¬∃ db', dbWrite ⟨4, none⟩ [0x61] [7] 1 .db8b db = some (.dbSuccess, db') ∧
        ∀ i, 8 ≤ i → i < oldEnd [] ∨ 14 ≤ i → db'[i]? = db[i]? := by
  intro db
  refine ⟨⟨⟨Or.inr ⟨rfl, Or.inl (by decide)⟩, by decide, by decide, ?_⟩, by decide, by decide⟩,
    by decide, ?_⟩
  · rintro - crc hc
    cases hc
  · rintro ⟨db', hwrite, hframe⟩
    have hbyte : (dbWrite ⟨4, none⟩ [0x61] [7] 1 .db8b db).bind (fun r => r.2[40]?) = some 1 := by
      decide +kernel
    rw [hwrite, some_bind, hframe 40 (by decide) (Or.inr (by decide))] at hbyte
    exact absurd hbyte (by decide)

end MyLibraries.SimpleDb
