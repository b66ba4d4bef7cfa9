import MyLibraries.SimpleDb.Records

/-!
# Entries with elements of several bytes

`db_write` counts the bytes of an entry in 16 bits, and `db_delete` takes the element count
that `db_get_entry_size` returns for a size in bytes. The first loses data from 65536 bytes
on (`write_then_read_iff`), the second leaves a part of every entry behind whose elements
are wider than a byte (`rest_intact_iff`).
-/

namespace MyLibraries.SimpleDb

open Memory Run

/-- The memory holds these rows and nothing else, and each of the kept requests reads back
with its type, its element count and its bytes. -/
structure Leaves (env : Env) (db : Mem) (rows : List Row) (kept : List Request) : Prop where
  size : loadWord db 0 4 = some (rowsEnd rows)
  body : At db 8 (encodeRows rows)
  reads : ∀ x ∈ kept, dbGetType env x.tag.1 db = some x.type.code ∧
    dbRead env x.tag.1 db = some (x.datasize, x.data)

/-- A well-formed database: its tags are distinct and the walk can pass over every row. -/
structure WellFormed (env : Env) (db : Mem) (rs : List Row) : Prop where
  image : RowImage env db rs
  plain : ∀ r ∈ rs, r.Plain
  distinct : (rs.map Row.tag).Nodup

variable {env : Env} {db db' : Mem} {qs pre post kept : List Request} {q new : Request}
  {rs rpre rpost : List Row} {r : Row} {tag : CString}

/-! ## The rows of requests -/

/-- The rows before the one of a tag are passable for it. -/
theorem passable_of_distinct (rpost : List Row) (hplain : ∀ x ∈ rpre, x.Plain)
    (hdistinct : ((rpre ++ r :: rpost).map Row.tag).Nodup) : ∀ x ∈ rpre, x.Passable r.tag.1 := by
  intro x hx
  rw [List.map_append, List.nodup_append] at hdistinct
  have hne : x.tag ≠ r.tag :=
    hdistinct.2.2 _ (List.mem_map_of_mem hx) _ (List.mem_map_of_mem List.mem_cons_self)
  exact ⟨fun heq => hne (Subtype.ext heq), hplain x hx⟩

theorem passable_of_fresh (hplain : ∀ x ∈ rs, x.Plain) (hfresh : ∀ x ∈ rs, x.tag ≠ tag) :
    ∀ x ∈ rs, x.Passable tag.1 :=
  fun x hx => ⟨fun heq => hfresh x hx (Subtype.ext heq), hplain x hx⟩

theorem map_row_tag (qs : List Request) : (qs.map Request.row).map Row.tag =
    qs.map Request.tag := by
  rw [List.map_map]
  rfl

theorem Request.plain (hnamed : q.tag.1 ≠ [])
    (hsize : q.tag.1.length + q.data.length + 4 < 65536) : q.row.Plain :=
  ⟨hnamed, show q.tag.1.length < 65536 by omega⟩

/-- An entry is removed as a whole when its elements are bytes, or there are none. -/
theorem Request.whole_iff (hsize : q.tag.1.length + q.data.length + 4 < 65536) :
    q.row.removed = q.row.encode.length ↔ q.type.elementSize = 1 ∨ q.datasize = 0 := by
  have hdata : q.row.data = q.data := Request.row_data (by omega)
  have hlen : q.row.encode.length = q.tag.1.length + q.row.data.length + 4 :=
    q.row.encode_length
  rw [hdata] at hlen
  rw [Row.removed_eq_iff (by omega), hdata, q.count, q.data_length]
  cases q.type <;> simp [DbDataType.elementSize] <;> omega

theorem Leaves.of_image (henv : env.enumSize = 1) (h : RowImage env db (qs.map Request.row))
    (hword : loadWord db 0 4 = some (rowsEnd (qs.map Request.row)))
    (hplain : ∀ x ∈ qs, x.row.Plain) (hdistinct : (qs.map Request.tag).Nodup)
    (hkept : ∀ x ∈ kept, x ∈ qs ∧ x.data.length < 2 ^ 16) :
    Leaves env db (qs.map Request.row) kept := by
  refine ⟨hword, h.body, fun x hx => ?_⟩
  obtain ⟨hmem, hsize⟩ := hkept x hx
  obtain ⟨pre, post, rfl⟩ := List.append_of_mem hmem
  rw [List.map_append, List.map_cons] at h
  have hpass : ∀ y ∈ pre.map Request.row, y.Passable x.row.tag.1 := by
    refine passable_of_distinct (post.map Request.row) ?_ ?_
    · intro y hy
      obtain ⟨z, hz, rfl⟩ := List.mem_map.mp hy
      exact hplain z (List.mem_append_left _ hz)
    · rw [← List.map_cons, ← List.map_append, map_row_tag]
      exact hdistinct
  have htype := dbGetType_slot henv h hpass
  have hread := dbRead_slot henv h hpass
  rw [Request.row_data hsize, x.count] at hread
  rw [x.row_type] at htype
  exact ⟨htype, hread⟩

/-! ## Deleting and overwriting -/

section Delete

variable (henv : env.enumSize = 1)
  (h : RowImage env db ((pre ++ q :: post).map Request.row))
  (hnamed : ∀ x ∈ pre ++ q :: post, x.tag.1 ≠ [])
  (hdistinct : ((pre ++ q :: post).map Request.tag).Nodup)
  (hsizes : ∀ x ∈ pre ++ q :: post, x.tag.1.length + x.data.length + 4 < 65536)

theorem rows_of_split (h : RowImage env db ((pre ++ q :: post).map Request.row)) :
    RowImage env db (pre.map Request.row ++ q.row :: post.map Request.row) := by
  simpa using h

include hnamed hdistinct hsizes in
theorem passable_before : ∀ y ∈ pre.map Request.row, y.Passable q.row.tag.1 := by
  refine passable_of_distinct (post.map Request.row) ?_ ?_
  · intro y hy
    obtain ⟨x, hx, rfl⟩ := List.mem_map.mp hy
    have hmem : x ∈ pre ++ q :: post := List.mem_append_left _ hx
    exact Request.plain (hnamed x hmem) (hsizes x hmem)
  · rw [← List.map_cons, ← List.map_append, map_row_tag]
    exact hdistinct

theorem rest_sublist (q : Request) : List.Sublist (pre ++ post) (pre ++ q :: post) :=
  List.Sublist.append_left (List.sublist_cons_self _ _) _

include henv h hnamed hdistinct hsizes

theorem delete_request_iff :
    (∃ db', dbDelete env q.tag.1 db = some (.dbSuccess, db') ∧
      Leaves env db' ((pre ++ post).map Request.row) (pre ++ post)) ↔
    q.type.elementSize = 1 ∨ q.datasize = 0 := by
  have hpass := passable_before hnamed hdistinct hsizes
  have himage := rows_of_split h
  have hle := q.row.removed_le
  rw [← Request.whole_iff (hsizes q (by simp))]
  constructor
  · rintro ⟨db', hdel, hleaves⟩
    obtain ⟨db₁, hdel₁, -, hword, -⟩ := dbDelete_row henv himage hpass rfl
    obtain rfl : db₁ = db' := by
      rw [Request.row_tag, hdel] at hdel₁
      simpa using hdel₁.symm
    have hsize := hleaves.size
    rw [hword] at hsize
    simp only [rowsEnd, Option.some.injEq, List.map_append, encodeRows_append,
      List.length_append, List.length_drop] at hsize
    omega
  · intro hwhole
    obtain ⟨db', hdel, himage', hword, -⟩ := dbDelete_whole henv himage hpass hwhole
    rw [← List.map_append] at himage' hword
    refine ⟨db', hdel, Leaves.of_image henv himage' hword ?_ ?_ ?_⟩
    · intro x hx
      have hmem := (rest_sublist q).subset hx
      exact Request.plain (hnamed x hmem) (hsizes x hmem)
    · exact hdistinct.sublist ((rest_sublist q).map _)
    · intro x hx
      have hsize := hsizes x ((rest_sublist q).subset hx)
      exact ⟨hx, by omega⟩

/-- What an overwrite leaves tells that the old entry was removed as a whole: the size that
the write records has the bytes that the delete took out. -/
theorem removed_of_overwritten (hnew : new.tag = q.tag)
    (hover : dbOverwrite env q.tag.1 new.data new.datasize new.type db =
      some (.dbSuccess, db'))
    (hleaves : Leaves env db' ((pre ++ post ++ [new]).map Request.row) kept) :
    q.row.removed = q.row.encode.length := by
  have hpass := passable_before hnamed hdistinct hsizes
  have himage := rows_of_split h
  have hle := q.row.removed_le
  have hbound := himage.bound
  have hfind := findData_reaches himage hpass
  obtain ⟨db₁, hdel, -, hword, -⟩ := dbDelete_row henv himage hpass rfl
  rw [Request.row_tag] at hfind hdel
  rw [dbOverwrite_of_found hfind (by omega) hdel] at hover
  generalize hbody : encodeRows (pre.map Request.row) ++
    (q.row.encode ++ encodeRows (post.map Request.row)).drop q.row.removed = body at hword
  have hlen : body.length + q.row.removed =
      (encodeRows (pre.map Request.row ++ q.row :: post.map Request.row)).length := by
    rw [← hbody]
    simp only [encodeRows_append, encodeRows_cons, List.length_append, List.length_drop]
    omega
  have hsize₁ : dbGetSize db₁ = some (8 + body.length) := by
    simp only [dbGetSize, hword, Option.bind_eq_bind, some_bind]
    rw [if_neg (by omega)]
  have hsize := dbWrite_size hsize₁ (by omega) (by omega) hover
  have hdata : new.row.data.length = byteCount new.type new.datasize :=
    load_length new.load_data
  have hq : q.row.encode.length < 2 ^ 17 := by
    have hlt := q.row.data_lt
    have hsizeq := hsizes q (by simp)
    rw [q.row.encode_length, Request.row_tag]
    omega
  have hnewlen : new.row.encode.length = q.tag.1.length + new.row.data.length + 4 :=
    hnew ▸ new.row.encode_length
  rw [hleaves.size] at hsize
  simp only [rowsEnd, Option.some.injEq, List.map_append, List.map_cons, List.map_nil,
    encodeRows_append, encodeRows_cons, encodeRows_nil, List.append_nil, List.length_append,
    wrap] at hsize hlen
  omega

omit henv h hnamed hsizes in
/-- The tags are distinct when an entry is replaced by one of its tag. -/
theorem distinct_replaced (hnew : new.tag = q.tag) :
    ((pre ++ post ++ [new]).map Request.tag).Nodup := by
  have hperm : ((pre ++ post ++ [new]).map Request.tag).Perm
      ((pre ++ q :: post).map Request.tag) := by
    simp only [List.map_append, List.map_cons, List.map_nil, hnew]
    exact (List.perm_append_singleton _ _).trans List.perm_middle.symm
  exact hperm.nodup_iff.mpr hdistinct

/-- An entry that is removed as a whole is replaced. -/
theorem overwritten_of_removed (hnew : new.tag = q.tag)
    (hcap : rowsEnd ((pre ++ post ++ [new]).map Request.row) ≤ db.length)
    (hb : rowsEnd ((pre ++ post ++ [new]).map Request.row) < 2 ^ 32 - 1)
    (hwhole : q.row.removed = q.row.encode.length) :
    ∃ db', dbOverwrite env q.tag.1 new.data new.datasize new.type db =
        some (.dbSuccess, db') ∧
      Leaves env db' ((pre ++ post ++ [new]).map Request.row) (pre ++ post) := by
  have hpass := passable_before hnamed hdistinct hsizes
  have himage := rows_of_split h
  have hbound := himage.bound
  have hfind := findData_reaches himage hpass
  have hrows : (pre ++ post ++ [new]).map Request.row =
      (pre ++ post).map Request.row ++ [new.row] := by
    simp
  obtain ⟨db₁, hdel, himage', -, hlen⟩ := dbDelete_whole henv himage hpass hwhole
  rw [← List.map_append] at himage'
  have hrest : ∀ x ∈ pre ++ post, x.row.Plain := by
    intro x hx
    have hmem := (rest_sublist q).subset hx
    exact Request.plain (hnamed x hmem) (hsizes x hmem)
  have hdistinct' := distinct_replaced hdistinct hnew
  have hfresh : ∀ x ∈ (pre ++ post).map Request.row, x.Passable new.row.tag.1 := by
    refine passable_of_distinct [] ?_ ?_
    · intro y hy
      obtain ⟨x, hx, rfl⟩ := List.mem_map.mp hy
      exact hrest x hx
    · rw [← hrows, map_row_tag]
      exact hdistinct'
  rw [hrows] at hcap hb
  obtain ⟨db', hwrite, himage₂, hword, -⟩ := dbWrite_append henv himage' hfresh rfl
    new.load_data (hlen.symm ▸ hcap) hb
  rw [← hrows] at himage₂ hword
  refine ⟨db', ?_, Leaves.of_image henv himage₂ hword ?_ hdistinct' ?_⟩
  · rw [Request.row_tag] at hfind hdel
    rw [Request.row_tag, hnew] at hwrite
    rw [dbOverwrite_of_found hfind (by omega) hdel]
    exact hwrite
  · intro x hx
    rcases List.mem_append.mp hx with hx | hx
    · exact hrest x hx
    · obtain rfl := List.mem_singleton.mp hx
      have htag : x.row.tag = q.row.tag := hnew
      rw [Row.Plain, htag]
      exact Request.plain (hnamed q (by simp)) (hsizes q (by simp))
  · intro x hx
    have hsize := hsizes x ((rest_sublist q).subset hx)
    exact ⟨List.mem_append_left _ hx, by omega⟩

theorem overwrite_request_iff (hnew : new.tag = q.tag)
    (hcap : rowsEnd ((pre ++ post ++ [new]).map Request.row) ≤ db.length)
    (hb : rowsEnd ((pre ++ post ++ [new]).map Request.row) < 2 ^ 32 - 1) :
    (∃ db', dbOverwrite env q.tag.1 new.data new.datasize new.type db =
        some (.dbSuccess, db') ∧
      Leaves env db' ((pre ++ post ++ [new]).map Request.row) (pre ++ post)) ↔
    q.type.elementSize = 1 ∨ q.datasize = 0 := by
  rw [← Request.whole_iff (hsizes q (by simp))]
  constructor
  · rintro ⟨db', hover, hleaves⟩
    exact removed_of_overwritten henv h hnamed hdistinct hsizes hnew hover hleaves
  · exact overwritten_of_removed henv h hnamed hdistinct hsizes hnew hcap hb

end Delete

/-- **Deleting and overwriting entries of any element size.** In every database that
`db_write` builds from a blank memory, `db_delete` and `db_overwrite` leave the rest of it
intact exactly when the elements of the entry are single bytes, or it has none. -/
theorem rest_intact_iff (env : Env) (henv : env.enumSize = 1) (db : Mem)
    (hblank : loadWord db 0 4 = some 0 ∨ loadWord db 0 4 = some 0xFFFFFFFF)
    (qs : List Request) (hnamed : ∀ x ∈ qs, x.tag.1 ≠ [])
    (hdistinct : (qs.map Request.tag).Nodup)
    (hsizes : ∀ x ∈ qs, x.tag.1.length + x.data.length + 4 < 65536)
    (hcap : rowsEnd (qs.map Request.row) ≤ db.length)
    (hb : rowsEnd (qs.map Request.row) < 2 ^ 32 - 1) :
    ∃ db', run (call env) db (qs.map .write) =
        some (List.replicate qs.length .dbSuccess, db') ∧
      ∀ pre q post, qs = pre ++ q :: post →
        ((∃ db₂, dbDelete env q.tag.1 db' = some (.dbSuccess, db₂) ∧
            Leaves env db₂ ((pre ++ post).map Request.row) (pre ++ post)) ↔
          q.type.elementSize = 1 ∨ q.datasize = 0) ∧
        ∀ new : Request, new.tag = q.tag →
          rowsEnd ((pre ++ post ++ [new]).map Request.row) ≤ db.length →
          rowsEnd ((pre ++ post ++ [new]).map Request.row) < 2 ^ 32 - 1 →
          ((∃ db₂, dbOverwrite env q.tag.1 new.data new.datasize new.type db' =
                some (.dbSuccess, db₂) ∧
              Leaves env db₂ ((pre ++ post ++ [new]).map Request.row) (pre ++ post)) ↔
            q.type.elementSize = 1 ∨ q.datasize = 0) := by
  obtain ⟨halong, hres, hentries⟩ := Records.exec_writes (t := Table.empty Row.tag) db.length
    (by simp [Table.empty])
    (fun q hq => Request.plain (hnamed q hq) (hsizes q hq)) (fun q _ => Table.lookup_empty)
    hdistinct (by simpa [Table.empty] using hcap) (by simpa [Table.empty] using hb)
  have h8 : 8 ≤ rowsEnd (qs.map Request.row) := Nat.le_add_right _ _
  obtain ⟨db', hrun, hholds⟩ := records_run henv hblank (by omega) halong
  have himage : RowImage env db' (qs.map Request.row) := by
    have := hholds.image
    rwa [records, hentries] at this
  refine ⟨db', by rw [hrun, hres], ?_⟩
  rintro pre q post rfl
  refine ⟨delete_request_iff henv himage hnamed hdistinct hsizes, fun new hnew hcap' hb' => ?_⟩
  exact overwrite_request_iff henv himage hnamed hdistinct hsizes hnew
    (hholds.length.symm ▸ hcap') hb'

/-- A text and two words, the text deleted. -/
theorem rest_intact_text :
    let text : Request := ⟨⟨[97], by decide⟩, .dbText, 2, [1, 2], by decide, by decide⟩
    let words : Request := ⟨⟨[98], by decide⟩, .db32b, 1, [3, 4, 5, 6], by decide, by decide⟩
    ∃ db', run (call ⟨1, none⟩) (List.replicate 32 0) [.write text, .write words] =
        some ([.dbSuccess, .dbSuccess], db') ∧
      ∃ db₂, dbDelete ⟨1, none⟩ text.tag.1 db' = some (.dbSuccess, db₂) ∧
        Leaves ⟨1, none⟩ db₂ [words.row] [words] := by
  intro text words
  obtain ⟨db', hrun, hrest⟩ := rest_intact_iff ⟨1, none⟩ rfl (List.replicate 32 0)
    (Or.inl (by decide)) [text, words] (by decide) (by decide) (by decide) (by decide)
    (by decide)
  exact ⟨db', hrun, (hrest [] text [words] rfl).1.mpr (Or.inl rfl)⟩

/-- A word and a byte behind it. Deleting the word leaves its last byte behind, and the byte
is not found again. -/
theorem word_deleted_short :
    let word : Request := ⟨⟨[97], by decide⟩, .db16b, 1, [1, 2], by decide, by decide⟩
    let byte : Request := ⟨⟨[98], by decide⟩, .db8b, 1, [7], by decide, by decide⟩
    let db : Mem := [21, 0, 0, 0, 0, 0, 0, 0, 97, 0, 2, 2, 0, 1, 2, 98, 0, 1, 1, 0, 7, 0, 0, 0]
    run (call ⟨1, none⟩) (List.replicate 24 0) [.write word, .write byte] =
        some ([.dbSuccess, .dbSuccess], db) ∧
      ¬∃ db₂, dbDelete ⟨1, none⟩ word.tag.1 db = some (.dbSuccess, db₂) ∧
        Leaves ⟨1, none⟩ db₂ [byte.row] [byte] := by
  intro word byte db
  refine ⟨by decide +kernel, ?_⟩
  rintro ⟨db₂, hdelete, hleaves⟩
  have hlost : (dbDelete ⟨1, none⟩ word.tag.1 db).bind (fun r => dbRead ⟨1, none⟩ [98] r.2) =
      some (0, []) := by
    decide +kernel
  rw [hdelete, some_bind, (hleaves.reads byte (by simp)).2] at hlost
  exact absurd hlost (by decide)

/-! ## Writing and reading -/

theorem WellFormed.passable_fresh (h : WellFormed env db rs) (hfresh : ∀ x ∈ rs, x.tag ≠ tag) :
    ∀ x ∈ rs, x.Passable tag.1 :=
  passable_of_fresh h.plain hfresh

/-- A tag of the database reads the same with other rows behind those that were there. -/
theorem dbRead_appended (henv : env.enumSize = 1) (h : WellFormed env db rs)
    (h' : RowImage env db' (rs ++ [r])) (hmem : tag ∈ rs.map Row.tag) :
    dbRead env tag.1 db' = dbRead env tag.1 db := by
  obtain ⟨x, hx, rfl⟩ := List.mem_map.mp hmem
  obtain ⟨rpre, rpost, rfl⟩ := List.append_of_mem hx
  have hpass : ∀ y ∈ rpre, y.Passable x.tag.1 :=
    passable_of_distinct rpost (fun y hy => h.plain y (List.mem_append_left _ hy)) h.distinct
  have himage : RowImage env db' (rpre ++ x :: (rpost ++ [r])) := by simpa using h'
  rw [dbRead_slot henv h.image hpass, dbRead_slot henv himage hpass]

/-- **Write, then read.** In a well-formed database a fresh entry reads back with its
element count and its bytes, and every other tag as before, exactly when its bytes can be
counted in 16 bits. -/
theorem write_then_read_iff (henv : env.enumSize = 1) (h : WellFormed env db rs)
    (q : Request) (hnamed : q.tag.1 ≠ []) (hfresh : ∀ x ∈ rs, x.tag ≠ q.tag)
    (hb : rowsEnd (rs ++ [q.row]) < 2 ^ 32 - 1)
    (hwrite : dbWrite env q.tag.1 q.data q.datasize q.type db = some (.dbSuccess, db')) :
    (dbRead env q.tag.1 db' = some (q.datasize, q.data) ∧
      ∀ tag : CString, tag ≠ q.tag → tag ∈ rs.map Row.tag ∨ q.tag.1.length < 2 ^ 16 →
        dbRead env tag.1 db' = dbRead env tag.1 db) ↔
    q.datasize * q.type.elementSize < 2 ^ 16 := by
  have hpass : ∀ x ∈ rs, x.Passable q.row.tag.1 := h.passable_fresh hfresh
  have hlen : (encodeRows (rs ++ [q.row])).length =
      (encodeRows rs).length + (q.tag.1.length + q.row.data.length + 4) := by
    rw [encodeRows_append, List.length_append, encodeRows_cons, encodeRows_nil,
      List.append_nil, q.row.encode_length, Request.row_tag]
  have hroom := dbWrite_room h.image hpass q.load_data
    (by rw [rowsEnd] at hb; rw [Request.row_tag]; omega) hwrite
  obtain ⟨db₁, hwrite₁, himage, -, -⟩ := dbWrite_append henv h.image hpass rfl q.load_data
    (by rw [Request.row_tag] at hroom; omega) hb
  obtain rfl : db₁ = db' := by
    rw [Request.row_tag, hwrite] at hwrite₁
    simpa using hwrite₁.symm
  have hread := dbRead_slot henv himage hpass
  rw [Request.row_tag] at hread
  constructor
  · rintro ⟨hback, -⟩
    rw [hread, Option.some.injEq, Prod.mk.injEq] at hback
    have hlt := q.row.data_lt
    rwa [hback.2, q.data_length] at hlt
  · intro hsize
    rw [← q.data_length] at hsize
    rw [Request.row_data hsize, q.count] at hread
    refine ⟨hread, fun tag hne hother => ?_⟩
    by_cases hmem : tag ∈ rs.map Row.tag
    · exact dbRead_appended henv h himage hmem
    · have habsent : ∀ x ∈ rs, x.tag ≠ tag :=
        fun x hx heq => hmem (heq ▸ List.mem_map_of_mem hx)
      have hplain : ∀ x ∈ rs ++ [q.row], x.Passable tag.1 := by
        intro x hx
        rcases List.mem_append.mp hx with hx | hx
        · exact h.passable_fresh habsent x hx
        · obtain rfl := List.mem_singleton.mp hx
          exact ⟨fun heq => hne (Subtype.ext heq.symm), hnamed, hother.resolve_left hmem⟩
      rw [dbRead_missed himage hplain, dbRead_missed h.image (h.passable_fresh habsent)]

/-- A word written into a blank memory. -/
theorem write_then_read_word :
    let db : Mem := List.replicate 16 0
    let word : Request := ⟨⟨[97], by decide⟩, .db16b, 1, [1, 2], by decide, by decide⟩
    ∃ db', dbWrite ⟨1, none⟩ word.tag.1 word.data word.datasize word.type db =
        some (.dbSuccess, db') ∧
      dbRead ⟨1, none⟩ word.tag.1 db' = some (1, [1, 2]) := by
  intro db word
  have hblank : WellFormed ⟨1, none⟩ db [] := by
    refine ⟨⟨Or.inr ⟨rfl, Or.inl (by decide)⟩, by decide, by decide, ?_⟩, by simp, by decide⟩
    rintro - crc hc
    cases hc
  have hwrite : dbWrite ⟨1, none⟩ word.tag.1 word.data word.datasize word.type db =
      some (.dbSuccess, [15, 0, 0, 0, 0, 0, 0, 0, 97, 0, 2, 2, 0, 1, 2, 0]) := by
    decide +kernel
  exact ⟨_, hwrite, ((write_then_read_iff rfl hblank word (by decide) (by decide) (by decide)
    hwrite).mpr (by decide)).1⟩

/-- 32768 words: the byte count is 0, and nothing reads back. -/
theorem words_lost :
    let words : Request :=
      ⟨⟨[97], by decide⟩, .db16b, 32768, List.replicate 65536 7, by decide,
        List.length_replicate.trans (by decide)⟩
    ∃ db', dbWrite ⟨1, none⟩ words.tag.1 words.data words.datasize words.type
        (List.replicate 16 0) = some (.dbSuccess, db') ∧
      dbRead ⟨1, none⟩ words.tag.1 db' = some (0, []) ∧
      ¬dbRead ⟨1, none⟩ words.tag.1 db' = some (words.datasize, words.data) := by
  intro words
  have hread : dbRead ⟨1, none⟩ words.tag.1 [13, 0, 0, 0, 0, 0, 0, 0, 97, 0, 2, 0, 0, 0, 0, 0] =
      some (0, []) := by
    decide +kernel
  refine ⟨_, ?_, hread, ?_⟩
  · -- no byte of the data is looked at
    have hcount : byteCount words.type words.datasize = 0 := by decide
    have hnone (m : Mem) : load m 0 0 = some [] := by simp [load]
    have hload : load words.data 0 (byteCount words.type words.datasize) =
        load [] 0 (byteCount words.type words.datasize) := by
      rw [hcount, hnone, hnone]
    rw [dbWrite_congr hload]
    decide +kernel
  · rw [hread]
    intro h
    exact absurd (congrArg Prod.fst (Option.some.inj h)) (by decide)

end MyLibraries.SimpleDb
