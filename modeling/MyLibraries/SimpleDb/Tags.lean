import MyLibraries.SimpleDb.Records

/-!
# Tags that hide or stop the walk

Any C string is accepted as a tag. The walk of `find_data` stops behind an empty one, so
what is written after it is lost (`accepted_visible` says when no call is), and it stops
at an entry `"DEADBEEF"` when `db_get_nof_tags` counts (`dbGetNofTags_iff`). A tag of 65536
characters or more derails it.
-/

namespace MyLibraries.SimpleDb

open Memory Run

/-- The tag that `db_get_nof_tags` looks for. -/
def deadbeef : CString := ⟨[0x44, 0x45, 0x41, 0x44, 0x42, 0x45, 0x45, 0x46], by decide⟩

/-- A call that neither leaves a row behind that the walk cannot pass, nor deletes one whose
size does not fit 16 bits. -/
def Call.Counted (t : Records) : Call → Prop
  | .write q => q.tag.1.length < 2 ^ 16
  | .delete tag => ∀ r, t.lookup tag = some r → r.encode.length < 2 ^ 16

instance (t : Records) : ∀ c, Decidable (Call.Counted t c)
  | .write q => inferInstanceAs (Decidable (q.tag.1.length < 2 ^ 16))
  | .delete tag =>
    inferInstanceAs (Decidable (∀ r ∈ t.lookup tag, r.encode.length < 2 ^ 16))

variable {env : Env} {capacity : Nat} {db : Mem} {t : Records} {q : Request} {r : Row}
  {tag : CString} {c : Call} {cs : List Call} {qs : List Request}

/-! ## Requests of single bytes -/

theorem Request.data_lt (hbyte : q.type.elementSize = 1) : q.data.length < 2 ^ 16 := by
  have hlen := q.data_length
  have hsize := q.datasize_lt
  rw [hbyte, Nat.mul_one] at hlen
  omega

theorem Request.removed_row (hbyte : q.type.elementSize = 1)
    (hlen : q.row.encode.length < 2 ^ 16) : q.row.removed = q.row.encode.length := by
  have hdata := Request.row_data (Request.data_lt hbyte)
  have hcount := q.data_length
  rw [hbyte, Nat.mul_one] at hcount
  rw [Row.removed_eq_iff hlen, hdata, q.count, hcount]

/-! ## Writes keep what was accepted -/

theorem Records.lookup_write_kept (h : t.lookup tag = some r) :
    (t.write q).2.lookup tag = some r := by
  cases hl : t.lookup q.row.tag with
  | some x =>
    rw [Records.write_present hl, h]
  | none =>
    have hne : q.row.tag ≠ tag := by
      rintro rfl
      rw [hl] at h
      cases h
    rw [Records.write_absent hl, Table.lookup_insert, if_neg hne, h]

theorem Records.lookup_write_self (t : Records) (q : Request) :
    (t.write q).2.lookup q.row.tag ≠ none := by
  cases hl : t.lookup q.row.tag with
  | some x =>
    rw [Records.write_present hl, hl]
    exact Option.some_ne_none x
  | none =>
    rw [Records.write_absent hl, Table.lookup_insert, if_pos rfl]
    exact Option.some_ne_none _

theorem Records.lookup_writes_kept (h : t.lookup tag = some r) :
    (exec Records.step t (qs.map .write)).2.lookup tag = some r := by
  induction qs generalizing t with
  | nil => exact h
  | cons q qs ih =>
    rw [List.map_cons, exec_cons]
    exact ih (Records.lookup_write_kept h)

/-- Every tag of a run of writes is there at its end. -/
theorem Records.lookup_writes (hq : q ∈ qs) :
    (exec Records.step t (qs.map .write)).2.lookup q.row.tag ≠ none := by
  induction qs generalizing t with
  | nil => cases hq
  | cons x qs ih =>
    rw [List.map_cons, exec_cons]
    rcases List.mem_cons.mp hq with rfl | hq
    · obtain ⟨r, hr⟩ := Option.ne_none_iff_exists'.mp (Records.lookup_write_self t q)
      have hkept : (exec Records.step (t.step (.write q)).2 (qs.map .write)).2.lookup
          q.row.tag = some r := Records.lookup_writes_kept hr
      rw [hkept]
      exact Option.some_ne_none r
    · exact ih hq

/-- An accepted request is in the table at the end of a run of writes. -/
theorem Records.lookup_accepted
    (hq : (q, DbError.dbSuccess) ∈ qs.zip (exec Records.step t (qs.map .write)).1) :
    (exec Records.step t (qs.map .write)).2.lookup q.row.tag = some q.row := by
  induction qs generalizing t with
  | nil => cases hq
  | cons x qs ih =>
    rw [List.map_cons, exec_cons] at hq ⊢
    rcases List.mem_cons.mp hq with heq | hq
    · obtain ⟨rfl, hres⟩ := Prod.mk.inj heq
      refine Records.lookup_writes_kept ?_
      show (t.write q).2.lookup q.row.tag = some q.row
      cases hl : t.lookup q.row.tag with
      | some r =>
        have : t.step (.write q) = (.dbTagExist, t) := Records.write_present hl
        rw [this] at hres
        cases hres
      | none =>
        rw [Records.write_absent hl, Table.lookup_insert, if_pos rfl]
    · exact ih hq

/-! ## Runs of writes -/

/-- The rows of a run are those of its requests. -/
theorem records_mem {x : Row} (h : x ∈ (records cs).entries) :
    ∃ q, .write q ∈ cs ∧ x = q.row :=
  (Records.mem_exec h).resolve_left (by simp [Table.empty])

/-- **No accepted tag hides another.** Along every run of `db_write` with byte types, each
call about a tag that was accepted before or made while all accepted tags are non-empty and
shorter than 65536, after every prefix: each accepted tag reads back with its data and is
refused a second time. -/
theorem accepted_visible (env : Env) (henv : env.enumSize = 1) (db : Mem)
    (hblank : loadWord db 0 4 = some 0 ∨ loadWord db 0 4 = some 0xFFFFFFFF)
    (qs : List Request) (hbytes : ∀ q ∈ qs, q.type.elementSize = 1)
    (hvisible : ∀ pre q, pre ++ [q] <+: qs → q.tag ∈ pre.map Request.tag ∨
      ∀ x ∈ pre, x.tag.1 ≠ [] ∧ x.tag.1.length < 2 ^ 16)
    (hfit : ∀ pre, pre <+: qs → rowsEnd (records (pre.map .write)).entries ≤ db.length ∧
      rowsEnd (records (pre.map .write)).entries < 2 ^ 32 - 1)
    (pre : List Request) (hpre : pre <+: qs) :
    ∃ results db', run (call env) db (pre.map .write) = some (results, db') ∧
      ∀ q, (q, DbError.dbSuccess) ∈ pre.zip results →
        dbRead env q.tag.1 db' = some (q.datasize, q.data) ∧
        ∀ data datasize type,
          dbWrite env q.tag.1 data datasize type db' = some (.dbTagExist, db') := by
  have h8 : 8 ≤ db.length := Nat.le_trans (Nat.le_add_right _ _) (hfit [] List.nil_prefix).1
  have halong : Along Records.step (Call.Safe db.length) (Table.empty Row.tag)
      (pre.map .write) := by
    refine along_of_forall_initial fun cs c hcs => ?_
    obtain ⟨xs, hxs, heq⟩ := List.prefix_map_iff.mp hcs
    obtain ⟨ys, zs, rfl, rfl, hz⟩ := List.append_eq_map_iff.mp heq
    obtain ⟨q, rfl, rfl⟩ := List.map_eq_singleton_iff.mp hz
    have hfit' := hfit _ (hxs.trans hpre)
    rw [records, List.map_append, exec_append] at hfit'
    refine ⟨?_, hfit'⟩
    rcases hvisible ys q (hxs.trans hpre) with hmem | hall
    · obtain ⟨x, hx, heq⟩ := List.mem_map.mp hmem
      have hthere := Records.lookup_writes (t := Table.empty Row.tag) hx
      exact Or.inl (heq ▸ hthere)
    · refine Or.inr fun x hx => ?_
      obtain ⟨y, hy, rfl⟩ := records_mem hx
      obtain ⟨z, hz, heq⟩ := List.mem_map.mp hy
      cases heq
      exact hall y hz
  obtain ⟨db', hrun, hholds⟩ := records_run henv hblank h8 halong
  refine ⟨_, db', hrun, fun q hq => ?_⟩
  have hbyte := hbytes q (hpre.subset (List.of_mem_zip hq).1)
  obtain ⟨hread, -, hagain⟩ := answers_row henv hholds (Records.lookup_accepted hq)
  rw [Request.row_data (Request.data_lt hbyte), q.count] at hread
  exact ⟨hread, hagain⟩

/-- A tag, the empty tag behind it, and the first again. -/
theorem accepted_visible_again :
    let first : Request := ⟨⟨[97], by decide⟩, .db8b, 1, [1], by decide, by decide⟩
    let last : Request := ⟨⟨[], by decide⟩, .db8b, 1, [2], by decide, by decide⟩
    ∃ results db', run (call ⟨1, none⟩) (List.replicate 24 0)
        [.write first, .write last, .write first] = some (results, db') ∧
      ∀ q, (q, DbError.dbSuccess) ∈ [first, last, first].zip results →
        dbRead ⟨1, none⟩ q.tag.1 db' = some (q.datasize, q.data) ∧
        ∀ data datasize type,
          dbWrite ⟨1, none⟩ q.tag.1 data datasize type db' = some (.dbTagExist, db') := by
  intro first last
  refine accepted_visible ⟨1, none⟩ rfl (List.replicate 24 0) (Or.inl (by decide))
    [first, last, first] (by decide) ?_ ?_ [first, last, first] (List.prefix_refl _)
  · intro pre q hpre
    rcases pre with _ | ⟨x, _ | ⟨y, _ | ⟨z, rest⟩⟩⟩
    · exact Or.inr (by simp)
    · obtain ⟨rfl, rfl⟩ : x = first ∧ q = last := by simpa using hpre
      exact Or.inr (by decide)
    · obtain ⟨rfl, -, rfl⟩ : x = first ∧ y = last ∧ q = first := by simpa using hpre
      exact Or.inl (by simp)
    · simp at hpre
  · intro pre hpre
    simp only [List.prefix_cons_iff, List.prefix_nil] at hpre
    rcases hpre with rfl | ⟨_, rfl, rfl | ⟨_, rfl, rfl | ⟨_, rfl, rfl⟩⟩⟩ <;> decide

/-- An empty tag and a tag behind it. Both are accepted; the second is not found, and
accepted again. -/
theorem hidden_by_empty_tag :
    let empty : Request := ⟨⟨[], by decide⟩, .db8b, 1, [1], by decide, by decide⟩
    let hidden : Request := ⟨⟨[97], by decide⟩, .db8b, 1, [2], by decide, by decide⟩
    let db : Mem := [19, 0, 0, 0, 0, 0, 0, 0, 0, 1, 1, 0, 1, 97, 0, 1, 1, 0, 2, 0, 0, 0, 0, 0, 0, 0]
    run (call ⟨1, none⟩) (List.replicate 26 0) [.write empty, .write hidden] =
        some ([.dbSuccess, .dbSuccess], db) ∧
      ¬dbRead ⟨1, none⟩ hidden.tag.1 db = some (hidden.datasize, hidden.data) ∧
      ¬dbWrite ⟨1, none⟩ hidden.tag.1 hidden.data hidden.datasize hidden.type db =
        some (.dbTagExist, db) := by
  decide +kernel

/-! ## Counting -/

/-- What `db_get_nof_tags` counts: the entries up to the one it looks for, in 16 bits. -/
theorem dbGetNofTags_rows (h : HoldsRows env capacity db t) (hall : ∀ x ∈ t.entries, x.Plain) :
    dbGetNofTags db = some t.entries.length ↔
      t.entries.length < 2 ^ 16 ∧ ∀ x ∈ t.entries.dropLast, x.tag ≠ deadbeef := by
  cases hl : t.lookup deadbeef with
  | none =>
    have hfind : findData [0x44, 0x45, 0x41, 0x44, 0x42, 0x45, 0x45, 0x46] db =
        some (0, wrap 16 t.entries.length) :=
      findData_misses h.image (HoldsRows.passable hall hl)
    have hnone : ∀ x ∈ t.entries.dropLast, x.tag ≠ deadbeef :=
      fun x hx => Table.lookup_eq_none.mp hl x (List.dropLast_subset _ hx)
    simp only [dbGetNofTags, hfind, Option.bind_eq_bind, some_bind, Option.some.injEq]
    refine ⟨fun hwrap => ⟨hwrap ▸ wrap_lt _ _, hnone⟩, fun hlt => wrap_of_lt hlt.1⟩
  | some r =>
    obtain ⟨pre, post, hs, htag, himage, hpass, -⟩ := h.split hl
    have hfind : findData [0x44, 0x45, 0x41, 0x44, 0x42, 0x45, 0x45, 0x46] db =
        some (8 + (encodeRows pre).length, wrap 16 (pre.length + 1)) := by
      have hreach := findData_reaches himage hpass
      rwa [htag] at hreach
    have hlen : t.entries.length = pre.length + 1 + post.length := by
      rw [hs, List.length_append, List.length_cons]
      omega
    simp only [dbGetNofTags, hfind, Option.bind_eq_bind, some_bind, Option.some.injEq]
    constructor
    · intro hwrap
      have hle : wrap 16 (pre.length + 1) ≤ pre.length + 1 := Nat.mod_le _ _
      have hpost : post = [] := List.length_eq_zero_iff.mp (by omega)
      subst hpost
      refine ⟨hwrap ▸ wrap_lt _ _, fun x hx => ?_⟩
      rw [hs, List.dropLast_concat] at hx
      exact htag ▸ fun heq => (hpass x hx).1 (congrArg Subtype.val heq)
    · rintro ⟨hlt, hnone⟩
      rcases eq_or_ne post [] with rfl | hpost
      · rw [wrap_of_lt (by omega), hlen, List.length_nil]
      · refine absurd htag (hnone r ?_)
        rw [hs, List.dropLast_append_of_ne_nil (List.cons_ne_nil _ _),
          List.dropLast_cons_of_ne_nil hpost]
        exact List.mem_append_right _ List.mem_cons_self

/-- **Counting the tags.** Along every run of `db_write` and `db_delete` with non-empty tags
and byte types, the written tags shorter than 65536 and the deleted entries shorter than
65536 bytes, `db_get_nof_tags` returns the number of entries exactly when there are fewer
than 65536 and none but the last has the tag `"DEADBEEF"`. -/
theorem dbGetNofTags_iff (env : Env) (henv : env.enumSize = 1) (db : Mem)
    (hblank : loadWord db 0 4 = some 0 ∨ loadWord db 0 4 = some 0xFFFFFFFF)
    (cs : List Call) (hnamed : ∀ c ∈ cs, c.tag.1 ≠ [])
    (hbytes : ∀ q, .write q ∈ cs → q.type.elementSize = 1)
    (hcounted : Along Records.step Call.Counted (Table.empty Row.tag) cs)
    (hfit : ∀ pre, pre <+: cs → rowsEnd (records pre).entries ≤ db.length ∧
      rowsEnd (records pre).entries < 2 ^ 32 - 1) :
    ∃ db', run (call env) db cs =
        some ((exec Records.step (Table.empty Row.tag) cs).1, db') ∧
      (dbGetNofTags db' = some (records cs).entries.length ↔
        (records cs).entries.length < 65536 ∧
          ∀ x ∈ (records cs).entries.dropLast, x.tag ≠ deadbeef) := by
  have h8 : 8 ≤ db.length := Nat.le_trans (Nat.le_add_right _ _) (hfit [] List.nil_prefix).1
  -- every row of a prefix of the run is a plain row of single bytes
  have hplain (pre : List Call) (hpre : pre <+: cs) :
      ∀ x ∈ (records pre).entries, x.Plain := by
    intro x hx
    obtain ⟨q, hq, rfl⟩ := records_mem hx
    obtain ⟨ys, zs, rfl⟩ := List.append_of_mem hq
    have hstep : ys ++ [.write q] <+: cs :=
      (show ys ++ [Call.write q] <+: ys ++ .write q :: zs by simp).trans hpre
    exact ⟨hnamed _ (hpre.subset hq), along_at hcounted hstep⟩
  have halong : Along Records.step (Call.Safe db.length) (Table.empty Row.tag) cs := by
    refine along_of_forall_initial fun pre c hpre => ?_
    have hinit := (List.prefix_append pre [c]).trans hpre
    cases c with
    | write q =>
      have hfit' := hfit _ hpre
      rw [records, exec_append] at hfit'
      exact ⟨Or.inr (hplain pre hinit), hfit'⟩
    | delete tag =>
      refine ⟨Or.inr (hplain pre hinit), fun r hr => ?_⟩
      have hlen := along_at hcounted hpre r hr
      obtain ⟨q, hq, rfl⟩ := records_mem (Table.lookup_mem hr).1
      exact Request.removed_row (hbytes q (hinit.subset hq)) hlen
  obtain ⟨db', hrun, hholds⟩ := records_run henv hblank h8 halong
  exact ⟨db', hrun, dbGetNofTags_rows hholds (hplain cs (List.prefix_refl _))⟩

/-- Two entries, the first deleted again. -/
theorem dbGetNofTags_deleted :
    let one : Request := ⟨⟨[97], by decide⟩, .db8b, 1, [1], by decide, by decide⟩
    let two : Request := ⟨⟨[98], by decide⟩, .dbText, 1, [2], by decide, by decide⟩
    ∃ db', run (call ⟨1, none⟩) (List.replicate 24 0)
        [.write one, .write two, .delete one.tag] =
          some ([.dbSuccess, .dbSuccess, .dbSuccess], db') ∧
      dbGetNofTags db' = some 1 := by
  intro one two
  obtain ⟨db', hrun, hcount⟩ := dbGetNofTags_iff ⟨1, none⟩ rfl (List.replicate 24 0)
    (Or.inl (by decide)) [.write one, .write two, .delete one.tag] (by simp [Call.tag, one, two])
    (by simp [one, two, DbDataType.elementSize])
    ⟨by decide, by decide, by decide, trivial⟩
    (by
      intro pre hpre
      simp only [List.prefix_cons_iff, List.prefix_nil] at hpre
      rcases hpre with rfl | ⟨_, rfl, rfl | ⟨_, rfl, rfl | ⟨_, rfl, rfl⟩⟩⟩ <;> decide)
  exact ⟨db', hrun, hcount.mpr (by decide)⟩

/-- The tag that is looked for, and one behind it. -/
theorem deadbeef_not_counted :
    let sentinel : Request := ⟨deadbeef, .db8b, 1, [1], by decide, by decide⟩
    let other : Request := ⟨⟨[97], by decide⟩, .db8b, 1, [2], by decide, by decide⟩
    ∃ db', run (call ⟨1, none⟩) (List.replicate 32 0) [.write sentinel, .write other] =
        some ([.dbSuccess, .dbSuccess], db') ∧
      (records [.write sentinel, .write other]).entries.length = 2 ∧
      dbGetNofTags db' = some 1 := by
  intro sentinel other
  refine ⟨[27, 0, 0, 0, 0, 0, 0, 0, 68, 69, 65, 68, 66, 69, 69, 70, 0, 1, 1, 0, 1, 97, 0, 1, 1,
    0, 2, 0, 0, 0, 0, 0], ?_⟩
  decide +kernel

end MyLibraries.SimpleDb
