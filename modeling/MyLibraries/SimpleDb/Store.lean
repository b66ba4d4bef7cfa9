import MyLibraries.Core.Run
import MyLibraries.Core.Table
import MyLibraries.SimpleDb.Operations

/-!
# `simple_db` is a store

The purpose of the database, apart from its bytes: an ordered table of entries under
distinct tags, where `write` appends, `delete` removes and `overwrite` removes and
appends. `apply_refines` is the simulation of one step of this table by the code, and
`store_run` follows it along a whole run from a blank memory: after every prefix the
memory is the image of the table, and every query answers from the table.

The entries are the byte-sized ones (`DB_Text`, `DB_8b`) with non-empty tags. For wider
types `db_delete` takes an element count for a size in bytes.
-/

namespace MyLibraries.SimpleDb

open Memory Run

/-- Entries in the order of their last appearance, under distinct tags. -/
abbrev Store := Table Entry.tag

/-- The calls that change a database. -/
inductive Op
  | write (e : Entry)
  | overwrite (e : Entry)
  | delete (tag : CString)

/-- Non-empty tags, and types whose elements are single bytes. -/
def Op.Ok : Op → Prop
  | .write e => e.tag.1 ≠ [] ∧ (e.type = .dbText ∨ e.type = .db8b)
  | .overwrite e => e.tag.1 ≠ [] ∧ (e.type = .dbText ∨ e.type = .db8b)
  | .delete tag => tag.1 ≠ []

/-- One call of the code. -/
def apply (env : Env) (db : Mem) : Op → Option (DbError × Mem)
  | .write e => dbWrite env e.tag.1 e.data e.data.length e.type db
  | .overwrite e => dbOverwrite env e.tag.1 e.data e.data.length e.type db
  | .delete tag => dbDelete env tag.1 db

namespace Store

def write (t : Store) (e : Entry) : DbError × Store :=
  match h : t.lookup e.tag with
  | some _ => (.dbTagExist, t)
  | none => (.dbSuccess, t.insert e h)

def delete (t : Store) (tag : CString) : DbError × Store :=
  match t.lookup tag with
  | some _ => (.dbSuccess, t.erase tag)
  | none => (.dbTagNotFound, t)

def overwrite (t : Store) (e : Entry) : DbError × Store :=
  (.dbSuccess, (t.erase e.tag).insert e (by rw [Table.lookup_erase, if_pos rfl]))

def step (t : Store) : Op → DbError × Store
  | .write e => t.write e
  | .overwrite e => t.overwrite e
  | .delete tag => t.delete tag

end Store

/-- The table after a run of calls on a blank database. -/
def contents (ops : List Op) : Store := (exec Store.step (Table.empty Entry.tag) ops).2

/-- What the last call about a tag left under it. -/
def lastWritten (tag : CString) : Option Entry → List Op → Option Entry
  | last, [] => last
  | last, .write e :: ops =>
    lastWritten tag (if e.tag = tag then last.or (some e) else last) ops
  | last, .overwrite e :: ops => lastWritten tag (if e.tag = tag then some e else last) ops
  | last, .delete tag' :: ops => lastWritten tag (if tag' = tag then none else last) ops

/-- The answers of the queries about a tag, given what is stored under it: the bytes and
the length, the type, the size, and the calls that are refused. -/
def Answers (env : Env) (db : Mem) (tag : CString) : Option Entry → Prop
  | some e =>
    dbRead env tag.1 db = some (e.data.length, e.data) ∧
      dbGetType env tag.1 db = some e.type.code ∧
      dbGetEntrySize env tag.1 db = some e.data.length ∧
      ∀ data datasize type, dbWrite env tag.1 data datasize type db = some (.dbTagExist, db)
  | none =>
    dbRead env tag.1 db = some (0, []) ∧
      dbGetType env tag.1 db = some DbDataType.dbTypeError.code ∧
      dbGetEntrySize env tag.1 db = some 0 ∧
      dbDelete env tag.1 db = some (.dbTagNotFound, db)

variable {env : Env} {db : Mem} {t : Store} {e x : Entry} {tag : CString} {op : Op}

/-! ## The table keeps what was written last -/

theorem Store.write_present (h : t.lookup e.tag = some x) : t.write e = (.dbTagExist, t) := by
  unfold Store.write
  split
  · rfl
  · rename_i habs
    rw [habs] at h
    cases h

theorem Store.write_absent (h : t.lookup e.tag = none) :
    t.write e = (.dbSuccess, t.insert e h) := by
  unfold Store.write
  split
  · rename_i hx
    rw [hx] at h
    cases h
  · rfl

theorem lookup_step (t : Store) (op : Op) (tag : CString) :
    (t.step op).2.lookup tag = lastWritten tag (t.lookup tag) [op] := by
  cases op with
  | write e =>
    simp only [Store.step, lastWritten]
    cases hx : t.lookup e.tag with
    | some x =>
      rw [Store.write_present hx]
      by_cases htag : e.tag = tag
      · subst htag
        rw [if_pos rfl, hx]
        rfl
      · rw [if_neg htag]
    | none =>
      rw [Store.write_absent hx, Table.lookup_insert]
      by_cases htag : e.tag = tag
      · subst htag
        rw [if_pos rfl, if_pos rfl, hx]
        rfl
      · rw [if_neg htag, if_neg htag]
  | overwrite e =>
    simp only [Store.step, Store.overwrite, lastWritten]
    rw [Table.lookup_insert, Table.lookup_erase]
    by_cases htag : e.tag = tag
    · rw [if_pos htag, if_pos htag]
    · rw [if_neg htag, if_neg htag, if_neg (Ne.symm htag)]
  | delete tag' =>
    simp only [Store.step, Store.delete, lastWritten]
    split
    · rw [Table.lookup_erase]
      by_cases htag : tag' = tag
      · rw [if_pos htag, if_pos htag.symm]
      · rw [if_neg htag, if_neg (Ne.symm htag)]
    · rename_i hx
      by_cases htag : tag' = tag
      · rw [if_pos htag, ← htag, hx]
      · rw [if_neg htag]

theorem lastWritten_cons (last : Option Entry) (op : Op) (ops : List Op) :
    lastWritten tag last (op :: ops) = lastWritten tag (lastWritten tag last [op]) ops := by
  cases op <;> rfl

theorem lookup_exec (t : Store) (ops : List Op) (tag : CString) :
    (exec Store.step t ops).2.lookup tag = lastWritten tag (t.lookup tag) ops := by
  induction ops generalizing t with
  | nil => rfl
  | cons op ops ih => rw [exec_cons, ih, lookup_step, ← lastWritten_cons]

theorem lookup_contents (ops : List Op) (tag : CString) :
    (contents ops).lookup tag = lastWritten tag none ops := by
  rw [contents, lookup_exec, Table.lookup_empty]

/-! ## Every query answers from the table -/

/-- A memory that holds the entries of a table of byte-sized entries. -/
structure Holds (env : Env) (capacity : Nat) (db : Mem) (t : Store) : Prop where
  image : Image env db t.entries
  named : Named t.entries
  bytes : ∀ x ∈ t.entries, x.ByteSized
  length : db.length = capacity

theorem lookup_absent (h : t.lookup tag = none) : ∀ x ∈ t.entries, x.tag.1 ≠ tag.1 :=
  fun x hx hxe => Table.lookup_eq_none.mp h x hx (Subtype.ext hxe)

theorem answers_lookup {capacity : Nat} (henv : env.enumSize = 1) (h : Holds env capacity db t)
    (tag : CString) : Answers env db tag (t.lookup tag) := by
  cases hl : t.lookup tag with
  | none =>
    have habs := lookup_absent hl
    exact ⟨dbRead_absent h.image h.named habs, dbGetType_absent h.image h.named habs,
      dbGetEntrySize_absent h.image h.named habs, dbDelete_absent h.image h.named habs⟩
  | some e =>
    obtain ⟨pre, post, hs, rfl, hpre, -⟩ := Table.lookup_split hl
    have himage := h.image
    have hbytes : e.ByteSized := h.bytes e (by rw [hs]; simp)
    have hnamed : Named pre := fun x hx => h.named x (by rw [hs]; simp [hx])
    rw [hs] at himage
    refine ⟨?_, dbGetType_present henv himage hnamed hpre, ?_, fun data datasize type => ?_⟩
    · rw [dbRead_present henv himage hnamed hpre, hbytes]
    · rw [dbGetEntrySize_present henv himage hnamed hpre, hbytes]
    · exact dbWrite_present himage hnamed hpre

/-! ## One step -/

section Step

variable {capacity : Nat} (henv : env.enumSize = 1) (h : Holds env capacity db t)
include henv h

theorem write_insert (habs : t.lookup e.tag = none) (hok : (Op.write e).Ok)
    (hcap : imageSize (t.entries ++ [e]) ≤ capacity)
    (hb : imageSize (t.entries ++ [e]) < 2 ^ 32 - 1) :
    ∃ db', dbWrite env e.tag.1 e.data e.data.length e.type db = some (.dbSuccess, db') ∧
      Holds env capacity db' (t.insert e habs) := by
  have hcount : byteCount e.type e.data.length = e.data.length := by
    rcases hok.2 with hty | hty <;> rw [hty] <;> rfl
  obtain ⟨db', hdb', himage, -, hlen⟩ := dbWrite_absent henv h.image h.named
    (Table.lookup_eq_none.mp habs) hcount (by rw [h.length]; exact hcap) hb
  refine ⟨db', hdb', himage, ?_, ?_, by rw [hlen, h.length]⟩
  · intro x hx
    rcases List.mem_append.mp hx with hx | hx
    · exact h.named x hx
    · rw [List.mem_singleton.mp hx]
      exact hok.1
  · intro x hx
    rcases List.mem_append.mp hx with hx | hx
    · exact h.bytes x hx
    · rw [List.mem_singleton.mp hx]
      exact byteSized_of_type hok.2

theorem delete_erase (hl : t.lookup tag = some e) :
    ∃ db', dbDelete env tag.1 db = some (.dbSuccess, db') ∧
      Holds env capacity db' (t.erase tag) := by
  obtain ⟨pre, post, hs, rfl, hpre, hpost⟩ := Table.lookup_split hl
  have himage := h.image
  have hnamed : Named pre := fun x hx => h.named x (by rw [hs]; simp [hx])
  rw [hs] at himage
  obtain ⟨db', hdb', himage', -, hlen⟩ := dbDelete_present henv himage hnamed hpre
    (h.bytes e (by rw [hs]; simp))
  have herase := Table.erase_entries hs rfl hpre hpost
  have hsub : ∀ x ∈ (t.erase e.tag).entries, x ∈ t.entries :=
    fun x hx => List.mem_of_mem_filter hx
  refine ⟨db', hdb', by rw [herase]; exact himage', fun x hx => h.named x (hsub x hx),
    fun x hx => h.bytes x (hsub x hx), by rw [hlen, h.length]⟩

theorem overwrite_insert (hok : (Op.overwrite e).Ok)
    (hcap : imageSize (t.overwrite e).2.entries ≤ capacity)
    (hb : imageSize (t.overwrite e).2.entries < 2 ^ 32 - 1) :
    ∃ db', dbOverwrite env e.tag.1 e.data e.data.length e.type db = some (.dbSuccess, db') ∧
      Holds env capacity db' (t.overwrite e).2 := by
  unfold Store.overwrite at hcap hb ⊢
  cases hl : t.lookup e.tag with
  | none =>
    have hfind := findData_absent h.image h.named (lookup_absent hl)
    have heq := Table.erase_of_absent hl
    simp only [Table.insert, heq] at hcap hb
    obtain ⟨db', hdb', hh⟩ := write_insert henv h hl hok hcap hb
    refine ⟨db', ?_, ?_⟩
    · simp only [dbOverwrite, hfind, Option.bind_eq_bind, some_bind, ne_eq, not_true_eq_false,
        if_false, hdb']
    · simpa only [Table.insert, heq] using hh
  | some x =>
    obtain ⟨pre, post, hs, hxe, hpre, -⟩ := Table.lookup_split hl
    have himage := h.image
    rw [hs] at himage
    have hfind := findData_present himage
      (fun y hy => h.named y (by rw [hs]; simp [hy])) (by rw [hxe]; exact hpre)
    rw [hxe] at hfind
    obtain ⟨db₁, hdel, hh₁⟩ := delete_erase henv h hl
    obtain ⟨db', hdb', hh⟩ := write_insert henv hh₁
      (by rw [Table.lookup_erase, if_pos rfl]) hok hcap hb
    refine ⟨db', ?_, hh⟩
    have hne : 8 + (encode pre).length ≠ 0 := by omega
    rw [dbOverwrite_of_found hfind hne hdel]
    exact hdb'

/-- **One call.** The code answers as the table does and leaves its image. -/
theorem apply_refines (hok : op.Ok)
    (hcap : imageSize (t.step op).2.entries ≤ capacity)
    (hb : imageSize (t.step op).2.entries < 2 ^ 32 - 1) :
    ∃ db', apply env db op = some ((t.step op).1, db') ∧
      Holds env capacity db' (t.step op).2 := by
  have hans := answers_lookup henv h
  cases op with
  | write e =>
    simp only [Store.step, apply] at hcap hb ⊢
    cases hl : t.lookup e.tag with
    | some x =>
      have := hans e.tag
      rw [hl] at this
      rw [Store.write_present hl]
      exact ⟨db, this.2.2.2 _ _ _, h⟩
    | none =>
      rw [Store.write_absent hl] at hcap hb ⊢
      exact write_insert henv h hl hok hcap hb
  | delete tag =>
    simp only [Store.step, Store.delete, apply] at hcap hb ⊢
    cases hl : t.lookup tag with
    | none =>
      have := hans tag
      rw [hl] at this
      exact ⟨db, this.2.2.2, h⟩
    | some e => exact delete_erase henv h hl
  | overwrite e => exact overwrite_insert henv h hok hcap hb

end Step

/-! ## Runs -/

/-- **`simple_db` as a store.** From a blank memory, along every run of calls whose images
fit the memory, after every prefix: the calls so far answered as the table does; the
memory is the image of the table, entries in order; every query about every tag answers
from what was written last; and once a header has been written, `db_validate` accepts. -/
theorem store_run (env : Env) (henv : env.enumSize = 1) (db : Mem)
    (hblank : loadWord db 0 4 = some 0 ∨ loadWord db 0 4 = some 0xFFFFFFFF)
    (ops : List Op) (hok : ∀ op ∈ ops, op.Ok)
    (hfit : ∀ pre, pre <+: ops → imageSize (contents pre).entries ≤ db.length ∧
      imageSize (contents pre).entries < 2 ^ 32 - 1)
    (pre : List Op) (hpre : pre <+: ops) :
    ∃ db', run (apply env) db pre = some ((exec Store.step (Table.empty Entry.tag) pre).1, db') ∧
      Image env db' (contents pre).entries ∧ db'.length = db.length ∧
      (∀ tag, (contents pre).lookup tag = lastWritten tag none pre) ∧
      (∀ tag, Answers env db' tag (lastWritten tag none pre)) ∧
      (loadWord db' 0 4 = some (imageSize (contents pre).entries) →
        dbValidate env db' = some (if env.crcFunc.isSome then .dbSuccess else .dbNoCRCFunc)) := by
  let P : Store → Op → Prop := fun t op => op.Ok ∧
    imageSize (t.step op).2.entries ≤ db.length ∧
    imageSize (t.step op).2.entries < 2 ^ 32 - 1
  have hstep : Refines (apply env) Store.step (Holds env db.length) P :=
    fun _ _ _ h hP => apply_refines henv h hP.1 hP.2.1 hP.2.2
  have hstart : Holds env db.length db (Table.empty Entry.tag) := by
    refine ⟨⟨Or.inr ⟨rfl, hblank⟩, ?_, by decide, ?_⟩, by simp [Named, Table.empty],
      by simp [Table.empty], rfl⟩
    · exact at_nil.mpr (hfit [] List.nil_prefix).1
    · intro hw
      rcases hblank with hb | hb <;> rw [hb] at hw <;> cases hw
  have halong : Along Store.step P (Table.empty Entry.tag) pre := by
    apply along_of_forall_initial
    intro qre op hq
    have hfit' := hfit (qre ++ [op]) (hq.trans hpre)
    simp only [contents, exec_append, exec_cons, exec_nil] at hfit'
    exact ⟨hok op ((hq.trans hpre).subset (by simp)), hfit'⟩
  obtain ⟨db', hrun, hh⟩ := run_refines hstep hstart halong
  refine ⟨db', hrun, hh.image, hh.length, lookup_contents pre, fun tag => ?_,
    dbValidate_image hh.image⟩
  rw [← lookup_contents]
  exact answers_lookup henv hh tag

/-- Two entries of which one tag is a prefix of the other, the first removed again. -/
theorem store_run_prefix_tags :
    let short : Entry := ⟨⟨[65], by decide⟩, .dbText, [1, 2, 3], by decide⟩
    let long : Entry := ⟨⟨[65, 66], by decide⟩, .db8b, [9], by decide⟩
    ∃ db', run (apply ⟨1, none⟩) (List.replicate 32 0)
        [.write short, .write long, .delete short.tag] =
          some ([.dbSuccess, .dbSuccess, .dbSuccess], db') ∧
      dbRead ⟨1, none⟩ long.tag.1 db' = some (1, [9]) := by
  intro short long
  obtain ⟨db', hrun, -, -, -, hans, -⟩ := store_run ⟨1, none⟩ rfl (List.replicate 32 0)
    (Or.inl (by decide)) [.write short, .write long, .delete short.tag]
    (by simp [Op.Ok, short, long])
    (by
      intro pre hpre
      simp only [List.prefix_cons_iff, List.prefix_nil] at hpre
      rcases hpre with rfl | ⟨_, rfl, rfl | ⟨_, rfl, rfl | ⟨_, rfl, rfl⟩⟩⟩ <;> decide)
    _ (List.prefix_refl _)
  exact ⟨db', hrun, (hans long.tag).1⟩

end MyLibraries.SimpleDb
