import MyLibraries.Core.Run
import MyLibraries.Core.Table
import MyLibraries.SimpleDb.Requests

/-!
# Databases of any elements and tags

The table that a run of `db_write` and `db_delete` is meant to keep, over requests with any
element size and any tag. Unlike the byte-sized entries of `Store` these do not always
behave as the table does: `Call.Safe` says when a call does, in terms of the rows that are
there, and `call_refines` is the simulation under it. A walk has to reach its row or the
end, which takes plain rows on the way; a row that is deleted has to be taken out as a
whole; and the image has to fit the memory.
-/

namespace MyLibraries.SimpleDb

open Memory Run

/-- Rows in the order in which they were written, under distinct tags. -/
abbrev Records := Table Row.tag

/-- The recorded size of an image of rows. -/
def rowsEnd (rs : List Row) : Nat := 8 + (encodeRows rs).length

/-- A call of `db_write` or `db_delete`. -/
inductive Call
  | write (q : Request)
  | delete (tag : CString)

def Call.tag : Call → CString
  | .write q => q.tag
  | .delete tag => tag

def call (env : Env) (db : Mem) : Call → Option (DbError × Mem)
  | .write q => dbWrite env q.tag.1 q.data q.datasize q.type db
  | .delete tag => dbDelete env tag.1 db

/-- Whatever it looks for, the walk can pass over the row. -/
def Row.Plain (r : Row) : Prop := r.tag.1 ≠ [] ∧ r.tag.1.length < 2 ^ 16

namespace Records

def write (t : Records) (q : Request) : DbError × Records :=
  match h : t.lookup q.row.tag with
  | some _ => (.dbTagExist, t)
  | none => (.dbSuccess, t.insert q.row h)

def delete (t : Records) (tag : CString) : DbError × Records :=
  match t.lookup tag with
  | some _ => (.dbSuccess, t.erase tag)
  | none => (.dbTagNotFound, t)

def step (t : Records) : Call → DbError × Records
  | .write q => t.write q
  | .delete tag => t.delete tag

/-- A walk for the tag ends where it should, at its row or behind all rows. -/
def Reaches (t : Records) (tag : CString) : Prop :=
  t.lookup tag ≠ none ∨ ∀ x ∈ t.entries, x.Plain

end Records

/-- The rows that a run is meant to leave. -/
def records (cs : List Call) : Records := (exec Records.step (Table.empty Row.tag) cs).2

/-- The calls that the code answers as the table does. -/
def Call.Safe (capacity : Nat) (t : Records) : Call → Prop
  | .write q => t.Reaches q.tag ∧ rowsEnd (t.write q).2.entries ≤ capacity ∧
      rowsEnd (t.write q).2.entries < 2 ^ 32 - 1
  | .delete tag => t.Reaches tag ∧ ∀ r, t.lookup tag = some r → r.removed = r.encode.length

/-- A memory that holds the rows of a table. All but the last are plain, so the walk
reaches every one of them. -/
structure HoldsRows (env : Env) (capacity : Nat) (db : Mem) (t : Records) : Prop where
  image : RowImage env db t.entries
  plain : ∀ x ∈ t.entries.dropLast, x.Plain
  length : db.length = capacity

variable {env : Env} {capacity : Nat} {db : Mem} {t : Records} {q : Request} {r : Row}
  {tag : CString} {c : Call} {cs : List Call} {qs : List Request} {pre post : List Row}

/-! ## The table -/

theorem Records.write_present (h : t.lookup q.row.tag = some r) :
    t.write q = (.dbTagExist, t) := by
  unfold Records.write
  split
  · rfl
  · rename_i habs
    rw [h] at habs
    cases habs

theorem Records.write_absent (h : t.lookup q.row.tag = none) :
    t.write q = (.dbSuccess, t.insert q.row h) := by
  unfold Records.write
  split
  · rename_i hx
    rw [h] at hx
    cases hx
  · rfl

theorem Records.delete_present (h : t.lookup tag = some r) :
    t.delete tag = (.dbSuccess, t.erase tag) := by
  simp only [Records.delete, h]

theorem Records.delete_absent (h : t.lookup tag = none) :
    t.delete tag = (.dbTagNotFound, t) := by
  simp only [Records.delete, h]

/-- Every row of the table was there before or is that of the request. -/
theorem Records.mem_step {x : Row} (h : x ∈ (t.step c).2.entries) :
    x ∈ t.entries ∨ ∃ q, c = .write q ∧ x = q.row := by
  cases c with
  | write q =>
    simp only [Records.step] at h
    cases hl : t.lookup q.row.tag with
    | some y =>
      rw [Records.write_present hl] at h
      exact Or.inl h
    | none =>
      rw [Records.write_absent hl] at h
      rcases List.mem_append.mp h with hx | hx
      · exact Or.inl hx
      · exact Or.inr ⟨q, rfl, List.mem_singleton.mp hx⟩
  | delete tag =>
    simp only [Records.step] at h
    cases hl : t.lookup tag with
    | some y =>
      rw [Records.delete_present hl] at h
      exact Or.inl (List.mem_of_mem_filter h)
    | none =>
      rw [Records.delete_absent hl] at h
      exact Or.inl h

/-- Every row of a run was there at its beginning or is that of one of its requests. -/
theorem Records.mem_exec {x : Row} (h : x ∈ (exec Records.step t cs).2.entries) :
    x ∈ t.entries ∨ ∃ q, .write q ∈ cs ∧ x = q.row := by
  induction cs generalizing t with
  | nil => exact Or.inl h
  | cons c cs ih =>
    rw [exec_cons] at h
    rcases ih h with hx | ⟨q, hq, rfl⟩
    · rcases Records.mem_step hx with hx | ⟨q, rfl, rfl⟩
      · exact Or.inl hx
      · exact Or.inr ⟨q, List.mem_cons_self, rfl⟩
    · exact Or.inr ⟨q, List.mem_cons_of_mem _ hq, rfl⟩

/-- Requests under new, plain tags are all accepted. -/
theorem Records.exec_writes (capacity : Nat) (hall : ∀ x ∈ t.entries, x.Plain)
    (hplain : ∀ q ∈ qs, q.row.Plain) (hnew : ∀ q ∈ qs, t.lookup q.row.tag = none)
    (hdistinct : (qs.map Request.tag).Nodup)
    (hcap : rowsEnd (t.entries ++ qs.map Request.row) ≤ capacity)
    (hb : rowsEnd (t.entries ++ qs.map Request.row) < 2 ^ 32 - 1) :
    Along Records.step (Call.Safe capacity) t (qs.map .write) ∧
      (exec Records.step t (qs.map .write)).1 = List.replicate qs.length .dbSuccess ∧
      (exec Records.step t (qs.map .write)).2.entries = t.entries ++ qs.map Request.row := by
  induction qs generalizing t with
  | nil => exact ⟨trivial, rfl, by simp⟩
  | cons q qs ih =>
    rw [List.map_cons, List.nodup_cons] at hdistinct
    have habs : t.lookup q.row.tag = none := hnew q List.mem_cons_self
    have hwrite := Records.write_absent habs
    have hstep : t.step (.write q) = (.dbSuccess, t.insert q.row habs) := hwrite
    have hentries : (t.insert q.row habs).entries ++ qs.map Request.row =
        t.entries ++ (q :: qs).map Request.row := by
      simp [Table.insert]
    have hrest : ∀ x ∈ qs, (t.insert q.row habs).lookup x.row.tag = none := by
      intro x hx
      have hne : q.row.tag ≠ x.row.tag := by
        intro (heq : q.tag = x.tag)
        have hmem : x.tag ∈ qs.map Request.tag := List.mem_map_of_mem hx
        exact hdistinct.1 (heq.symm ▸ hmem)
      rw [Table.lookup_insert, if_neg hne, hnew x (List.mem_cons_of_mem _ hx)]
    have hall' : ∀ x ∈ (t.insert q.row habs).entries, x.Plain := by
      intro x hx
      rcases List.mem_append.mp hx with hx | hx
      · exact hall x hx
      · exact List.mem_singleton.mp hx ▸ hplain q List.mem_cons_self
    rw [← hentries] at hcap hb ⊢
    have hle : rowsEnd (t.insert q.row habs).entries ≤
        rowsEnd ((t.insert q.row habs).entries ++ qs.map Request.row) := by
      simp only [rowsEnd, encodeRows_append, List.length_append]
      omega
    obtain ⟨halong, hres, hend⟩ := ih hall' (fun x hx => hplain x (List.mem_cons_of_mem _ hx))
      hrest hdistinct.2 hcap hb
    have hsafe : (Call.write q).Safe capacity t := by
      refine ⟨Or.inr hall, ?_⟩
      rw [hwrite]
      exact ⟨Nat.le_trans hle hcap, Nat.lt_of_le_of_lt hle hb⟩
    rw [List.map_cons, exec_cons, hstep]
    exact ⟨⟨hsafe, hstep ▸ halong⟩, by rw [hres]; rfl, hend⟩

/-! ## The walk over the rows of a table -/

theorem HoldsRows.plain_before (h : HoldsRows env capacity db t)
    (hs : t.entries = pre ++ r :: post) : ∀ x ∈ pre, x.Plain := by
  intro x hx
  refine h.plain x ?_
  rw [hs, List.dropLast_append_of_ne_nil (List.cons_ne_nil _ _)]
  exact List.mem_append_left _ hx

/-- Where the row of a tag stands, and that the walk gets there. -/
theorem HoldsRows.split (h : HoldsRows env capacity db t) (hl : t.lookup tag = some r) :
    ∃ pre post, t.entries = pre ++ r :: post ∧ r.tag = tag ∧
      RowImage env db (pre ++ r :: post) ∧ (∀ x ∈ pre, x.Passable r.tag.1) ∧
      (t.erase tag).entries = pre ++ post := by
  obtain ⟨pre, post, hs, rfl, hpre, hpost⟩ := Table.lookup_split hl
  refine ⟨pre, post, hs, rfl, hs ▸ h.image, fun x hx => ?_, ?_⟩
  · exact ⟨fun heq => hpre x hx (Subtype.ext heq), h.plain_before hs x hx⟩
  · exact Table.erase_entries hs rfl hpre hpost

theorem HoldsRows.passable (hall : ∀ x ∈ t.entries, x.Plain) (hl : t.lookup tag = none) :
    ∀ x ∈ t.entries, x.Passable tag.1 :=
  fun x hx => ⟨fun heq => Table.lookup_eq_none.mp hl x hx (Subtype.ext heq), hall x hx⟩

theorem Records.Reaches.plain (h : t.Reaches tag) (hl : t.lookup tag = none) :
    ∀ x ∈ t.entries, x.Plain :=
  h.resolve_left fun hne => hne hl

/-! ## One call -/

section Step

variable (henv : env.enumSize = 1) (h : HoldsRows env capacity db t)
include henv h

/-- What the queries about a stored tag answer. -/
theorem answers_row (hl : t.lookup tag = some r) :
    dbRead env tag.1 db = some (elementCount r.slot.toNat r.data.length, r.data) ∧
      dbGetType env tag.1 db = some r.slot.toNat ∧
      ∀ data datasize type, dbWrite env tag.1 data datasize type db = some (.dbTagExist, db) := by
  obtain ⟨pre, post, -, rfl, himage, hpass, -⟩ := h.split hl
  exact ⟨dbRead_slot henv himage hpass, dbGetType_slot henv himage hpass,
    fun _ _ _ => dbWrite_found himage hpass⟩

theorem write_row (hl : t.lookup q.row.tag = none) (hall : ∀ x ∈ t.entries, x.Plain)
    (hcap : rowsEnd (t.entries ++ [q.row]) ≤ capacity)
    (hb : rowsEnd (t.entries ++ [q.row]) < 2 ^ 32 - 1) :
    ∃ db', dbWrite env q.tag.1 q.data q.datasize q.type db = some (.dbSuccess, db') ∧
      HoldsRows env capacity db' (t.insert q.row hl) := by
  obtain ⟨db', hdb', himage, -, hlen⟩ := dbWrite_append henv h.image
    (HoldsRows.passable hall hl) rfl q.load_data (h.length.symm ▸ hcap) hb
  refine ⟨db', hdb', himage, ?_, by rw [hlen, h.length]⟩
  intro x hx
  have hentries : (t.insert q.row hl).entries.dropLast = t.entries := List.dropLast_concat
  rw [hentries] at hx
  exact hall x hx

theorem delete_row (hl : t.lookup tag = some r) (hr : r.removed = r.encode.length) :
    ∃ db', dbDelete env tag.1 db = some (.dbSuccess, db') ∧
      HoldsRows env capacity db' (t.erase tag) := by
  obtain ⟨pre, post, hs, rfl, himage, hpass, herase⟩ := h.split hl
  obtain ⟨db', hdb', himage', -, hlen⟩ := dbDelete_whole henv himage hpass hr
  refine ⟨db', hdb', by rw [herase]; exact himage', ?_, by rw [hlen, h.length]⟩
  intro x hx
  rw [herase] at hx
  rcases eq_or_ne post [] with rfl | hpost
  · rw [List.append_nil] at hx
    exact h.plain_before hs x (List.dropLast_subset _ hx)
  · rw [List.dropLast_append_of_ne_nil hpost] at hx
    refine h.plain x ?_
    rw [hs, List.dropLast_append_of_ne_nil (List.cons_ne_nil _ _),
      List.dropLast_cons_of_ne_nil hpost]
    rcases List.mem_append.mp hx with hx | hx
    · exact List.mem_append_left _ hx
    · exact List.mem_append_right _ (List.mem_cons_of_mem _ hx)

/-- **One call.** -/
theorem call_refines (hsafe : c.Safe capacity t) :
    ∃ db', call env db c = some ((t.step c).1, db') ∧ HoldsRows env capacity db' (t.step c).2 := by
  cases c with
  | write q =>
    obtain ⟨hreach, hcap, hb⟩ := hsafe
    simp only [call, Records.step]
    cases hl : t.lookup q.row.tag with
    | some r =>
      rw [Records.write_present hl]
      exact ⟨db, (answers_row henv h hl).2.2 _ _ _, h⟩
    | none =>
      rw [Records.write_absent hl] at hcap hb ⊢
      exact write_row henv h hl (hreach.plain hl) hcap hb
  | delete tag =>
    obtain ⟨hreach, hwhole⟩ := hsafe
    simp only [call, Records.step]
    cases hl : t.lookup tag with
    | some r =>
      rw [Records.delete_present hl]
      exact delete_row henv h hl (hwhole r hl)
    | none =>
      rw [Records.delete_absent hl]
      exact ⟨db, dbDelete_missed h.image (HoldsRows.passable (hreach.plain hl) hl), h⟩

end Step

/-! ## Runs -/

/-- **Runs of safe calls** from a blank memory leave the rows of the table. -/
theorem records_run (henv : env.enumSize = 1)
    (hblank : loadWord db 0 4 = some 0 ∨ loadWord db 0 4 = some 0xFFFFFFFF)
    (hcap : 8 ≤ db.length)
    (hsafe : Along Records.step (Call.Safe db.length) (Table.empty Row.tag) cs) :
    ∃ db', run (call env) db cs =
        some ((exec Records.step (Table.empty Row.tag) cs).1, db') ∧
      HoldsRows env db.length db' (records cs) := by
  have hstep : Refines (call env) Records.step (HoldsRows env db.length) (Call.Safe db.length) :=
    fun _ _ _ h hP => call_refines henv h hP
  refine run_refines hstep ⟨⟨Or.inr ⟨rfl, hblank⟩, at_nil.mpr hcap, by decide, ?_⟩,
    by simp [Table.empty], rfl⟩ hsafe
  intro hw
  rcases hblank with hb | hb <;> rw [hb] at hw <;> cases hw

end MyLibraries.SimpleDb
