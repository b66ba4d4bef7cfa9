import MyLibraries.SimpleDb.Rows

/-!
# The range of the checksum

`db_validate` and `update_db` pass the recorded size less the 8 bytes of the header to the
checksum, as an unsigned number. Of a size below 8, such as that of a blank memory, this
is close to `2 ^ 32`: the checksum asks for bytes behind the database.
-/

namespace MyLibraries.SimpleDb

open Memory

/-- The checksum covers the body of a database of this size: the length that is passed is
the size less the header, and a call over a memory that ends with the database stays in
it. -/
structure CoversBody {α : Type} (size : Nat) (call : Mem → Option α) (db : Mem) : Prop where
  length : crcLength size + 8 = size
  inside : db.length = max 8 size → call db ≠ none

variable {env : Env} {db : Mem} {size : Nat} {crc : List UInt8 → Nat}

theorem crcLength_iff (hsize : size < 2 ^ 32) : crcLength size + 8 = size ↔ 8 ≤ size := by
  simp only [crcLength, wrap]
  omega

theorem dbGetSize_lt (h : dbGetSize db = some size) : size < 2 ^ 32 := by
  obtain ⟨word, hword, hrest⟩ := Option.bind_eq_some_iff.mp h
  have hlt := loadWord_lt hword
  split at hrest <;> cases hrest <;> omega

/-- A memory that ends with its database is validated to the end. -/
theorem dbValidate_inside (hcrc : env.crcFunc = some crc) (hsize : dbGetSize db = some size)
    (h8 : 8 ≤ size) (hmem : db.length = max 8 size) : dbValidate env db ≠ none := by
  have hlen := (crcLength_iff (dbGetSize_lt hsize)).mpr h8
  obtain ⟨stored, hstored⟩ := loadWord_exists (m := db) (p := 4) (k := 4) (by omega)
  obtain ⟨body, hbody⟩ := load_exists (m := db) (p := 8) (n := crcLength size) (by omega)
  simp only [dbValidate, hcrc, hstored, hsize, hbody, Option.bind_eq_bind, some_bind]
  split <;> exact Option.some_ne_none _

theorem updateDb_inside (hcrc : env.crcFunc = some crc) (hsize : size < 2 ^ 32) (h8 : 8 ≤ size)
    (hmem : db.length = max 8 size) : updateDb env size db ≠ none := by
  have hlen := (crcLength_iff hsize).mpr h8
  obtain ⟨db₁, h₁⟩ := store_exists db 0 (leBytes 4 size) (by rw [leBytes_length]; omega)
  have hlen₁ := store_length h₁
  obtain ⟨body, hbody⟩ := load_exists (m := db₁) (p := 8) (n := crcLength size) (by omega)
  obtain ⟨db₂, h₂⟩ := store_exists db₁ 4 (leBytes 4 (wrap 32 (crc body)))
    (by rw [leBytes_length]; omega)
  simp only [updateDb, storeWord, h₁, hcrc, hbody, h₂, Option.bind_eq_bind, some_bind]
  exact Option.some_ne_none _

/-- **The range of the checksum.** Of every image and every installed function,
`db_validate` and `update_db` pass the body of the database exactly when the recorded size
is at least that of the header. -/
theorem checksum_range_iff (env : Env) (crc : List UInt8 → Nat)
    (hcrc : env.crcFunc = some crc) (db : Mem) :
    (∀ size, dbGetSize db = some size →
      (CoversBody size (dbValidate env) db ↔ 8 ≤ size)) ∧
    ∀ size, size < 2 ^ 32 → (CoversBody size (updateDb env size) db ↔ 8 ≤ size) := by
  constructor
  · intro size hsize
    refine ⟨fun h => (crcLength_iff (dbGetSize_lt hsize)).mp h.length, fun h8 => ?_⟩
    exact ⟨(crcLength_iff (dbGetSize_lt hsize)).mpr h8, dbValidate_inside hcrc hsize h8⟩
  · intro size hsize
    refine ⟨fun h => (crcLength_iff hsize).mp h.length, fun h8 => ?_⟩
    exact ⟨(crcLength_iff hsize).mpr h8, updateDb_inside hcrc hsize h8⟩

/-- An image of one byte. -/
theorem checksum_range_one_byte :
    CoversBody 9 (dbValidate ⟨1, some List.length⟩) [9, 0, 0, 0, 1, 0, 0, 0, 7] :=
  ((checksum_range_iff ⟨1, some List.length⟩ List.length rfl [9, 0, 0, 0, 1, 0, 0, 0, 7]).1 9
    (by decide)).mpr (by decide)

/-- A blank memory: the checksum is asked for 4294967288 bytes. -/
theorem blank_validated_beyond :
    dbGetSize (List.replicate 8 0) = some 0 ∧ crcLength 0 = 4294967288 ∧
      ¬CoversBody 0 (dbValidate ⟨1, some List.length⟩) (List.replicate 8 0) ∧
      dbValidate ⟨1, some List.length⟩ (List.replicate 8 0) = none := by
  refine ⟨by decide, by decide, fun h => ?_, by decide +kernel⟩
  exact absurd h.length (by decide)

/-! ## A size below that of the header -/

theorem crcLength_wrapped (hsize : size < 8) : crcLength size = 2 ^ 32 - 8 + size := by
  simp only [crcLength, wrap]
  omega

/-- No memory of less than 4 GiB has the bytes that the checksum of such a size asks for. -/
theorem dbValidate_beyond (hcrc : env.crcFunc = some crc) (hsize : dbGetSize db = some size)
    (h8 : size < 8) (hmem : db.length < 2 ^ 32) : dbValidate env db = none := by
  have hload : load db 8 (crcLength size) = none := by
    refine if_neg ?_
    rw [crcLength_wrapped h8]
    omega
  simp only [dbValidate, hcrc, hsize, hload, Option.bind_eq_bind, some_bind, Option.bind_none,
    Option.bind_fun_none]

end MyLibraries.SimpleDb
