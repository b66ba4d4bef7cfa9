import MyLibraries.Crc.Crc32
import MyLibraries.SimpleDb.Store

/-!
# Damaged databases

With `crc32` assigned by `db_init`, `db_validate` accepts what the calls have left, and of
memories that came out of it by a burst of up to 32 wrong bits, in the checksum or behind it,
exactly those whose damage is behind the last entry (`validate_damaged`).
-/

namespace MyLibraries.SimpleDb

open Memory Run Crc

/-- The database with `crc32`, and a type field of one byte. -/
def crc32Env : Env := ⟨1, some fun body => (crc32 body).toNat⟩

/-- All bits that are wrong in `bad` are among `width` ones from `start` on. -/
def Burst (m bad : Mem) (start width : Nat) : Prop :=
  ∀ i, (bits bad)[i]? ≠ (bits m)[i]? → start ≤ i ∧ i < start + width

variable {m bad : Mem} {db : Mem} {es : List Entry} {start width : Nat}

/-! ## Where the wrong bits are -/

theorem bits_append (a b : List UInt8) : bits (a ++ b) = bits a ++ bits b := by
  rw [bits, List.flatMap_append]
  rfl

theorem bits_drop (m : Mem) (k : Nat) : bits (m.drop k) = (bits m).drop (8 * k) := by
  by_cases hk : k ≤ m.length
  · have hlen : (bits (m.take k)).length = 8 * k := by
      rw [length_bits, List.length_take, Nat.min_eq_left hk]
    conv_rhs => rw [← List.take_append_drop k m, bits_append]
    rw [← hlen, List.drop_left]
  · rw [List.drop_eq_nil_of_le (by omega), List.drop_eq_nil_of_le (by rw [length_bits]; omega)]
    rfl

theorem bits_take (m : Mem) (k : Nat) : bits (m.take k) = (bits m).take (8 * k) := by
  by_cases hk : k ≤ m.length
  · have hlen : (bits (m.take k)).length = 8 * k := by
      rw [length_bits, List.length_take, Nat.min_eq_left hk]
    conv_rhs => rw [← List.take_append_drop k m, bits_append]
    rw [← hlen, List.take_left]
  · rw [List.take_of_length_le (by omega), List.take_of_length_le (by rw [length_bits]; omega)]

/-- The bits of a part of the memory. -/
theorem bits_part (m : Mem) {p n i : Nat} (hi : i < 8 * n) :
    (bits ((m.drop p).take n))[i]? = (bits m)[8 * p + i]? := by
  rw [bits_take, List.getElem?_take_of_lt hi, bits_drop, List.getElem?_drop]

/-- A part of the memory that the burst does not reach. -/
theorem Burst.part_eq (h : Burst m bad start width) {p n : Nat}
    (hout : 8 * (p + n) ≤ start ∨ start + width ≤ 8 * p) :
    (bad.drop p).take n = (m.drop p).take n := by
  apply bits_injective
  apply List.ext_getElem?
  intro i
  by_cases hi : i < 8 * n
  · rw [bits_part bad hi, bits_part m hi]
    by_contra hne
    have hwindow := h (8 * p + i) hne
    omega
  · rw [bits_take, bits_take, List.getElem?_eq_none (by rw [List.length_take]; omega),
      List.getElem?_eq_none (by rw [List.length_take]; omega)]

/-- The burst, seen in a part behind its beginning. -/
theorem Burst.part (h : Burst m bad start width) {p n : Nat} (hp : 8 * p ≤ start) :
    Burst ((m.drop p).take n) ((bad.drop p).take n) (start - 8 * p) width := by
  intro i hi
  by_cases hin : i < 8 * n
  · rw [bits_part bad hin, bits_part m hin] at hi
    have hwindow := h (8 * p + i) hi
    omega
  · refine absurd ?_ hi
    rw [bits_take, bits_take, List.getElem?_eq_none (by rw [List.length_take]; omega),
      List.getElem?_eq_none (by rw [List.length_take]; omega)]

/-! ## What is read of a damaged database -/

theorem load_eq (hlen : bad.length = m.length) {p n : Nat}
    (h : (bad.drop p).take n = (m.drop p).take n) : load bad p n = load m p n := by
  unfold load
  rw [hlen, h]

theorem Burst.load_eq (h : Burst m bad start width) (hlen : bad.length = m.length) {p n : Nat}
    (hout : 8 * (p + n) ≤ start ∨ start + width ≤ 8 * p) : load bad p n = load m p n :=
  SimpleDb.load_eq hlen (h.part_eq hout)

/-- The checksum tells byte strings apart whose difference is a burst of up to 32 bits. -/
theorem crc32_ne_of_burst {a b : List UInt8} (hlen : b.length = a.length) (hne : b ≠ a)
    (h : Burst a b start 32) : crc32 b ≠ crc32 a := by
  intro heq
  rw [crc32_eq, crc32_eq, BitVec.xor_left_inj] at heq
  have hbits : (bits b).length = (bits a).length := by rw [length_bits, length_bits, hlen]
  exact Feedback.feed_window poly (by decide) hbits (fun h' => hne (bits_injective h')) start h
    0#32 heq

theorem crc32_toNat_inj {a b : List UInt8} : (crc32 b).toNat = (crc32 a).toNat ↔
    crc32 b = crc32 a :=
  ⟨fun h => BitVec.eq_of_toNat_eq h, fun h => by rw [h]⟩

theorem wrap_crc32 (body : List UInt8) : wrap 32 (crc32 body).toNat = (crc32 body).toNat :=
  wrap_of_lt (crc32 body).isLt

theorem load_some {p n : Nat} (h : p + n ≤ m.length) : load m p n = some ((m.drop p).take n) :=
  if_pos h

theorem loadWord_inj {p k : Nat} (h : p + k ≤ m.length) (hlen : bad.length = m.length) :
    loadWord bad p k = loadWord m p k ↔ (bad.drop p).take k = (m.drop p).take k := by
  refine ⟨fun heq => ?_, fun heq => by rw [loadWord, loadWord, load_eq hlen heq]⟩
  rw [loadWord, loadWord, load_some h, load_some (hlen ▸ h), Option.map_some, Option.map_some,
    Option.some.injEq] at heq
  have hk : ((m.drop p).take k).length = k := by
    rw [List.length_take, List.length_drop]
    omega
  have hk' : ((bad.drop p).take k).length = k := by
    rw [List.length_take, List.length_drop]
    omega
  rw [← leBytes_ofLe ((bad.drop p).take k), ← leBytes_ofLe ((m.drop p).take k), heq, hk, hk']

/-- The image of a database is its size, its checksum and its entries. -/
theorem take_image (m : Mem) (n : Nat) : m.take (8 + n) =
    (m.drop 0).take 4 ++ ((m.drop 4).take 4 ++ (m.drop 8).take n) := by
  rw [List.drop_zero, show 8 + n = 4 + (4 + n) from by omega, List.take_add, List.take_add,
    List.drop_drop]

/-- **One damaged image.** What `db_validate` answers about it. -/
theorem validate_damaged_image (h : Image crc32Env db es)
    (hw : loadWord db 0 4 = some (imageSize es)) (hlen : bad.length = db.length)
    (hb : Burst db bad start 32) (hwhere : start = 32 ∨ 64 ≤ start) :
    dbValidate crc32Env bad = some (if bad.take (imageSize es) = db.take (imageSize es)
      then .dbSuccess else .dbWrongCRC) := by
  have hbound := h.bound
  have hin : 8 + (encode es).length ≤ db.length := at_bound h.body
  have hbody : (db.drop 8).take (encode es).length = encode es := by
    have := load_of_at h.body rfl
    rwa [load_some hin, Option.some.injEq] at this
  have hcrc : loadWord db 4 4 = some (crc32 (encode es)).toNat := by
    rw [h.checksum hw _ rfl, wrap_crc32]
  have hsize : dbGetSize bad = some (imageSize es) := by
    have hword : loadWord bad 0 4 = loadWord db 0 4 := by
      rw [loadWord, loadWord, hb.load_eq hlen (by omega)]
    simp only [dbGetSize, hword, hw, Option.bind_eq_bind, some_bind]
    rw [if_neg (by omega)]
  obtain ⟨stored, hstored⟩ : ∃ stored, loadWord bad 4 4 = some stored :=
    loadWord_exists (by omega)
  have hvalid : dbValidate crc32Env bad = some (if stored =
      (crc32 ((bad.drop 8).take (encode es).length)).toNat then .dbSuccess else .dbWrongCRC) := by
    simp only [dbValidate, crc32Env, hsize, hstored, crcLength_imageSize hbound,
      load_some (m := bad) (p := 8) (n := (encode es).length) (by omega), wrap_crc32,
      Option.bind_eq_bind, some_bind]
    split <;> rfl
  have hhead : (bad.drop 0).take 4 = (db.drop 0).take 4 := hb.part_eq (by omega)
  have hwordIff := loadWord_inj (m := db) (p := 4) (k := 4) (by omega) hlen
  rw [hstored, hcrc, Option.some.injEq] at hwordIff
  have hiff : stored = (crc32 ((bad.drop 8).take (encode es).length)).toNat ↔
      bad.take (imageSize es) = db.take (imageSize es) := by
    rw [imageSize, take_image, take_image, hhead, List.append_cancel_left_eq, hbody]
    rcases hwhere with rfl | hstart
    · -- the checksum is hit, and what it belongs to is as it was
      have hrest : (bad.drop 8).take (encode es).length = (db.drop 8).take (encode es).length :=
        hb.part_eq (by omega)
      rw [hrest, hbody, List.append_cancel_right_eq, hwordIff]
    · -- the entries are hit, and the checksum is as it was
      have hword : (bad.drop 4).take 4 = (db.drop 4).take 4 := hb.part_eq (by omega)
      have hpart := hb.part (p := 8) (n := (encode es).length) (by omega)
      rw [hbody] at hpart
      rw [hwordIff.mpr hword, hword, List.append_cancel_left_eq]
      refine ⟨fun heq => ?_, fun heq => by rw [heq]⟩
      by_contra hne
      refine crc32_ne_of_burst ?_ hne hpart (crc32_toNat_inj.mp heq.symm)
      rw [List.length_take, List.length_drop]
      omega
  rw [hvalid]
  simp only [hiff]

/-! ## Runs -/

/-- A blank memory holds the empty table. -/
theorem holds_empty (hblank : loadWord db 0 4 = some 0 ∨ loadWord db 0 4 = some 0xFFFFFFFF)
    (hlen : 8 ≤ db.length) : Holds crc32Env db.length db (Table.empty Entry.tag) := by
  refine ⟨⟨Or.inr ⟨rfl, hblank⟩, at_nil.mpr hlen, by decide, fun hw => ?_⟩,
    by simp [Named, Table.empty], by simp [Table.empty], rfl⟩
  rcases hblank with hb | hb <;> rw [hb] at hw <;> cases hw

/-- A memory that agrees with an image up to its end is that image. -/
theorem Image.of_take (h : Image crc32Env db es) (hw : loadWord db 0 4 = some (imageSize es))
    (hlen : bad.length = db.length) (htake : bad.take (imageSize es) = db.take (imageSize es)) :
    Image crc32Env bad es := by
  have hbyte : ∀ i, i < imageSize es → bad[i]? = db[i]? := by
    intro i hi
    rw [← List.getElem?_take_of_lt hi, htake, List.getElem?_take_of_lt hi]
  have hload : ∀ p n, p + n ≤ imageSize es → load bad p n = load db p n :=
    fun p n hp => load_congr hlen fun i _ hi => hbyte i (by omega)
  have hsize : imageSize es = 8 + (encode es).length := rfl
  have hhead : loadWord bad 0 4 = some (imageSize es) := by
    rw [loadWord, hload 0 4 (by omega)]
    exact hw
  refine ⟨Or.inl hhead, ?_, h.bound, fun _ crc hcrc => ?_⟩
  · rw [At, hload 8 _ (by omega)]
    exact h.body
  · rw [loadWord, hload 4 4 (by omega)]
    exact h.checksum hw crc hcrc

/-- **Damage to a database.** From a blank memory, after any run of calls whose images fit it,
once a header has been written: a burst of up to 32 wrong bits in the checksum or behind it is
found by `db_validate` exactly when it reaches the entries, and what is accepted answers every
query from what was written last. -/
theorem validate_damaged (db : Mem)
    (hblank : loadWord db 0 4 = some 0 ∨ loadWord db 0 4 = some 0xFFFFFFFF)
    (ops : List Op) (hok : ∀ op ∈ ops, op.Ok)
    (hfit : ∀ pre, pre <+: ops → imageSize (contents pre).entries ≤ db.length ∧
      imageSize (contents pre).entries < 2 ^ 32 - 1) :
    ∃ db', run (apply crc32Env) db ops =
        some ((exec Store.step (Table.empty Entry.tag) ops).1, db') ∧
      (loadWord db' 0 4 = some (imageSize (contents ops).entries) →
        ∀ bad start, bad.length = db'.length → Burst db' bad start 32 →
          start = 32 ∨ 64 ≤ start →
          dbValidate crc32Env bad = some (
            if bad.take (imageSize (contents ops).entries) =
              db'.take (imageSize (contents ops).entries) then .dbSuccess else .dbWrongCRC) ∧
          (dbValidate crc32Env bad = some .dbSuccess →
            ∀ tag, Answers crc32Env bad tag (lastWritten tag none ops))) := by
  let P : Store → Op → Prop := fun t op => op.Ok ∧
    imageSize (t.step op).2.entries ≤ db.length ∧
    imageSize (t.step op).2.entries < 2 ^ 32 - 1
  have hstep : Refines (apply crc32Env) Store.step (Holds crc32Env db.length) P :=
    fun _ _ _ h hP => apply_refines rfl h hP.1 hP.2.1 hP.2.2
  have halong : Along Store.step P (Table.empty Entry.tag) ops := by
    apply along_of_forall_initial
    intro pre op hp
    have hfit' := hfit (pre ++ [op]) hp
    simp only [contents, exec_append, exec_cons, exec_nil] at hfit'
    exact ⟨hok op (hp.subset (by simp)), hfit'⟩
  obtain ⟨db', hrun, hh⟩ :=
    run_refines hstep (holds_empty hblank (hfit [] List.nil_prefix).1) halong
  change Holds crc32Env db.length db' (contents ops) at hh
  refine ⟨db', hrun, fun hw bad start hlen hb hwhere => ?_⟩
  have hvalid := validate_damaged_image hh.image hw hlen hb hwhere
  refine ⟨hvalid, fun hsuccess tag => ?_⟩
  have htake : bad.take (imageSize (contents ops).entries) =
      db'.take (imageSize (contents ops).entries) := by
    by_contra hne
    rw [hvalid, if_neg hne] at hsuccess
    cases hsuccess
  have himage := hh.image.of_take hw hlen htake
  rw [← lookup_contents]
  exact answers_lookup rfl ⟨himage, hh.named, hh.bytes, rfl⟩ tag

/-- Both bytes of the only entry are wrong, and the checksum tells. -/
theorem validate_damaged_entry :
    dbValidate crc32Env
      [15, 0, 0, 0, 76, 87, 16, 246, 65, 0, 0, 2, 0, 6, 9, 0, 0, 0, 0, 0] =
        some .dbWrongCRC := by
  let e : Entry := ⟨⟨[65], by decide⟩, .dbText, [7, 8], by decide⟩
  obtain ⟨db', hrun, hdamaged⟩ := validate_damaged (List.replicate 20 0) (Or.inl (by decide))
    [.write e] (by simp [Op.Ok, e])
    (by
      intro pre hpre
      simp only [List.prefix_cons_iff, List.prefix_nil] at hpre
      rcases hpre with rfl | ⟨_, rfl, rfl⟩ <;> decide)
  have hdb : run (apply crc32Env) (List.replicate 20 0) [.write e] = some ([.dbSuccess],
      [15, 0, 0, 0, 76, 87, 16, 246, 65, 0, 0, 2, 0, 7, 8, 0, 0, 0, 0, 0]) := by
    decide +kernel
  rw [hdb, Option.some.injEq, Prod.mk.injEq] at hrun
  obtain ⟨-, rfl⟩ := hrun
  have hburst : Burst [15, 0, 0, 0, 76, 87, 16, 246, 65, 0, 0, 2, 0, 7, 8, 0, 0, 0, 0, 0]
      [15, 0, 0, 0, 76, 87, 16, 246, 65, 0, 0, 2, 0, 6, 9, 0, 0, 0, 0, 0] 104 32 := by
    intro i hi
    exact differ_in_window (by decide) (by decide +kernel) i hi
  have hvalid := (hdamaged (by decide) _ 104 (by decide) hburst (Or.inr (by decide))).1
  rw [hvalid, if_neg (by decide)]

end MyLibraries.SimpleDb
