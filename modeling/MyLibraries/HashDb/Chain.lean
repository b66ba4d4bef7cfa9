import Mathlib.Algebra.GroupWithZero.Nat
import MyLibraries.Core.Table
import MyLibraries.HashDb.Model

/-!
# The chain of entries of a `HashDB`

`Holds m t` says that the memory `m` is a used-size word and, from byte 8 on, the chain of
the entries of the table `t`, which fills the used part exactly. The scan walks that chain
and stops on one of its boundaries (`scan_present`, `scan_absent`); from this come the
outcomes of `read_int` and `write_int`. A write of a name that is present replaces its
entry when the size is the stored one; no other write into the chain keeps it a chain.
-/

namespace MyLibraries.HashDb

open Memory

/-- A call of `write_int`: a name hash and the bytes of the data, fewer than `2 ^ 32`. -/
structure Entry where
  hash : UInt32
  data : List UInt8
  small : data.length < 2 ^ 32

def Entry.encode (e : Entry) : List UInt8 :=
  leBytes 4 e.hash.toNat ++ leBytes 4 e.data.length ++ e.data

/-- The entries in the order of the chain, under distinct hashes. -/
abbrev Entries := Table Entry.hash

/-- The bytes of a chain. -/
def encode (es : List Entry) : List UInt8 := es.flatMap Entry.encode

/-- The bytes in use with these entries. -/
def usedSize (es : List Entry) : Nat := 8 + (encode es).length

structure Holds (m : Mem) (t : Entries) : Prop where
  used : getUsedSize m = some (usedSize t.entries)
  chain : At m 8 (encode t.entries)
  small : m.length < 2 ^ 32

variable {m m' : Mem} {t : Entries} {e x : Entry} {pre post es : List Entry} {h : UInt32}
  {p fuel dbSize sizeBits size : Nat} {data : List UInt8}

theorem Entry.encode_length (e : Entry) : e.encode.length = 8 + e.data.length := by
  simp only [Entry.encode, List.length_append, leBytes_length]

@[simp] theorem encode_nil : encode [] = [] := rfl

@[simp] theorem encode_cons : encode (e :: es) = e.encode ++ encode es := rfl

@[simp] theorem encode_append : encode (pre ++ post) = encode pre ++ encode post := by
  simp [encode]

theorem usedSize_eq_sum (es : List Entry) :
    usedSize es = 8 + (es.map fun e => 8 + e.data.length).sum := by
  induction es with
  | nil => rfl
  | cons e es ih =>
    have := e.encode_length
    simp only [usedSize, encode_cons, List.length_append, List.map_cons, List.sum_cons] at ih ⊢
    omega

theorem length_le_encode (es : List Entry) : es.length ≤ (encode es).length := by
  induction es with
  | nil => simp
  | cons e es ih =>
    have := e.encode_length
    simp only [List.length_cons, encode_cons, List.length_append]
    omega

theorem hash_lt (h : UInt32) : h.toNat < 256 ^ 4 := by
  have := h.toNat_lt
  omega

/-! ## The scan -/

theorem at_entry (hat : At m p e.encode) :
    loadWord m p 4 = some e.hash.toNat ∧ loadWord m (p + 4) 4 = some e.data.length ∧
      At m (p + 8) e.data := by
  have hsmall := e.small
  simp only [Entry.encode, at_append, List.length_append, leBytes_length] at hat
  obtain ⟨⟨hhash, hsize⟩, hdata⟩ := hat
  exact ⟨loadWord_of_at hhash (hash_lt _), loadWord_of_at hsize (by omega), hdata⟩

/-- One round of the scan. -/
theorem scanLoop_entry (hat : At m p e.encode) (hp : p + e.encode.length ≤ dbSize)
    (hsize : dbSize < 2 ^ 32) :
    scanLoop h dbSize m (fuel + 1) p =
      if e.hash = h then some (p, true)
      else scanLoop h dbSize m fuel (p + e.encode.length) := by
  have hlen := e.encode_length
  obtain ⟨hhash, hword, -⟩ := at_entry hat
  have hnext : wrap 32 (p + (8 + e.data.length)) = p + e.encode.length := by
    rw [wrap_of_lt (by omega), hlen]
  rw [scanLoop, if_pos (by omega)]
  simp only [hhash, hword, Option.bind_eq_bind, some_bind, hnext, UInt32.toNat_inj]

/-- The scan passes the entries that have other hashes. -/
theorem scanLoop_skip (hat : At m p (encode pre)) (hp : p + (encode pre).length ≤ dbSize)
    (hsize : dbSize < 2 ^ 32) (hne : ∀ x ∈ pre, x.hash ≠ h) :
    scanLoop h dbSize m (fuel + pre.length) p =
      scanLoop h dbSize m fuel (p + (encode pre).length) := by
  induction pre generalizing p with
  | nil => rfl
  | cons e pre ih =>
    simp only [encode_cons, at_append, List.length_append] at hat hp
    rw [List.length_cons, ← Nat.add_assoc, scanLoop_entry hat.1 (by omega) hsize,
      if_neg (hne e List.mem_cons_self), ih hat.2 (by omega)
        (fun x hx => hne x (List.mem_cons_of_mem _ hx)), encode_cons, List.length_append,
      Nat.add_assoc]

theorem usedSize_le (hh : Holds m t) : usedSize t.entries ≤ m.length := at_bound hh.chain

/-- The scan stops at the entry with the hash. -/
theorem scan_present (hh : Holds m t) (hs : t.entries = pre ++ e :: post)
    (hne : ∀ x ∈ pre, x.hash ≠ e.hash) :
    scan e.hash m = some (8 + (encode pre).length, true) := by
  have hle := usedSize_le hh
  have hsmall := hh.small
  have hat := hh.chain
  have hlen := length_le_encode pre
  have hentry := e.encode_length
  rw [hs] at hle
  simp only [usedSize, hs, encode_append, encode_cons, at_append, List.length_append] at hat hle
  obtain ⟨fuel, hfuel⟩ : ∃ fuel, 2 ^ 32 = fuel + 1 + pre.length :=
    ⟨2 ^ 32 - 1 - pre.length, by omega⟩
  rw [scan, hh.used, hs]
  simp only [Option.bind_eq_bind, some_bind, usedSize, encode_append, encode_cons,
    List.length_append]
  rw [hfuel, scanLoop_skip hat.1 (by omega) (by omega) hne,
    scanLoop_entry hat.2.1 (by omega) (by omega), if_pos rfl]

/-- A hash that no entry has takes the scan to the end of the used part. -/
theorem scan_absent (hh : Holds m t) (hne : ∀ x ∈ t.entries, x.hash ≠ h) :
    scan h m = some (usedSize t.entries, false) := by
  have hle := usedSize_le hh
  have hsmall := hh.small
  have hlen := length_le_encode t.entries
  simp only [usedSize] at hle
  obtain ⟨fuel, hfuel⟩ : ∃ fuel, 2 ^ 32 = fuel + 1 + t.entries.length :=
    ⟨2 ^ 32 - 1 - t.entries.length, by omega⟩
  rw [scan, hh.used]
  simp only [Option.bind_eq_bind, some_bind, usedSize]
  rw [hfuel, scanLoop_skip hh.chain (by omega) (by omega) hne, scanLoop,
    if_neg (Nat.lt_irrefl _)]

/-! ## Reading -/

theorem readInt_absent (hh : Holds m t) (hl : t.lookup h = none) :
    readInt h size m = some (.enoent, []) := by
  simp [readInt, scan_absent hh (Table.lookup_eq_none.mp hl)]

theorem readInt_present (hh : Holds m t) (hl : t.lookup h = some e) :
    readInt h size m =
      some (if e.data.length = size then (.success, e.data) else (.einval, [])) := by
  obtain ⟨pre, post, hs, rfl, hpre, -⟩ := Table.lookup_split hl
  have hat := hh.chain
  simp only [hs, encode_append, encode_cons, at_append] at hat
  obtain ⟨-, hword, hdata⟩ := at_entry hat.2.1
  simp only [readInt, scan_present hh hs hpre, Option.bind_eq_bind, some_bind, if_true, hword]
  by_cases hsize : e.data.length = size
  · subst hsize
    have hload := load_of_at hdata rfl
    simp only [ne_eq, not_true_eq_false, if_false, hload, some_bind, if_true]
  · simp only [ne_eq, hsize, not_false_eq_true, if_true, if_false]

/-! ## Writing -/

/-- The stores of an entry are one store of its encoding. -/
theorem writeInt_stores (hst : store m p e.encode = some m') :
    ∃ m₁ m₂, storeWord m p 4 e.hash.toNat = some m₁ ∧
      storeWord m₁ (p + 4) 4 e.data.length = some m₂ ∧ store m₂ (p + 8) e.data = some m' := by
  rw [Entry.encode, store_append] at hst
  obtain ⟨m₂, h₂, hdata⟩ := Option.bind_eq_some_iff.mp hst
  rw [store_append] at h₂
  obtain ⟨m₁, h₁, hsize⟩ := Option.bind_eq_some_iff.mp h₂
  simp only [List.length_append, leBytes_length] at hdata hsize
  exact ⟨m₁, m₂, h₁, hsize, hdata⟩

/-- What a write can do: the space check refuses it, and nothing changes; or the check lets
it pass, and the entry lies in the block from where the scan stopped. -/
theorem writeInt_cases {status : Status}
    (hw : writeInt sizeBits h data m = some (status, m')) :
    ∃ offset found used, scan h m = some (offset, found) ∧ getUsedSize m = some used ∧
      (m.length < wrap sizeBits (used + 8 + data.length) ∧ status = .enospc ∧ m' = m ∨
        ¬m.length < wrap sizeBits (used + 8 + data.length) ∧ status = .success ∧
          offset + 8 + data.length ≤ m.length) := by
  unfold writeInt at hw
  obtain ⟨⟨offset, found⟩, hscan, hw⟩ := Option.bind_eq_some_iff.mp hw
  obtain ⟨used, hused, hw⟩ := Option.bind_eq_some_iff.mp hw
  refine ⟨offset, found, used, hscan, hused, ?_⟩
  split at hw
  · rename_i hroom
    cases hw
    exact Or.inl ⟨hroom, rfl, rfl⟩
  · rename_i hpass
    obtain ⟨m₁, h₁, hw⟩ := Option.bind_eq_some_iff.mp hw
    obtain ⟨m₂, h₂, hw⟩ := Option.bind_eq_some_iff.mp hw
    obtain ⟨m₃, h₃, hw⟩ := Option.bind_eq_some_iff.mp hw
    have hbound := store_bound h₃
    rw [store_length h₂, store_length h₁] at hbound
    refine Or.inr ⟨hpass, ?_, hbound⟩
    split at hw
    · cases hw
      rfl
    · obtain ⟨used₃, -, hw⟩ := Option.bind_eq_some_iff.mp hw
      obtain ⟨m₄, -, hw⟩ := Option.bind_eq_some_iff.mp hw
      cases hw
      rfl

/-- A write that the space check refuses changes nothing, whatever its name. -/
theorem writeInt_full (hh : Holds m t)
    (hroom : m.length < wrap sizeBits (usedSize t.entries + 8 + e.data.length)) :
    writeInt sizeBits e.hash e.data m = some (.enospc, m) := by
  obtain ⟨offset, found, hscan⟩ : ∃ offset found, scan e.hash m = some (offset, found) := by
    cases hl : t.lookup e.hash with
    | none => exact ⟨_, _, scan_absent hh (Table.lookup_eq_none.mp hl)⟩
    | some x =>
      obtain ⟨pre, post, hs, hx, hpre, -⟩ := Table.lookup_split hl
      exact ⟨_, _, hx ▸ scan_present hh hs (hx ▸ hpre)⟩
  simp only [writeInt, hscan, hh.used, Option.bind_eq_bind, some_bind]
  rw [if_pos hroom]

/-- A new name is appended to the chain. -/
theorem writeInt_insert (sizeBits : Nat) (hh : Holds m t)
    (hroom : usedSize t.entries + 8 + e.data.length ≤ m.length) (hl : t.lookup e.hash = none) :
    ∃ m', writeInt sizeBits e.hash e.data m = some (.success, m') ∧ Holds m' (t.insert e hl) ∧
      m'.length = m.length := by
  have hlen := e.encode_length
  have hsmall := hh.small
  have hpos : 8 ≤ usedSize t.entries := Nat.le_add_right _ _
  have hpass : wrap sizeBits (usedSize t.entries + 8 + e.data.length) ≤ m.length :=
    Nat.le_trans (Nat.mod_le _ _) hroom
  obtain ⟨m₃, h₃⟩ := store_exists m (usedSize t.entries) e.encode (by omega)
  obtain ⟨m₁, m₂, h₁, h₂, hdata⟩ := writeInt_stores h₃
  have hlen₃ := store_length h₃
  have hused₃ : getUsedSize m₃ = some (usedSize t.entries) := by
    have hword := (at_store_frame h₃ (Or.inl (by rw [leBytes_length]; omega))).mpr
      (at_of_loadWord hh.used)
    exact loadWord_of_at hword (by omega)
  have hsum : usedSize t.entries + (8 + e.data.length) = usedSize (t.entries ++ [e]) := by
    simp only [usedSize, encode_append, encode_cons, encode_nil, List.append_nil,
      List.length_append]
    omega
  obtain ⟨m', hm'⟩ := store_exists m₃ 4 (leBytes 4 (usedSize t.entries + (8 + e.data.length)))
    (by rw [leBytes_length]; omega)
  have hheader : storeWord m₃ 4 4 (usedSize t.entries + (8 + e.data.length)) = some m' := hm'
  refine ⟨m', ?_, ⟨?_, ?_, ?_⟩, ?_⟩
  · simp only [writeInt, scan_absent hh (Table.lookup_eq_none.mp hl), hh.used,
      Option.bind_eq_bind, some_bind]
    rw [if_neg (Nat.not_lt.mpr hpass)]
    simp only [h₁, some_bind, h₂, hdata, Bool.false_eq_true, if_false, hused₃, hheader]
  · change getUsedSize m' = some (usedSize (t.entries ++ [e]))
    rw [hsum] at hm'
    exact loadWord_of_at (at_of_store hm') (by omega)
  · refine (at_store_frame hm' (Or.inr (by rw [leBytes_length]))).mpr ?_
    change At m₃ 8 (encode (t.entries ++ [e]))
    rw [encode_append, at_append]
    refine ⟨(at_store_frame h₃ (Or.inl (Nat.le_refl _))).mpr hh.chain, ?_⟩
    simpa [usedSize] using at_of_store h₃
  · rw [store_length hm', hlen₃]
    exact hsmall
  · rw [store_length hm', hlen₃]

/-- A present name of the same size is overwritten in its place. -/
theorem writeInt_replace (sizeBits : Nat) (hh : Holds m t)
    (hpass : wrap sizeBits (usedSize t.entries + 8 + e.data.length) ≤ m.length)
    (hl : t.lookup e.hash = some x) (hsame : x.data.length = e.data.length) :
    ∃ m', writeInt sizeBits e.hash e.data m = some (.success, m') ∧ Holds m' (t.replace e) ∧
      m'.length = m.length := by
  obtain ⟨pre, post, hs, hx, hpre, hpost⟩ := Table.lookup_split hl
  have hlen : e.encode.length = x.encode.length := by
    rw [e.encode_length, x.encode_length, hsame]
  have hat := hh.chain
  have hle := usedSize_le hh
  simp only [usedSize, hs, encode_append, encode_cons, at_append, List.length_append] at hat hle
  obtain ⟨hatPre, -, hatPost⟩ := hat
  obtain ⟨m', h'⟩ := store_exists m (8 + (encode pre).length) e.encode (by omega)
  obtain ⟨m₁, m₂, h₁, h₂, hdata⟩ := writeInt_stores h'
  have hentries : (t.replace e).entries = pre ++ e :: post :=
    Table.replace_entries hs hx hpre hpost
  refine ⟨m', ?_, ⟨?_, ?_, ?_⟩, store_length h'⟩
  · simp only [writeInt, hx ▸ scan_present hh hs (hx ▸ hpre), hh.used, Option.bind_eq_bind,
      some_bind]
    rw [if_neg (Nat.not_lt.mpr hpass)]
    simp only [h₁, some_bind, h₂, hdata, if_true]
  · have hsize : usedSize (t.replace e).entries = usedSize t.entries := by
      simp only [usedSize, hentries, hs, encode_append, encode_cons, List.length_append, hlen]
    rw [hsize]
    have hword := (at_store_frame h' (Or.inl (by rw [leBytes_length]; omega))).mpr
      (at_of_loadWord hh.used)
    have := loadWord_lt hh.used
    exact loadWord_of_at hword this
  · rw [hentries]
    simp only [encode_append, encode_cons, at_append]
    refine ⟨(at_store_frame h' (Or.inl (Nat.le_refl _))).mpr hatPre, at_of_store h', ?_⟩
    rw [hlen]
    exact (at_store_frame h' (Or.inr (by omega))).mpr hatPost
  · rw [store_length h']
    exact hh.small

theorem initializeDatabase_holds (hsize : 8 ≤ m.length) (hsmall : m.length < 2 ^ 32) :
    ∃ m', initializeDatabase h m = some m' ∧ Holds m' (Table.empty Entry.hash) ∧
      m'.length = m.length := by
  obtain ⟨m₁, h₁⟩ := store_exists m 0 (leBytes 4 h.toNat) (by rw [leBytes_length]; omega)
  have hlen₁ := store_length h₁
  obtain ⟨m', h'⟩ := store_exists m₁ 4 (leBytes 4 8) (by rw [leBytes_length]; omega)
  have hlen' := store_length h'
  refine ⟨m', ?_, ⟨?_, at_nil.mpr (by omega), by omega⟩, by omega⟩
  · simp only [initializeDatabase, storeWord, h₁, Option.bind_eq_bind, some_bind, h']
  · exact loadWord_of_at (at_of_store h') (by decide)

/-- A block that was initialized has room for the header, and no entries. -/
theorem initializeDatabase_inv (hsmall : m.length < 2 ^ 32)
    (hinit : initializeDatabase h m = some m') :
    8 ≤ m.length ∧ Holds m' (Table.empty Entry.hash) ∧ m'.length = m.length := by
  have hmin : 8 ≤ m.length := by
    obtain ⟨m₁, h₁, h₂⟩ := Option.bind_eq_some_iff.mp hinit
    have hbound := at_bound (at_of_store h₂)
    rw [leBytes_length, store_length h₂, store_length h₁] at hbound
    exact hbound
  obtain ⟨m₁, hm₁, hholds, hlen⟩ := initializeDatabase_holds (h := h) hmin hsmall
  obtain rfl : m' = m₁ := Option.some.inj (hinit.symm.trans hm₁)
  exact ⟨hmin, hholds, hlen⟩

end MyLibraries.HashDb
