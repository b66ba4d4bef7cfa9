import Mathlib.Algebra.BigOperators.Group.Finset.Basic
import MyLibraries.Core.Run
import MyLibraries.HashDb.Chain

/-!
# `HashDB` is a finite map

The map that a `HashDB` of `maxSize` bytes stands for: a table of entries in which a write
is refused when one more entry of its size would not fit, replaces the entry of its name,
and is otherwise appended. `writeCall_refines` says that `write_int` does this as long as
a name keeps its size; `finite_map` follows it along a run. The memory below has length
`max_size_`, so a run that does not fault has touched nothing beyond.

What a run has written is read off its log, the calls with their results.
-/

namespace MyLibraries.HashDb

open Memory Run

/-- One call of `write_int`. -/
def writeCall (sizeBits : Nat) (m : Mem) (e : Entry) : Option (Status × Mem) :=
  writeInt sizeBits e.hash e.data m

/-- One write of the map. -/
def mapStep (maxSize : Nat) (t : Entries) (e : Entry) : Status × Entries :=
  if maxSize < usedSize t.entries + 8 + e.data.length then (.enospc, t)
  else
    match h : t.lookup e.hash with
    | some _ => (.success, t.replace e)
    | none => (.success, t.insert e h)

/-- The map after a run of writes. -/
def contents (maxSize : Nat) (ops : List Entry) : Entries :=
  (exec (mapStep maxSize) (Table.empty Entry.hash) ops).2

/-- The writes of a run with their results. -/
def mapLog (maxSize : Nat) (ops : List Entry) : List (Entry × Status) :=
  ops.zip (exec (mapStep maxSize) (Table.empty Entry.hash) ops).1

/-- The bytes of the last successful write of a name. -/
def lastSuccess (h : UInt32) : Option (List UInt8) → List (Entry × Status) → Option (List UInt8)
  | last, [] => last
  | last, (e, status) :: log =>
    lastSuccess h (if status = .success ∧ e.hash = h then some e.data else last) log

/-- The names of the successful writes. -/
def written : List (Entry × Status) → Finset UInt32
  | [] => ∅
  | (e, status) :: log => if status = .success then insert e.hash (written log) else written log

/-- The bytes that the header and the names written so far take. -/
def writtenSize (log : List (Entry × Status)) : Nat :=
  8 + ∑ h ∈ written log, (8 + ((lastSuccess h none log).getD []).length)

/-- What `read_int` answers for a name with this content. -/
def readAnswer (size : Nat) : Option (List UInt8) → Status × List UInt8
  | none => (.enoent, [])
  | some data => if data.length = size then (.success, data) else (.einval, [])

variable {m m' : Mem} {t : Entries} {e x : Entry} {h : UInt32} {maxSize sizeBits size : Nat}
  {log : List (Entry × Status)} {last : Option (List UInt8)} {ops : List Entry}

/-! ## The map and its log -/

theorem mapStep_full (hroom : maxSize < usedSize t.entries + 8 + e.data.length) :
    mapStep maxSize t e = (.enospc, t) := if_pos hroom

theorem mapStep_replace (hroom : usedSize t.entries + 8 + e.data.length ≤ maxSize)
    (hl : t.lookup e.hash = some x) : mapStep maxSize t e = (.success, t.replace e) := by
  rw [mapStep, if_neg (by omega)]
  split
  · rfl
  · rename_i habs
    rw [habs] at hl
    cases hl

theorem mapStep_insert (hroom : usedSize t.entries + 8 + e.data.length ≤ maxSize)
    (hl : t.lookup e.hash = none) : mapStep maxSize t e = (.success, t.insert e hl) := by
  rw [mapStep, if_neg (by omega)]
  split
  · rename_i hx
    rw [hx] at hl
    cases hl
  · rfl

/-- One write changes the content of its own name, and only if it succeeds. -/
theorem lookup_mapStep (maxSize : Nat) (t : Entries) (e : Entry) (h : UInt32) :
    ((mapStep maxSize t e).2.lookup h).map Entry.data =
      if (mapStep maxSize t e).1 = .success ∧ e.hash = h then some e.data
      else (t.lookup h).map Entry.data := by
  by_cases hroom : maxSize < usedSize t.entries + 8 + e.data.length
  · rw [mapStep_full hroom, if_neg (by simp)]
  · cases hl : t.lookup e.hash with
    | some x =>
      rw [mapStep_replace (by omega) hl, Table.lookup_replace]
      by_cases hh : e.hash = h
      · subst hh
        simp [hl]
      · simp [hh]
    | none =>
      rw [mapStep_insert (by omega) hl, Table.lookup_insert]
      by_cases hh : e.hash = h
      · simp [hh]
      · simp [hh]

theorem lookup_exec (maxSize : Nat) (t : Entries) (ops : List Entry) (h : UInt32) :
    ((exec (mapStep maxSize) t ops).2.lookup h).map Entry.data =
      lastSuccess h ((t.lookup h).map Entry.data) (ops.zip (exec (mapStep maxSize) t ops).1) := by
  induction ops generalizing t with
  | nil => rfl
  | cons e ops ih => rw [exec_cons, ih, lookup_mapStep, List.zip_cons_cons, lastSuccess]

theorem lookup_contents (maxSize : Nat) (ops : List Entry) (h : UInt32) :
    ((contents maxSize ops).lookup h).map Entry.data =
      lastSuccess h none (mapLog maxSize ops) :=
  lookup_exec maxSize _ ops h

theorem lastSuccess_eq_none :
    lastSuccess h last log = none ↔ last = none ∧ h ∉ written log := by
  induction log generalizing last with
  | nil => simp [lastSuccess, written]
  | cons p log ih =>
    obtain ⟨e, status⟩ := p
    rw [lastSuccess, ih, written]
    by_cases hs : status = .success
    · by_cases hh : e.hash = h
      · simp [hs, hh]
      · simp [hs, hh, Ne.symm hh]
    · simp [hs]

/-- The bytes in use, counted over the names written. -/
theorem usedSize_contents (maxSize : Nat) (ops : List Entry) :
    usedSize (contents maxSize ops).entries = writtenSize (mapLog maxSize ops) := by
  have hlookup := lookup_contents maxSize ops
  generalize mapLog maxSize ops = log at hlookup ⊢
  have hset : written log = ((contents maxSize ops).entries.map Entry.hash).toFinset := by
    ext h
    have hnone : h ∉ written log ↔ (contents maxSize ops).lookup h = none := by
      rw [← Option.map_eq_none_iff, hlookup, lastSuccess_eq_none]
      simp
    rw [← not_iff_not, hnone, Table.lookup_eq_none]
    simp
  rw [writtenSize, usedSize_eq_sum, hset, List.sum_toFinset _ (contents maxSize ops).nodup,
    List.map_map]
  congr 2
  apply List.map_congr_left
  intro e he
  rw [Function.comp_apply, ← hlookup, Table.lookup_of_mem he]
  rfl

/-- Every entry of the map was written. -/
theorem mem_exec (ht : e ∈ (exec (mapStep maxSize) t ops).2.entries) : e ∈ t.entries ∨ e ∈ ops := by
  induction ops generalizing t with
  | nil => exact Or.inl ht
  | cons x ops ih =>
    rw [exec_cons] at ht
    rcases ih ht with h | h
    · by_cases hroom : maxSize < usedSize t.entries + 8 + x.data.length
      · rw [mapStep_full hroom] at h
        exact Or.inl h
      · cases hl : t.lookup x.hash with
        | some y =>
          rw [mapStep_replace (by omega) hl] at h
          obtain ⟨z, hz, hze⟩ := List.mem_map.mp h
          split at hze
          · exact Or.inr (by simp [hze])
          · exact Or.inl (hze ▸ hz)
        | none =>
          rw [mapStep_insert (by omega) hl] at h
          rcases List.mem_append.mp h with h | h
          · exact Or.inl h
          · exact Or.inr (by simp [List.mem_singleton.mp h])
    · exact Or.inr (List.mem_cons_of_mem _ h)

/-! ## The code does what the map does -/

/-- A write that keeps the size of its name, or is refused. -/
def KeepsSize (maxSize : Nat) (t : Entries) (e : Entry) : Prop :=
  maxSize < usedSize t.entries + 8 + e.data.length ∨
    ∀ x, t.lookup e.hash = some x → x.data.length = e.data.length

/-- **One write.** -/
theorem writeCall_refines (sizeBits maxSize : Nat) :
    Refines (writeCall sizeBits) (mapStep maxSize)
      (fun m t => Holds m t ∧ m.length = maxSize)
      (fun t e => usedSize t.entries + 8 + e.data.length < 2 ^ sizeBits ∧
        KeepsSize maxSize t e) := by
  rintro m t e ⟨hh, hlen⟩ ⟨hwidth, hkeep⟩
  have hwrap := wrap_of_lt hwidth
  by_cases hroom : maxSize < usedSize t.entries + 8 + e.data.length
  · rw [mapStep_full hroom]
    exact ⟨m, writeInt_full hh (by omega), hh, hlen⟩
  · cases hl : t.lookup e.hash with
    | some x =>
      rw [mapStep_replace (by omega) hl]
      obtain ⟨m', hm', hh', hlen'⟩ := writeInt_replace sizeBits hh (by omega) hl
        (hkeep.resolve_left hroom x hl)
      exact ⟨m', hm', hh', hlen'.trans hlen⟩
    | none =>
      rw [mapStep_insert (by omega) hl]
      obtain ⟨m', hm', hh', hlen'⟩ := writeInt_insert sizeBits hh (by omega) hl
      exact ⟨m', hm', hh', hlen'.trans hlen⟩

theorem readInt_holds (hh : Holds m t) (h : UInt32) (size : Nat) :
    readInt h size m = some (readAnswer size ((t.lookup h).map Entry.data)) := by
  cases hl : t.lookup h with
  | none => rw [readInt_absent hh hl]; rfl
  | some e => rw [readInt_present hh hl]; rfl

/-- The scan stops on a boundary of the chain. -/
theorem scan_boundary (hh : Holds m t) (h : UInt32) :
    ∃ done found, done <+: t.entries ∧ scan h m = some (8 + (encode done).length, found) := by
  cases hl : t.lookup h with
  | none =>
    exact ⟨t.entries, false, List.prefix_refl _, scan_absent hh (Table.lookup_eq_none.mp hl)⟩
  | some e =>
    obtain ⟨pre, post, hs, rfl, hpre, -⟩ := Table.lookup_split hl
    exact ⟨pre, true, ⟨e :: post, hs.symm⟩, scan_present hh hs hpre⟩

/-- A refused write changes no byte of any memory. -/
theorem writeInt_enospc {data : List UInt8}
    (hw : writeInt sizeBits h data m = some (.enospc, m')) : m' = m := by
  obtain ⟨offset, found, used, -, -, ⟨-, -, heq⟩ | ⟨-, hstatus, -⟩⟩ := writeInt_cases hw
  · exact heq
  · cases hstatus

/-- **`HashDB` as a finite map.** On a block of at least 8 bytes, along every run of writes
in which a name keeps its size and the sizes stay within 32 bits, after every prefix:
nothing outside the block was touched; `read_int` answers every name and size from the
last successful write; the bytes in use are those of the names written and fit the block;
a refused write changes nothing; and every scan stops on a boundary of the entries. -/
theorem finite_map (sizeBits : Nat) (hbits : 32 ≤ sizeBits) (name : UInt32) (location : Mem)
    (hmin : 8 ≤ location.length) (hmax : location.length < 2 ^ 32) (ops : List Entry)
    (hsame : ∀ e ∈ ops, ∀ x ∈ ops, e.hash = x.hash → e.data.length = x.data.length)
    (hwidth : ∀ pre e, pre ++ [e] <+: ops →
      usedSize (contents location.length pre).entries + 8 + e.data.length < 2 ^ 32)
    (pre : List Entry) (hpre : pre <+: ops) :
    ∃ m₀ m, initializeDatabase name location = some m₀ ∧
      run (writeCall sizeBits) m₀ pre =
        some ((exec (mapStep location.length) (Table.empty Entry.hash) pre).1, m) ∧
      m.length = location.length ∧
      (∀ h size, readInt h size m =
        some (readAnswer size (lastSuccess h none (mapLog location.length pre)))) ∧
      getUsedSize m = some (writtenSize (mapLog location.length pre)) ∧
      writtenSize (mapLog location.length pre) ≤ location.length ∧
      (∀ h data m', writeInt sizeBits h data m = some (.enospc, m') → m' = m) ∧
      ∃ es, At m 8 (encode es) ∧ writtenSize (mapLog location.length pre) = usedSize es ∧
        ∀ h, ∃ done found, done <+: es ∧ scan h m = some (8 + (encode done).length, found) := by
  obtain ⟨m₀, hinit, hh₀, hlen₀⟩ := initializeDatabase_holds (h := name) hmin hmax
  have hbound : 2 ^ 32 ≤ 2 ^ sizeBits := Nat.pow_le_pow_right (by decide) hbits
  have halong : Along (mapStep location.length) (fun t e =>
      usedSize t.entries + 8 + e.data.length < 2 ^ sizeBits ∧ KeepsSize location.length t e)
      (Table.empty Entry.hash) pre := by
    apply along_of_forall_initial
    intro qre e hq
    refine ⟨(hwidth qre e (hq.trans hpre)).trans_le hbound, Or.inr fun x hx => ?_⟩
    have hsub : ∀ y, y ∈ qre ++ [e] → y ∈ ops := fun y hy => (hq.trans hpre).subset hy
    obtain ⟨hmem, hxe⟩ := Table.lookup_mem hx
    rcases mem_exec hmem with h | h
    · cases h
    · exact hsame x (hsub x (by simp [h])) e (hsub e (by simp)) hxe
  obtain ⟨m, hrun, hh, hlen⟩ := run_refines (writeCall_refines sizeBits location.length)
    ⟨hh₀, hlen₀⟩ halong
  have hsize := usedSize_contents location.length pre
  refine ⟨m₀, m, hinit, hrun, hlen, fun h size => ?_, ?_, ?_,
    fun h data m' => writeInt_enospc, _, hh.chain, hsize.symm, scan_boundary hh⟩
  · rw [readInt_holds hh, ← lookup_contents]
    rfl
  · rw [← hsize]
    exact hh.used
  · rw [← hsize]
    exact (usedSize_le hh).trans_eq hlen

/-- Two names in a block of 25 bytes; the rewrite of the first one is refused, since the
check asks for the room of one more entry. -/
theorem finite_map_full :
    ∃ m₀ m, initializeDatabase 0 (List.replicate 25 0) = some m₀ ∧
      run (writeCall 32) m₀
        [⟨1, [7], by decide⟩, ⟨2, [], by decide⟩, ⟨1, [8], by decide⟩] =
          some ([.success, .success, .enospc], m) ∧
      readInt 1 1 m = some (.success, [7]) ∧ getUsedSize m = some 25 := by
  let ops : List Entry := [⟨1, [7], by decide⟩, ⟨2, [], by decide⟩, ⟨1, [8], by decide⟩]
  have hwidth : ∀ pre e, pre ++ [e] <+: ops →
      usedSize (contents 25 pre).entries + 8 + e.data.length < 2 ^ 32 := by
    intro pre e hpre
    have hdata : ∀ x ∈ ops, x.data.length ≤ 1 := by decide
    have he := hdata e (hpre.subset (by simp))
    have hq : pre <+: ops := (List.prefix_append _ _).trans hpre
    have hused : usedSize (contents 25 pre).entries ≤ 25 := by
      simp only [ops, List.prefix_cons_iff, List.prefix_nil] at hq
      rcases hq with rfl | ⟨_, rfl, rfl | ⟨_, rfl, rfl | ⟨_, rfl, rfl⟩⟩⟩ <;> decide
    omega
  obtain ⟨m₀, m, hinit, hrun, -, hread, hused, -⟩ := finite_map 32 (Nat.le_refl _) 0
    (List.replicate 25 0) (by decide) (by decide) ops (by decide) hwidth ops (List.prefix_refl _)
  have hlog : mapLog 25 ops = ops.zip [.success, .success, .enospc] := rfl
  rw [List.length_replicate, hlog] at hread hused
  exact ⟨m₀, m, hinit, hrun, hread 1 1, hused⟩

end MyLibraries.HashDb
