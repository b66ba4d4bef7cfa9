import MyLibraries.HashDb.Map

/-!
# Isolation of the entries of a `HashDB`

A rewrite of a name puts the new size over the length word that chains the entries, and
leaves the entries behind it where they are. When the size is not the stored one, the
entries behind are no longer found, or are overwritten (`isolation_broken`). As long as
every call is refused for space, writes a new name, or keeps the stored size, every name
reads back its last bytes after every call (`isolation`).
-/

namespace MyLibraries.HashDb

open Memory Run

/-- Every name written so far reads back, with the size of its last successful write, the
bytes of that write. -/
def Isolated (log : List (Entry × Status)) (m : Mem) : Prop :=
  ∀ h data, lastSuccess h none log = some data →
    readInt h data.length m = some (.success, data)

/-- The length word of the entry at which the scan for a name stops. -/
def storedSize (h : UInt32) (m : Mem) : Option Nat := do
  let (offset, found) ← scan h m
  if found then loadWord m (offset + 4) 4 else none

/-- The space check does not overflow, and the call is refused by it, or writes a new
name, or keeps the stored size. -/
def SizeKept (sizeBits : Nat) (m : Mem) (e : Entry) : Prop :=
  ∀ used, getUsedSize m = some used → used + 8 + e.data.length < 2 ^ sizeBits ∧
    (m.length < used + 8 + e.data.length ∨
      ∀ size, storedSize e.hash m = some size → size = e.data.length)

instance (sizeBits : Nat) : DecidableRel (SizeKept sizeBits) := fun m e =>
  match hm : getUsedSize m with
  | none => .isTrue (by simp [SizeKept, hm])
  | some used =>
    match hs : storedSize e.hash m with
    | none =>
      decidable_of_iff (used + 8 + e.data.length < 2 ^ sizeBits) (by simp [SizeKept, hm, hs])
    | some size =>
      decidable_of_iff (used + 8 + e.data.length < 2 ^ sizeBits ∧
        (m.length < used + 8 + e.data.length ∨ size = e.data.length)) (by simp [SizeKept, hm, hs])

variable {m : Mem} {t : Entries} {x : Entry} {h : UInt32}

theorem storedSize_present (hh : Holds m t) (hl : t.lookup h = some x) :
    storedSize h m = some x.data.length := by
  obtain ⟨pre, post, hs, rfl, hpre, -⟩ := Table.lookup_split hl
  have hat := hh.chain
  simp only [hs, encode_append, encode_cons, at_append] at hat
  obtain ⟨-, hword, -⟩ := at_entry hat.2.1
  simp only [storedSize, scan_present hh hs hpre, Option.bind_eq_bind, some_bind, if_true, hword]

theorem isolated_of_holds {maxSize : Nat} {ops : List Entry}
    (hh : Holds m (contents maxSize ops)) : Isolated (mapLog maxSize ops) m := by
  intro h data hlast
  rw [readInt_holds hh, lookup_contents, hlast]
  exact congrArg some (if_pos rfl)

/-- **Isolation, as long as sizes are kept.** In every run of writes on a new database in
which every call is refused for space, writes a new name, or keeps the stored size, after
every prefix no call has faulted and every name reads back its last bytes. -/
theorem isolation (sizeBits : Nat) (name : UInt32) (location m₀ : Mem)
    (hsmall : location.length < 2 ^ 32) (hinit : initializeDatabase name location = some m₀)
    (ops : List Entry) (hkept : AlongRun (writeCall sizeBits) (SizeKept sizeBits) m₀ ops)
    (pre : List Entry) (hpre : pre <+: ops) :
    ∃ results m, run (writeCall sizeBits) m₀ pre = some (results, m) ∧
      Isolated (pre.zip results) m := by
  obtain ⟨-, hholds, hlen⟩ := initializeDatabase_inv hsmall hinit
  have hstep := writeCall_refines sizeBits location.length
  have halong : Along (mapStep location.length) (fun t e =>
      usedSize t.entries + 8 + e.data.length < 2 ^ sizeBits ∧ KeepsSize location.length t e)
      (Table.empty Entry.hash) ops := by
    apply along_of_alongRun hstep _ ⟨hholds, hlen⟩ hkept
    rintro m t e ⟨hh, hm⟩ hsize
    obtain ⟨hwidth, hroom | hsame⟩ := hsize _ hh.used
    · exact ⟨hwidth, Or.inl (hm ▸ hroom)⟩
    · exact ⟨hwidth, Or.inr fun x hx => hsame _ (storedSize_present hh hx)⟩
  obtain ⟨m, hrun, hh, -⟩ := run_refines hstep ⟨hholds, hlen⟩ (along_of_initial halong hpre)
  exact ⟨_, m, hrun, isolated_of_holds hh⟩

/-- Two names, and the first one again with as many bytes. -/
theorem isolation_same_size : ∃ m₀ results m,
    initializeDatabase 0 (List.replicate 64 0) = some m₀ ∧
      run (writeCall 32) m₀ [⟨1, [7], by decide⟩, ⟨2, [5, 6], by decide⟩, ⟨1, [9], by decide⟩] =
        some (results, m) ∧
      Isolated ([⟨1, [7], by decide⟩, ⟨2, [5, 6], by decide⟩, ⟨1, [9], by decide⟩].zip results)
        m := by
  obtain ⟨results, m, hrun, hiso⟩ := isolation 32 0 (List.replicate 64 0) _ (by decide) rfl
    [⟨1, [7], by decide⟩, ⟨2, [5, 6], by decide⟩, ⟨1, [9], by decide⟩] (by decide) _
    (List.prefix_refl _)
  exact ⟨_, results, m, rfl, hrun, hiso⟩

/-- The first name again, but with more bytes: all three writes return 0, and the second
name is lost. -/
theorem isolation_broken : ∃ m₀ m,
    initializeDatabase 0 (List.replicate 64 0) = some m₀ ∧
      run (writeCall 32) m₀ [⟨1, [1, 1, 1, 1], by decide⟩, ⟨2, [2, 2, 2, 2], by decide⟩,
          ⟨1, [3, 3, 3, 3, 3, 3, 3, 3], by decide⟩] =
        some ([.success, .success, .success], m) ∧
      readInt 1 8 m = some (.success, [3, 3, 3, 3, 3, 3, 3, 3]) ∧
      readInt 2 4 m = some (.enoent, []) ∧
      ¬ Isolated [(⟨1, [1, 1, 1, 1], by decide⟩, .success),
        (⟨2, [2, 2, 2, 2], by decide⟩, .success),
        (⟨1, [3, 3, 3, 3, 3, 3, 3, 3], by decide⟩, .success)] m := by
  refine ⟨_, _, rfl, rfl, by decide, by decide, ?_⟩
  intro hiso
  exact absurd (hiso 2 [2, 2, 2, 2] rfl) (by decide)

end MyLibraries.HashDb
