import MyLibraries.HashDb.Isolation

/-!
# When a `HashDB` reports lack of space

`write_int` asks for the room of one more entry before it looks whether the name is there.
So a rewrite is refused in a block that is nearly full, although it needs no room
(`rewrite_refused`); and where `size_t` has 32 bits the sum of the check can wrap.
`enospc_iff` says in which states and for which calls the answer is right.
-/

namespace MyLibraries.HashDb

open Memory Run

/-- A name that is there is written with the size it has. -/
def RewritesSame (m : Mem) (e : Entry) : Prop :=
  ∀ size, storedSize e.hash m = some size → size = e.data.length

instance : DecidableRel RewritesSame := fun m e =>
  inferInstanceAs (Decidable (∀ size ∈ storedSize e.hash m, size = e.data.length))

/-- The sum of the space check. -/
def neededSize (sizeBits used : Nat) (e : Entry) : Nat := wrap sizeBits (used + 8 + e.data.length)

/-- Lack of space is reported for a new name without room, and for nothing else; a name
that keeps its size is always written. -/
structure ReportsSpace (sizeBits used : Nat) (m : Mem) (e : Entry) : Prop where
  enospc : (∃ m', writeCall sizeBits m e = some (.enospc, m')) ↔
    storedSize e.hash m = none ∧ m.length < used + 8 + e.data.length
  rewrites : storedSize e.hash m = some e.data.length →
    ∃ m', writeCall sizeBits m e = some (.success, m')

variable {m m' : Mem} {t : Entries} {e x : Entry} {h : UInt32} {sizeBits maxSize : Nat}
  {status : Status} {ops : List Entry} {results : List Status}

theorem storedSize_eq (hh : Holds m t) (h : UInt32) :
    storedSize h m = (t.lookup h).map fun x => x.data.length := by
  cases hl : t.lookup h with
  | some x => exact storedSize_present hh hl
  | none =>
    simp only [storedSize, scan_absent hh (Table.lookup_eq_none.mp hl), Option.bind_eq_bind,
      some_bind, Bool.false_eq_true, if_false, Option.map_none]

/-! ## One write -/

/-- A call is refused for space when the check refuses it. -/
theorem refused_iff (hh : Holds m t) : (∃ m', writeCall sizeBits m e = some (.enospc, m')) ↔
    m.length < neededSize sizeBits (usedSize t.entries) e := by
  refine ⟨?_, fun hroom => ⟨m, writeInt_full hh hroom⟩⟩
  rintro ⟨m', hw⟩
  obtain ⟨offset, found, used, -, hused, ⟨hroom, -, -⟩ | ⟨-, hstatus, -⟩⟩ := writeInt_cases hw
  · obtain rfl : usedSize t.entries = used := Option.some.inj (hh.used.symm.trans hused)
    exact hroom
  · cases hstatus

/-- A write that keeps sizes leaves a chain of entries. -/
theorem holds_step (hh : Holds m t) (hsame : RewritesSame m e)
    (hw : writeCall sizeBits m e = some (status, m')) :
    ∃ t', Holds m' t' ∧ m'.length = m.length := by
  by_cases hroom : m.length < neededSize sizeBits (usedSize t.entries) e
  · have heq := (writeInt_full hh hroom).symm.trans hw
    obtain rfl : m = m' := congrArg Prod.snd (Option.some.inj heq)
    exact ⟨t, hh, rfl⟩
  · cases hl : t.lookup e.hash with
    | some x =>
      obtain ⟨m₁, h₁, hh₁, hlen₁⟩ := writeInt_replace sizeBits hh (Nat.not_lt.mp hroom) hl
        (hsame _ (storedSize_present hh hl))
      obtain rfl : m₁ = m' := congrArg Prod.snd (Option.some.inj (h₁.symm.trans hw))
      exact ⟨_, hh₁, hlen₁⟩
    | none =>
      -- a new name that was stored has found its room, whatever the check said
      obtain ⟨offset, found, used, hscan, hused, hcases⟩ := writeInt_cases hw
      obtain rfl : usedSize t.entries = used := Option.some.inj (hh.used.symm.trans hused)
      rw [scan_absent hh (Table.lookup_eq_none.mp hl)] at hscan
      cases hscan
      rcases hcases with ⟨hfull, -, -⟩ | ⟨-, -, hbound⟩
      · exact absurd hfull hroom
      · obtain ⟨m₁, h₁, hh₁, hlen₁⟩ := writeInt_insert sizeBits hh hbound hl
        obtain rfl : m₁ = m' := congrArg Prod.snd (Option.some.inj (h₁.symm.trans hw))
        exact ⟨_, hh₁, hlen₁⟩

/-- What the check has to say for the answer to be right. -/
theorem reportsSpace_iff (hh : Holds m t) :
    ReportsSpace sizeBits (usedSize t.entries) m e ↔
      (storedSize e.hash m ≠ none →
        neededSize sizeBits (usedSize t.entries) e ≤ m.length) ∧
      (storedSize e.hash m = none → m.length < usedSize t.entries + 8 + e.data.length →
        m.length < neededSize sizeBits (usedSize t.entries) e) := by
  have hle : neededSize sizeBits (usedSize t.entries) e ≤
      usedSize t.entries + 8 + e.data.length := Nat.mod_le _ _
  constructor
  · rintro ⟨henospc, -⟩
    rw [refused_iff hh] at henospc
    refine ⟨fun hne => Nat.not_lt.mp fun hlt => hne (henospc.mp hlt).1, fun hnone hroom => ?_⟩
    exact henospc.mpr ⟨hnone, hroom⟩
  · rintro ⟨hthere, hnew⟩
    refine ⟨?_, fun hsize => ?_⟩
    · rw [refused_iff hh]
      refine ⟨fun hlt => ?_, fun h => hnew h.1 h.2⟩
      cases hs : storedSize e.hash m with
      | none => exact ⟨rfl, by omega⟩
      | some size => exact absurd (hthere (by simp [hs])) (by omega)
    · have hpass := hthere (by simp [hsize])
      rw [storedSize_eq hh] at hsize
      obtain ⟨x, hl, hsame⟩ := Option.map_eq_some_iff.mp hsize
      obtain ⟨m', hw, -⟩ := writeInt_replace sizeBits hh hpass hl hsame
      exact ⟨m', hw⟩

/-! ## Reachable states -/

/-- Runs in which names keep their sizes leave a chain of entries. -/
theorem holds_run (hh : Holds m t) (hsame : AlongRun (writeCall sizeBits) RewritesSame m ops)
    (hrun : run (writeCall sizeBits) m ops = some (results, m')) :
    ∃ t', Holds m' t' ∧ m'.length = m.length := by
  let Inv : Mem → Prop := fun s => ∃ t', Holds s t' ∧ s.length = m.length
  have hstep : ∀ s e r s', Inv s → RewritesSame s e → writeCall sizeBits s e = some (r, s') →
      Inv s' := by
    rintro s e r s' ⟨t', ht', hlen⟩ hsame hw
    obtain ⟨t₂, ht₂, hlen₂⟩ := holds_step ht' hsame hw
    exact ⟨t₂, ht₂, hlen₂.trans hlen⟩
  have hend : Inv m' := inv_of_alongRun hstep ⟨t, hh, rfl⟩ hsame hrun
  exact hend

/-- **Lack of space.** In every state that writes on a new database reach, every name
written with the size it has, a call reports lack of space exactly when it should (and a
rewrite succeeds) if and only if the sum of the space check fits the block when the name is
there, and does not wrap into it when the name is new. -/
theorem enospc_iff (sizeBits : Nat) (name : UInt32) (location m₀ m : Mem)
    (hsmall : location.length < 2 ^ 32) (hinit : initializeDatabase name location = some m₀)
    (ops : List Entry) (hsame : AlongRun (writeCall sizeBits) RewritesSame m₀ ops)
    (results : List Status) (hrun : run (writeCall sizeBits) m₀ ops = some (results, m))
    (e : Entry) :
    m.length = location.length ∧ ∃ used, getUsedSize m = some used ∧
      (ReportsSpace sizeBits used m e ↔
        (storedSize e.hash m ≠ none → neededSize sizeBits used e ≤ location.length) ∧
        (storedSize e.hash m = none → location.length < used + 8 + e.data.length →
          location.length < neededSize sizeBits used e)) := by
  obtain ⟨hmin, hholds₀, hlen₀⟩ := initializeDatabase_inv hsmall hinit
  obtain ⟨t, hh, hlen⟩ := holds_run hholds₀ hsame hrun
  rw [hlen₀] at hlen
  refine ⟨hlen, usedSize t.entries, hh.used, ?_⟩
  rw [reportsSpace_iff hh, hlen]

/-- Two names in a block with room for the check: the first is rewritten. -/
theorem rewrite_with_room :
    let m₀ : Mem := leBytes 4 0 ++ leBytes 4 8 ++ List.replicate 24 0
    ∃ results m, run (writeCall 32) m₀ [⟨1, [7], by decide⟩] = some (results, m) ∧
      ∃ m', writeCall 32 m ⟨1, [8], by decide⟩ = some (.success, m') := by
  intro m₀
  let m : Mem := leBytes 4 0 ++ leBytes 4 17 ++ (leBytes 4 1 ++ leBytes 4 1 ++ [7]) ++
    List.replicate 15 0
  have hrun : run (writeCall 32) m₀ [⟨1, [7], by decide⟩] = some ([.success], m) := by
    decide +kernel
  obtain ⟨-, used, hused, hiff⟩ := enospc_iff 32 0 (List.replicate 32 0) m₀ m (by decide)
    (by decide +kernel) [⟨1, [7], by decide⟩] (by decide +kernel) [.success] hrun
    ⟨1, [8], by decide⟩
  have h17 : getUsedSize m = some 17 := by decide +kernel
  obtain rfl : used = 17 := Option.some.inj (hused.symm.trans h17)
  have hstored : storedSize 1 m = some 1 := by decide +kernel
  refine ⟨_, _, hrun, (hiff.mpr ⟨fun _ => by decide, fun hnone => ?_⟩).rewrites hstored⟩
  rw [hstored] at hnone
  cases hnone

/-- A block of 17 bytes that one entry fills: its rewrite with another byte is refused. -/
theorem rewrite_refused :
    let m₀ : Mem := leBytes 4 0 ++ leBytes 4 8 ++ List.replicate 9 0
    let m : Mem := leBytes 4 0 ++ leBytes 4 17 ++ (leBytes 4 1 ++ leBytes 4 1 ++ [7])
    initializeDatabase 0 (List.replicate 17 0) = some m₀ ∧
      run (writeCall 64) m₀ [⟨1, [7], by decide⟩] = some ([.success], m) ∧
      storedSize 1 m = some 1 ∧
      writeCall 64 m ⟨1, [8], by decide⟩ = some (.enospc, m) ∧
      ¬ReportsSpace 64 17 m ⟨1, [8], by decide⟩ := by
  intro m₀ m
  have hstored : storedSize 1 m = some 1 := by decide +kernel
  have hrefused : writeCall 64 m ⟨1, [8], by decide⟩ = some (.enospc, m) := by decide +kernel
  refine ⟨by decide +kernel, by decide +kernel, hstored, hrefused, fun h => ?_⟩
  have hnone := (h.enospc.mp ⟨m, hrefused⟩).1
  rw [hstored] at hnone
  cases hnone

end MyLibraries.HashDb
