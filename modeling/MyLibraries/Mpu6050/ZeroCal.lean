import MyLibraries.Mpu6050.Model

/-!
# A failed `mpu6050_zero_cal`

`mpu6050_zero_cal` removes the offsets before it measures, for the measurement is taken
without them, and it does not put them back when there is none. What a call leaves is settled
by its last access: behind a block that was read the offsets are those of the block, and the
same block measured again gives zeros; behind anything else there are no offsets any more
(`zeroCal_atomic_iff`).
-/

namespace MyLibraries.Mpu6050

open Device

/-- The block that the last access has read. -/
def measured (t : List (Access Port Reply)) : Option (Vector UInt8 14) :=
  match t.getLast? with
  | some (.read (.rd reg 14) r) =>
    if reg = intStatus ∧ r.value.toUInt8 = 0 then some r.buf else none
  | _ => none

variable {dev dev' : Acc} {t : List (Access Port Reply)} {res : UInt8} {rounds : Nat}
  {z : AccZeropoint} {buf : Vector UInt8 14}

theorem measured_block (t : List (Access Port Reply)) (r : Reply) :
    measured (t ++ [.read (.rd intStatus 14) r]) =
      if r.value.toUInt8 = 0 then some r.buf else none := by
  unfold measured
  rw [List.getLast?_concat]
  simp

theorem measured_append (t : List (Access Port Reply)) {t' : List (Access Port Reply)}
    (hne : t' ≠ []) : measured (t ++ t') = measured t' := by
  unfold measured
  rw [List.getLast?_append_of_ne_nil t hne]

/-- A program that reads no block has measured nothing. -/
theorem measured_quiet {α : Type} {p : Io α} {a : α} (hp : Reads (· ≠ .rd intStatus 14) p)
    (hd : Does p t a) : measured t = none := by
  unfold measured
  split
  · rename_i reg r hlast
    refine if_neg fun h => ?_
    rw [h.1] at hlast
    exact hd.reads hp _ _ (List.mem_of_getLast? hlast) rfl
  · rfl

/-! ## One measurement -/

theorem reads_awaitData (dev : Acc) : Reads (· ≠ .rd intStatus 14) (awaitData dev) := by
  unfold awaitData
  split
  · exact ⟨by decide, fun _ => trivial⟩
  · refine reads_bind ⟨by decide, fun _ => trivial⟩ fun r => ?_
    dsimp only
    split <;> trivial

theorem awaitData_ne_nil {r : UInt8} (hd : Does (awaitData dev) t r) : t ≠ [] := by
  unfold awaitData at hd
  rintro rfl
  split at hd <;> obtain ⟨_, _, heq, -⟩ := hd <;> cases heq

theorem does_rd {reg : UInt8} {size : Nat} {r : UInt8 × Vector UInt8 14} :
    Does (rd reg size) t r ↔
      ∃ reply : Reply, t = [.read (.rd reg size) reply] ∧ r = (reply.value.toUInt8, reply.buf) :=
  does_read

/-- A call succeeds when it measures, and changes nothing but the raw data. -/
theorem getResult_spec (hd : Does (getResult dev) t (res, dev')) :
    t ≠ [] ∧ dev'.zero = dev.zero ∧ (res = 0 ↔ (measured t).isSome) ∧
      ∀ buf z, measured t = some buf → dev.zero = some z →
        dev'.raw = (measdata buf).remove z := by
  unfold getResult at hd
  obtain ⟨t₁, t₂, r, rfl, hawait, hd⟩ := does_bind.mp hd
  have hne := awaitData_ne_nil hawait
  refine ⟨fun h => hne (List.append_eq_nil_iff.mp h).1, ?_⟩
  split at hd
  · rename_i hr
    cases hd.2
    rw [hd.1, List.append_nil, measured_quiet (reads_awaitData dev) hawait]
    exact ⟨rfl, iff_of_false hr (by decide), fun buf z h => nomatch h⟩
  · obtain ⟨t₃, t₄, r₂, rfl, hrd, hd⟩ := does_bind.mp hd
    obtain ⟨reply, rfl, rfl⟩ := does_rd.mp hrd
    dsimp only at hd
    split at hd
    · rename_i hfail
      cases hd.2
      rw [hd.1, List.append_nil, measured_block, if_neg hfail]
      exact ⟨rfl, by decide, fun buf z h => nomatch h⟩
    · rename_i hok
      have hzero : reply.value.toUInt8 = 0 := not_not.mp hok
      split at hd
      · rename_i hnone
        cases hd.2
        rw [hd.1, List.append_nil, measured_block, if_pos hzero]
        refine ⟨rfl, iff_of_true rfl rfl, fun buf z _ hz => ?_⟩
        rw [hnone] at hz
        cases hz
      · rename_i zero hsome
        cases hd.2
        rw [hd.1, List.append_nil, measured_block, if_pos hzero]
        refine ⟨rfl, iff_of_true rfl rfl, fun buf z hbuf hz => ?_⟩
        rw [hsome] at hz
        cases hz
        cases hbuf
        rfl

/-! ## The loop -/

/-- The loop is settled by its last round. -/
theorem updateData_spec (hd : Does (updateData rounds dev) t (res, dev')) :
    t ≠ [] ∧ dev'.zero = dev.zero ∧ (res = 0 ↔ (measured t).isSome) ∧
      ∀ buf z, measured t = some buf → dev.zero = some z →
        dev'.raw = (measdata buf).remove z := by
  induction rounds generalizing dev t with
  | zero => cases hd
  | succ rounds ih =>
    obtain ⟨t₁, t₂, ⟨r, dev₁⟩, rfl, hround, hd⟩ := does_bind.mp hd
    obtain ⟨hne, hzero, hres, hraw⟩ := getResult_spec hround
    dsimp only at hd
    split at hd
    · obtain ⟨hne', hzero', hres', hraw'⟩ := ih hd
      rw [measured_append t₁ hne', ← hzero]
      exact ⟨List.append_ne_nil_of_right_ne_nil t₁ hne', hzero', hres', hraw'⟩
    · cases hd.2
      rw [hd.1, List.append_nil]
      exact ⟨hne, hzero, hres, hraw⟩

theorem remove_removed (raw : AccMeasdata) : raw.remove .removed = raw := by
  simp [AccMeasdata.remove, AccZeropoint.removed]

/-- The zero point of a measurement is all that is removed from it. -/
theorem remove_offsets (raw : AccMeasdata) : (raw.remove raw.offsets).offsets = .removed := by
  simp [AccMeasdata.remove, AccMeasdata.offsets, AccZeropoint.removed]

/-- **When `mpu6050_zero_cal` keeps the offsets or replaces them**: when the block is read, or
when there were none. -/
theorem zeroCal_atomic_iff (rounds : Nat) (dev dev' : Acc) (z : AccZeropoint)
    (hz : dev.zero = some z) (t : List (Access Port Reply)) (res : UInt8)
    (hd : Does (zeroCal rounds dev) t (res, dev')) :
    ((res ≠ 0 → dev'.zero = some z) ∧
      (res = 0 → ∃ buf, measured t = some buf ∧ dev'.zero = some (measdata buf).offsets ∧
        ∀ t₂ res₂ dev₂, Does (getResult dev') t₂ (res₂, dev₂) → measured t₂ = some buf →
          res₂ = 0 ∧ dev₂.raw.offsets = .removed)) ↔
      (measured t).isSome ∨ z = .removed := by
  unfold zeroCal at hd
  rw [hz] at hd
  obtain ⟨t₁, t₂, ⟨r, dev₁⟩, rfl, hupdate, hd⟩ := does_bind.mp hd
  obtain ⟨-, hzero, hres, hraw⟩ := updateData_spec hupdate
  dsimp only at hd
  split at hd
  · rename_i hfail
    cases hd.2
    rw [hd.1, List.append_nil, or_iff_right (mt hres.mpr hfail), hzero]
    constructor
    · exact fun h => (Option.some.inj (h.1 hfail)).symm
    · rintro rfl
      exact ⟨fun _ => rfl, fun h => absurd h hfail⟩
  · rename_i hok
    cases hd.2
    rw [hd.1, List.append_nil]
    obtain ⟨buf, hbuf⟩ := Option.isSome_iff_exists.mp (hres.mp (not_not.mp hok))
    have hblock := hraw buf _ hbuf rfl
    rw [remove_removed] at hblock
    refine iff_of_true ⟨fun h => absurd rfl h, fun _ => ⟨buf, hbuf, by rw [hblock], ?_⟩⟩
      (Or.inl (Option.isSome_iff_exists.mpr ⟨buf, hbuf⟩))
    intro t₂ res₂ dev₂ hagain hbuf₂
    obtain ⟨-, -, hres₂, hraw₂⟩ := getResult_spec hagain
    refine ⟨hres₂.mpr (Option.isSome_iff_exists.mpr ⟨buf, hbuf₂⟩), ?_⟩
    rw [hraw₂ buf _ hbuf₂ rfl, hblock, remove_offsets]

/-- A device without the pin, whose zero point was taken before. -/
def calibrated : Acc := ⟨false, ⟨0, 0, 0, 0, 0, 0, 0⟩, some ⟨1, 2, 3, 4, 5, 6⟩⟩

/-- Its answers: it is busy, then it has data, and then this to the block. -/
def answers (last : Reply) (n : Nat) : Reply :=
  if n = 1 then ⟨0, #v[1, 0, 0, 0, 0, 0, 0, 0, 0, 0, 0, 0, 0, 0]⟩
  else if n = 2 then last else ⟨0, Vector.replicate 14 0⟩

/-- The theorem for a block that is read. -/
theorem zeroCal_atomic_read : ∃ t dev', Does (zeroCal 2 calibrated) t (0, dev') ∧
    (measured t).isSome ∧ dev'.zero = some ⟨0x0707, 0x0707, 0x0707, 0x0707, 0x0707, 0x0707⟩ := by
  have hrun : run (answers ⟨0, Vector.replicate 14 7⟩) (zeroCal 2 calibrated) 0 = some (_, 0, _) :=
    rfl
  have hd := does_of_run hrun
  have hiff := zeroCal_atomic_iff 2 calibrated _ ⟨1, 2, 3, 4, 5, 6⟩ rfl _ 0 hd
  obtain ⟨-, hsuccess⟩ := hiff.mpr (Or.inl rfl)
  obtain ⟨buf, hbuf, hzero, -⟩ := hsuccess rfl
  cases hbuf
  exact ⟨_, _, hd, rfl, hzero⟩

/-- The block is not read, and the offsets are gone. -/
theorem offsets_lost : ∃ t dev', Does (zeroCal 2 calibrated) t (interfaceError, dev') ∧
    dev'.zero = some .removed ∧ dev'.zero ≠ calibrated.zero := by
  have hrun : run (answers ⟨1, Vector.replicate 14 0⟩) (zeroCal 2 calibrated) 0 =
      some (_, interfaceError, _) := rfl
  exact ⟨_, _, does_of_run hrun, rfl, by decide⟩

end MyLibraries.Mpu6050
