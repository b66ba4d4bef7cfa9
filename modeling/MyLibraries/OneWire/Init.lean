import MyLibraries.OneWire.Multi

/-!
# How many sensors are initialised

The condition of the loop of `Init` is `i != devices ? devices : max_devices`, and not a
comparison with a number chosen once. For `devices` = 0 it holds in the first round only,
otherwise in every round (`initLoop_never_ends`). So `Init` does what it should exactly for
a single sensor and `devices` = 0 (`init_iff`).
-/

namespace MyLibraries.OneWire

/-- What the bus sees. -/
inductive Event
  | reset
  | write (value : UInt8)
  deriving DecidableEq, Repr

variable {β : Type} {maxDevices : Nat} {interface : Interface β} {resolution : Resolution}
  {serialNumber : Vector Rom maxDevices} {devices : UInt8}

/-- The interface with a record of what is sent. -/
def recorded (interface : Interface β) : Interface (List Event × β) where
  reset s := ((interface.reset s.2).1, s.1 ++ [.reset], (interface.reset s.2).2)
  write value s := (s.1 ++ [.write value], interface.write value s.2)
  writeBit bit s := (s.1, interface.writeBit bit s.2)
  readBit s := ((interface.readBit s.2).1, s.1, (interface.readBit s.2).2)

/-- The sequence for one sensor. -/
def rowEvents (resolution : Resolution) (row : Rom) : List Event :=
  .reset :: .write matchRom :: row.toList.map .write ++
    [.write writeStratchpadCmd, .write 0, .write 0, .write (resolution.toUInt8 <<< 5 ||| 0x1F)]

/-- `Init` ends, and has sent the sequence to the first `n` rows, in order. -/
def Initialises (interface : Interface β) (resolution : Resolution)
    (serialNumber : Vector Rom maxDevices) (devices : UInt8) (bus : β) (n : Nat) : Prop :=
  ∃ fuel bus', init (recorded interface) fuel resolution serialNumber devices ([], bus) =
    some (some .success, (serialNumber.toList.take n).flatMap (rowEvents resolution), bus')

theorem foldl_write_fst (bytes : List UInt8) (s : List Event × β) :
    (bytes.foldl (fun bus byte => (recorded interface).write byte bus) s).1 =
      s.1 ++ bytes.map .write := by
  induction bytes generalizing s with
  | nil => exact (List.append_nil _).symm
  | cons byte bytes ih =>
    rw [List.foldl_cons, ih]
    show s.1 ++ [.write byte] ++ _ = _
    rw [List.append_assoc]
    rfl

/-- The record of one round. -/
theorem initRow_fst (row : Rom) (s : List Event × β) :
    (initRow (recorded interface) resolution row ((recorded interface).reset s).2).1 =
      s.1 ++ rowEvents resolution row := by
  have hrow : (matchRow (recorded interface) row ((recorded interface).reset s).2).1 =
      s.1 ++ [.reset] ++ [.write matchRom] ++ row.toList.map .write := foldl_write_fst _ _
  show (matchRow (recorded interface) row ((recorded interface).reset s).2).1 ++
    [_] ++ [_] ++ [_] ++ [_] = _
  rw [hrow]
  simp only [rowEvents, List.append_assoc, List.cons_append, List.nil_append]

theorem length_rowEvents (row : Rom) : (rowEvents resolution row).length = 14 := by
  simp [rowEvents]

theorem length_rows (rows : List Rom) :
    (rows.flatMap (rowEvents resolution)).length = 14 * rows.length := by
  induction rows with
  | nil => rfl
  | cons row rows ih =>
    rw [List.flatMap_cons, List.length_append, length_rowEvents, ih, List.length_cons]
    omega

/-! ## The loop -/

/-- With a number of devices the condition holds in every round. -/
theorem initLoop_never_ends (hreset : ∀ s, (interface.reset s).1 = .success)
    (hdevices : devices ≠ 0) (hmin : 1 ≤ maxDevices) (fuel : Nat) (i : UInt8)
    (res : Option Result) (bus : β) :
    initLoop interface resolution serialNumber devices fuel i res bus = none := by
  induction fuel generalizing i res bus with
  | zero => rfl
  | succ fuel ih =>
    have hcond : (if i ≠ devices then devices.toNat else maxDevices) ≠ 0 := by
      split
      · intro hzero
        exact hdevices (UInt8.toNat_inj.mp hzero)
      · omega
    rw [initLoop, if_pos hcond]
    simp only [hreset, ne_eq, not_true_eq_false, if_false]
    cases serialNumber[i.toNat]? with
    | none => rfl
    | some row => exact ih _ _ _

/-- Without one it holds in the first round only. -/
theorem init_all (hreset : ∀ s, (interface.reset s).1 = .success) (hmin : 0 < maxDevices)
    (fuel : Nat) (bus : β) :
    init interface fuel resolution serialNumber 0 bus =
      if 2 ≤ fuel then some (some .success,
        initRow interface resolution serialNumber[0] (interface.reset bus).2)
      else none := by
  cases fuel with
  | zero => rfl
  | succ fuel =>
    rw [init, initLoop, if_pos (by simpa using Nat.ne_of_gt hmin)]
    simp only [hreset, ne_eq, not_true_eq_false, if_false, UInt8.toNat_zero,
      Vector.getElem?_eq_getElem hmin, Option.bind_eq_bind, Option.bind_some]
    cases fuel with
    | zero => rfl
    | succ fuel =>
      rw [if_pos (by omega)]
      exact if_neg (not_not_intro (if_pos (by decide)))

/-- So it is one row that is configured. -/
theorem Initialises.one_row (hreset : ∀ s, (interface.reset s).1 = .success)
    (hmin : 0 < maxDevices) {bus : β} {n : Nat}
    (h : Initialises interface resolution serialNumber 0 bus n) : min n maxDevices = 1 := by
  have hrecorded : ∀ s, ((recorded interface).reset s).1 = .success := fun s => hreset s.2
  obtain ⟨fuel, bus', hinit⟩ := h
  rw [init_all hrecorded hmin] at hinit
  by_cases hfuel : 2 ≤ fuel
  · rw [if_pos hfuel, Option.some.injEq, Prod.mk.injEq] at hinit
    have htrace : (initRow (recorded interface) resolution serialNumber[0]
        ((recorded interface).reset ([], bus)).2).1 = _ := initRow_fst serialNumber[0] ([], bus)
    rw [hinit.2] at htrace
    have hlen := congrArg List.length htrace
    rw [length_rows, List.nil_append, length_rowEvents, List.length_take,
      Vector.length_toList] at hlen
    omega
  · rw [if_neg hfuel] at hinit
    cases hinit

/-- **What `Init` initialises**: on a bus whose reset succeeds, it ends and has configured
the right rows exactly when `devices` is 0 and there is one row. -/
theorem init_iff (hmin : 1 ≤ maxDevices) (hreset : ∀ s, (interface.reset s).1 = .success)
    (serialNumber : Vector Rom maxDevices) (resolution : Resolution) (devices : UInt8) (bus : β) :
    Initialises interface resolution serialNumber devices bus
        (if devices ≠ 0 then devices.toNat else maxDevices) ↔
      devices = 0 ∧ maxDevices = 1 := by
  have hrecorded : ∀ s, ((recorded interface).reset s).1 = .success := fun s => hreset s.2
  constructor
  · intro h
    by_cases hdevices : devices = 0
    · subst hdevices
      rw [if_neg (not_not_intro rfl)] at h
      have hone := h.one_row hreset hmin
      rw [Nat.min_self] at hone
      exact ⟨rfl, hone⟩
    · obtain ⟨fuel, bus', hinit⟩ := h
      rw [init, initLoop_never_ends hrecorded hdevices hmin] at hinit
      cases hinit
  · rintro ⟨rfl, rfl⟩
    have hrows : serialNumber.toList.take 1 = [serialNumber[0]] := by
      apply List.ext_getElem
      · simp
      · intro i hi hi'
        obtain rfl : i = 0 := by simpa using hi'
        simp
    refine ⟨2, (initRow (recorded interface) resolution serialNumber[0]
      ((recorded interface).reset ([], bus)).2).2, ?_⟩
    rw [init_all hrecorded hmin, if_neg (not_not_intro rfl), hrows]
    have hfst : (initRow (recorded interface) resolution serialNumber[0]
        ((recorded interface).reset ([], bus)).2).1 =
          [serialNumber[0]].flatMap (rowEvents resolution) := by
      rw [initRow_fst, List.flatMap_cons, List.flatMap_nil, List.append_nil]
      rfl
    rw [← hfst, if_pos (Nat.le_refl 2)]

/-- A bus that says success to every reset. -/
def quiet : Interface Unit where
  reset s := (.success, s)
  write _ s := s
  writeBit _ s := s
  readBit s := (0, s)

/-- One sensor, and `devices` = 0. -/
theorem init_iff_one : Initialises quiet .res12bit #v[#v[0x28, 1, 2, 3, 4, 5, 6, 7]] 0 () 1 :=
  (init_iff (Nat.le_refl 1) (fun _ => rfl) _ _ 0 ()).mpr ⟨rfl, rfl⟩

/-- Two sensors: with `devices` = 0 only the first is configured, and with `devices` = 2
there is no end. -/
theorem init_two :
    (init (recorded quiet) 2 .res12bit
        #v[#v[0x28, 1, 2, 3, 4, 5, 6, 7], #v[0x28, 7, 6, 5, 4, 3, 2, 1]] 0 ([], ())).map
      (·.2.1) = some (rowEvents .res12bit #v[0x28, 1, 2, 3, 4, 5, 6, 7]) ∧
    ¬ Initialises quiet .res12bit
      #v[#v[0x28, 1, 2, 3, 4, 5, 6, 7], #v[0x28, 7, 6, 5, 4, 3, 2, 1]] 0 () 2 ∧
    ¬ Initialises quiet .res12bit
      #v[#v[0x28, 1, 2, 3, 4, 5, 6, 7], #v[0x28, 7, 6, 5, 4, 3, 2, 1]] 2 () 2 := by
  refine ⟨by decide, ?_, ?_⟩
  · intro h
    exact absurd (h.one_row (fun _ => rfl) (by decide)) (by decide)
  · rintro ⟨fuel, bus', hinit⟩
    rw [init, initLoop_never_ends (fun _ => rfl) (by decide) (by decide)] at hinit
    cases hinit

end MyLibraries.OneWire
