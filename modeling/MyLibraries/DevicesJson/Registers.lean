import Mathlib.Algebra.Group.Nat.Defs
import Mathlib.Data.List.Induction
import MyLibraries.DevicesJson.Model

/-!
# What a register answers

The list of a device has the steps of its registers one behind the other, so that only the
first register with steps is answered from the start. A read of a register is right when the
step in the list and the step of the register are both missing, or agree in the bytes that are
read (`reads_iff`); this is so at all steps if no other register of the device has any
(`agrees_of_only`).
-/

namespace MyLibraries.DevicesJson

/-- The registers that are described for an address. -/
def registersOf (devices : List DeviceEntry) (address : UInt8) : List RegisterEntry :=
  (devices.filter fun device => device.Selected address).flatMap (·.registers)

/-- The steps of all registers, one behind the other. -/
def allSteps (devices : List DeviceEntry) (address : UInt8) : List UInt16 :=
  (registersOf devices address).flatMap fun entry => entry.steps.map UInt32.toUInt16

/-- The steps of a register. -/
def ownSteps (devices : List DeviceEntry) (address regAddr : UInt8) : List UInt16 :=
  ((registersOf devices address).filter fun entry => entry.address = regAddr.toUInt32).flatMap
    fun entry => entry.steps.map UInt32.toUInt16

/-- The number of steps since the construction or the last reset. -/
def stepsSince (ops : List Op) : Nat :=
  ops.foldl (fun k op => match op with
    | .step => k + 1
    | .reset => 0
    | .read _ _ => k) 0

/-- What a read has to answer of a step, missing or not. -/
def Answers (own : Option UInt16) (length : Nat) (answer : Except Error (List UInt8)) : Prop :=
  match own with
  | none => ∃ what, answer = .error (.outOfRange what)
  | some value => answer = bytes value length

/-- Two steps, missing or not, that cannot be told apart by a read of the length. -/
def Agree (length : Nat) : Option UInt16 → Option UInt16 → Prop
  | none, none => True
  | some a, some b => (length = 1 → a.toUInt8 = b.toUInt8) ∧ (length = 2 → a = b)
  | _, _ => False

variable {devices : List DeviceEntry} {address regAddr : UInt8} {length k : Nat}

/-! ## The constructor -/

theorem pushBack_foldl (key : Nat) (steps : Steps) (values : List UInt16) :
    values.foldl (pushBack key) steps key =
      if values = [] then steps key else some ((steps key).getD [] ++ values) := by
  induction values using List.reverseRecOn with
  | nil => rfl
  | append_singleton values value ih =>
      rw [List.foldl_append, List.foldl_cons, List.foldl_nil, pushBack, Function.update_self, ih]
      by_cases hnone : values = []
      · simp [hnone]
      · simp [hnone]

/-- The loops of the constructor go through one list. -/
theorem construct_steps (devices : List DeviceEntry) (address : UInt8) :
    (construct devices address).steps =
      (allSteps devices address).foldl (pushBack address.toNat) fun _ => none := by
  rw [allSteps, registersOf, List.foldl_flatMap, List.foldl_flatMap, List.foldl_filter]
  simp only [construct, List.foldl_map, decide_eq_true_eq]
  rfl

theorem construct_steps_own (devices : List DeviceEntry) (address : UInt8) :
    (construct devices address).steps address.toNat =
      if allSteps devices address = [] then none else some (allSteps devices address) := by
  rw [construct_steps, pushBack_foldl]
  rfl

/-! ## Runs -/

theorem stepsSince_concat (ops : List Op) (op : Op) :
    stepsSince (ops ++ [op]) = match op with
      | .step => stepsSince ops + 1
      | .reset => 0
      | .read _ _ => stepsSince ops := by
  rw [stepsSince, List.foldl_append]
  rfl

/-- The counter is the number of steps, as far as its width goes; nothing else changes. -/
theorem run_eq (d : I2cDevice) (hd : d.stepCount = 0) (ops : List Op) :
    ops.foldl apply d = { d with stepCount := .ofNat (stepsSince ops) } := by
  induction ops using List.reverseRecOn with
  | nil =>
      cases d
      cases hd
      rfl
  | append_singleton ops op ih =>
      rw [List.foldl_append, List.foldl_cons, List.foldl_nil, ih, stepsSince_concat]
      cases op with
      | step => simp [apply, step, UInt64.ofNat_add]
      | reset => rfl
      | read _ _ => rfl

/-! ## Reading -/

/-- A read answers the step of the list, whatever the register is. -/
theorem read_eq (devices : List DeviceEntry) (address : UInt8) (ops : List Op)
    (regAddr : UInt8) (length : Nat) :
    Answers (allSteps devices address)[stepsSince ops % 2 ^ 64]? length
      (read (ops.foldl apply (construct devices address)) regAddr length) := by
  have hcount : (UInt64.ofNat (stepsSince ops)).toNat = stepsSince ops % 2 ^ 64 :=
    UInt64.toNat_ofNat' ..
  have hsteps : (construct devices address).steps (construct devices address).address.toNat =
      if allSteps devices address = [] then none else some (allSteps devices address) :=
    construct_steps_own devices address
  rw [run_eq _ rfl, read]
  dsimp only
  rw [hsteps]
  by_cases hnone : allSteps devices address = []
  · rw [if_pos hnone, hnone, List.getElem?_nil]
    exact ⟨_, rfl⟩
  · rw [if_neg hnone]
    dsimp only
    rw [hcount]
    by_cases hend : stepsSince ops % 2 ^ 64 ≥ (allSteps devices address).length
    · rw [if_pos hend, List.getElem?_eq_none hend]
      exact ⟨_, rfl⟩
    · rw [if_neg hend, List.getD_eq_getElem?_getD, List.getElem?_eq_getElem (by omega)]
      rfl

theorem toNat_low (a : UInt16) : (a &&& 0xFF).toUInt8.toNat = a.toNat % 256 := by
  rw [UInt16.toNat_toUInt8, UInt16.toNat_and]
  show (a.toNat &&& 255) % 256 = _
  rw [Nat.and_two_pow_sub_one_eq_mod a.toNat 8, Nat.mod_mod]

theorem toNat_high (a : UInt16) : ((a >>> 8) &&& 0xFF).toUInt8.toNat = a.toNat / 256 := by
  have hlt := a.toNat_lt
  rw [toNat_low, UInt16.toNat_shiftRight]
  show (a.toNat >>> 8) % 256 = _
  rw [Nat.shiftRight_eq_div_pow]
  omega

/-- What the bytes tell of a value. -/
theorem bytes_inj (a b : UInt16) (length : Nat) : bytes a length = bytes b length ↔
    (length = 1 → a.toUInt8 = b.toUInt8) ∧ (length = 2 → a = b) := by
  have hlow : (a &&& 0xFF).toUInt8 = (b &&& 0xFF).toUInt8 ↔ a.toNat % 256 = b.toNat % 256 := by
    rw [← UInt8.toNat_inj, toNat_low, toNat_low]
  have hhigh : ((a >>> 8) &&& 0xFF).toUInt8 = ((b >>> 8) &&& 0xFF).toUInt8 ↔
      a.toNat / 256 = b.toNat / 256 := by
    rw [← UInt8.toNat_inj, toNat_high, toNat_high]
  by_cases h1 : length = 1
  · subst h1
    have hbyte : a.toUInt8 = b.toUInt8 ↔ a.toNat % 256 = b.toNat % 256 := by
      rw [← UInt8.toNat_inj, UInt16.toNat_toUInt8, UInt16.toNat_toUInt8]
    show Except.ok [_] = Except.ok [_] ↔ _
    rw [Except.ok.injEq, List.cons.injEq, and_iff_left rfl, hlow, hbyte]
    simp
  · by_cases h2 : length = 2
    · subst h2
      have hword : a = b ↔ a.toNat / 256 = b.toNat / 256 ∧ a.toNat % 256 = b.toNat % 256 := by
        rw [← UInt16.toNat_inj]
        omega
      show Except.ok [_, _] = Except.ok [_, _] ↔ _
      rw [Except.ok.injEq, List.cons.injEq, List.cons.injEq, and_iff_left rfl, hlow, hhigh, hword]
      simp
    · simp [bytes, h1, h2]

theorem bytes_ne_outOfRange (a : UInt16) (length : Nat) (what : String) :
    bytes a length ≠ .error (.outOfRange what) := by
  unfold bytes
  split
  · simp
  · split <;> simp

/-- Two answers that both are as they have to be belong to steps that agree. -/
theorem answers_iff_agree {a b : Option UInt16} {answer : Except Error (List UInt8)}
    (h : Answers a length answer) : Answers b length answer ↔ Agree length a b := by
  cases a with
  | none =>
      obtain ⟨what, rfl⟩ := h
      cases b with
      | none => exact iff_of_true ⟨what, rfl⟩ trivial
      | some b => exact iff_of_false (bytes_ne_outOfRange b length what).symm id
  | some a =>
      cases h
      cases b with
      | none => exact iff_of_false (fun ⟨what, heq⟩ => bytes_ne_outOfRange a length what heq) id
      | some b => exact bytes_inj a b length

/-- **When the reads of a run answer what the registers are described to have.** -/
theorem reads_iff (devices : List DeviceEntry) (address : UInt8) (ops : List Op) :
    (∀ pre regAddr length, pre ++ [.read regAddr length] <+: ops →
      Answers (ownSteps devices address regAddr)[stepsSince pre]? length
        (read (pre.foldl apply (construct devices address)) regAddr length)) ↔
    ∀ pre regAddr length, pre ++ [.read regAddr length] <+: ops →
      Agree length (allSteps devices address)[stepsSince pre % 2 ^ 64]?
        (ownSteps devices address regAddr)[stepsSince pre]? := by
  refine forall₃_congr fun pre regAddr length => imp_congr_right fun _ => ?_
  exact answers_iff_agree (read_eq devices address pre regAddr length)

/-! ## One register -/

theorem agree_refl (length : Nat) (a : Option UInt16) : Agree length a a := by
  cases a with
  | none => trivial
  | some a => exact ⟨fun _ => rfl, fun _ => rfl⟩

theorem flatMap_filter_of_nil {α β : Type} {p : α → Bool} {f : α → List β} {l : List α}
    (h : ∀ x ∈ l, p x = false → f x = []) : (l.filter p).flatMap f = l.flatMap f := by
  induction l with
  | nil => rfl
  | cons x l ih =>
      have hrest := ih fun y hy => h y (List.mem_cons_of_mem x hy)
      rw [List.filter_cons, List.flatMap_cons, ← hrest]
      cases hp : p x with
      | true => rfl
      | false =>
          rw [h x (List.mem_cons_self ..) hp]
          rfl

/-- No other register of the device has steps. -/
def Only (devices : List DeviceEntry) (address regAddr : UInt8) : Prop :=
  ∀ entry ∈ registersOf devices address, entry.address ≠ regAddr.toUInt32 → entry.steps = []

/-- The only register with steps answers them, until the counter is full. -/
theorem agree_of_only (h : Only devices address regAddr) (hk : k < 2 ^ 64) :
    Agree length (allSteps devices address)[k % 2 ^ 64]?
      (ownSteps devices address regAddr)[k]? := by
  have hsame : ownSteps devices address regAddr = allSteps devices address := by
    refine flatMap_filter_of_nil fun entry hentry hother => ?_
    rw [h entry hentry (of_decide_eq_false hother)]
    rfl
  rw [hsame, Nat.mod_eq_of_lt hk]
  exact agree_refl length _

theorem stepsSince_le (ops : List Op) : stepsSince ops ≤ ops.length := by
  induction ops using List.reverseRecOn with
  | nil => exact Nat.le_refl 0
  | append_singleton ops op ih =>
      rw [stepsSince_concat, List.length_append, List.length_singleton]
      cases op <;> dsimp only <;> omega

/-- The reads of the test, of the only register that it describes. -/
theorem reads_test :
    let d := construct [⟨"I2C", 42, [⟨16, [255, 128, 0]⟩]⟩] 42
    Answers (some 255) 1 (read d 16 1) ∧ Answers (some 128) 1 (read (step d) 16 1) ∧
      Answers (some 0) 1 (read (step (step d)) 16 1) := by
  have hall := (reads_iff [⟨"I2C", 42, [⟨16, [255, 128, 0]⟩]⟩] 42
    [.read 16 1, .step, .read 16 1, .step, .read 16 1]).mpr ?_
  · exact ⟨hall [] 16 1 ⟨_, rfl⟩, hall [.read 16 1, .step] 16 1 ⟨_, rfl⟩,
      hall [.read 16 1, .step, .read 16 1, .step] 16 1 ⟨_, rfl⟩⟩
  · intro pre regAddr length hpre
    have hmem := hpre.subset (List.mem_append_right pre (List.mem_singleton.mpr rfl))
    obtain ⟨rfl, rfl⟩ : regAddr = 16 ∧ length = 1 := by simpa using hmem
    refine agree_of_only (by unfold Only; decide) ?_
    have hlen := hpre.length_le
    have hsteps := stepsSince_le pre
    rw [List.length_append] at hlen
    simp only [List.length_cons, List.length_nil] at hlen
    omega

/-- With a second register on the device, a read of it answers the step of the first one. -/
theorem second_register_lost :
    let devices : List DeviceEntry := [⟨"I2C", 42, [⟨16, [255, 128]⟩, ⟨17, [1]⟩]⟩]
    (ownSteps devices 42 17)[0]? = some 1 ∧ read (construct devices 42) 17 1 = .ok [255] ∧
      ¬ ∀ devices address ops regAddr length,
        Answers (ownSteps devices address regAddr)[stepsSince ops]? length
          (read (ops.foldl apply (construct devices address)) regAddr length) := by
  intro devices
  have hown : (ownSteps devices 42 17)[0]? = some 1 := by decide
  have hread : read (construct devices 42) 17 1 = .ok [255] := by decide
  refine ⟨hown, hread, fun hall => ?_⟩
  have hanswer : Answers (ownSteps devices 42 17)[0]? 1 (read (construct devices 42) 17 1) :=
    hall devices 42 [] 17 1
  rw [hown, hread] at hanswer
  have hbytes : Except.ok [255] = bytes 1 1 := hanswer
  exact absurd hbytes (by decide)

end MyLibraries.DevicesJson
