import MyLibraries.OneWire.Multi

/-!
# Which sensor is converted, and which is read

`Devices` is what the sensors of a bus do: `MATCH_ROM` and eight bytes address the sensor
with that code, and a sensor latches a new scratchpad only when it is addressed by a
conversion command. `StartConversion` addresses the row `num - 1` of the table and
`ReadTemperature` the row `num`, so what is read is not what the conversion has latched
(`read_after_start`).
-/

namespace MyLibraries.OneWire

/-- The nine bytes that a sensor holds. -/
abbrev Pad := Vector UInt8 9

/-- What the devices wait for. Codes are those whose bytes have been written, and no bytes
stand for all devices. -/
inductive Phase
  | idle
  | command
  | address (bytes : List UInt8)
  | function (bytes : Option (List UInt8))
  | scratchpad (bytes : Option (List UInt8)) (next : Nat)

structure Devices where
  phase : Phase
  pad : Rom → Pad

def Devices.reset (d : Devices) : Devices := { d with phase := .command }

/-- The pads after a conversion command; `fresh` is what the addressed sensors measure. -/
def Devices.convert (d : Devices) (bytes : Option (List UInt8)) (fresh : Rom → Pad) : Rom → Pad :=
  fun r => if bytes = none ∨ bytes = some r.toList then fresh r else d.pad r

/-- A byte that is written. -/
def Devices.write (d : Devices) (value : UInt8) (fresh : Rom → Pad) : Devices :=
  match d.phase with
  | .command =>
    if value = matchRom then { d with phase := .address [] }
    else if value = skipRom then { d with phase := .function none }
    else { d with phase := .idle }
  | .address bytes =>
    if bytes.length = 7 then { d with phase := .function (some (bytes ++ [value])) }
    else { d with phase := .address (bytes ++ [value]) }
  | .function bytes =>
    if value = convertTCmd then { phase := .idle, pad := d.convert bytes fresh }
    else if value = readStratchpadCmd then { d with phase := .scratchpad bytes 0 }
    else { d with phase := .idle }
  | .scratchpad _ _ => d
  | .idle => d

/-- The devices after a byte that is read. -/
def Devices.advance (d : Devices) : Devices :=
  match d.phase with
  | .scratchpad bytes next => { d with phase := .scratchpad bytes (next + 1) }
  | _ => d

/-- A bus with such devices; `view` is what they do. -/
structure Latching {β : Type} (interface : ByteInterface β) (view : β → Devices) : Prop where
  reset : ∀ s, (interface.reset s).1 = .success →
    view (interface.reset s).2 = (view s).reset
  failed : ∀ s, (view (interface.reset s).2).pad = (view s).pad
  write : ∀ s value, ∃ fresh, view (interface.write value s) = (view s).write value fresh
  read : ∀ s, view (interface.read s).2 = (view s).advance
  byte : ∀ s r k, (view s).phase = .scratchpad (some (Vector.toList r)) k → (hk : k < 9) →
    (interface.read s).1 = ((view s).pad r)[k]

/-- The calls of the two functions. -/
inductive Call
  | start (num : Int)
  | read (num : Int)
  deriving DecidableEq

variable {β : Type} {maxDevices : Nat} {interface : ByteInterface β} {view : β → Devices}
  {serialNumber : Vector Rom maxDevices} {s s' : β} {r : Rom} {num : Int} {temp : ℚ}

/-- What a call leaves of the bus. -/
def Call.run (interface : ByteInterface β) (serialNumber : Vector Rom maxDevices) (s : β) :
    Call → Option β
  | .start num => (startConversion interface.toInterface serialNumber num s).map (·.2)
  | .read num => (readTemperature interface serialNumber 0 num s).map (·.2.2)

/-! ## One call -/

/-- The bytes of a code address its sensor. -/
theorem view_bytes (hbus : Latching interface view) {done : List UInt8} (bytes : List UInt8)
    (hphase : (view s).phase = .address done) (hlen : done.length + bytes.length = 8)
    (hne : bytes ≠ []) :
    view (bytes.foldl (fun bus byte => interface.write byte bus) s) =
      { view s with phase := .function (some (done ++ bytes)) } := by
  induction bytes generalizing done s with
  | nil => exact absurd rfl hne
  | cons byte bytes ih =>
    rw [List.length_cons] at hlen
    obtain ⟨fresh, hwrite⟩ := hbus.write s byte
    rw [List.foldl_cons]
    cases bytes with
    | nil =>
      rw [List.length_nil] at hlen
      rw [List.foldl_nil, hwrite, Devices.write, hphase]
      exact if_pos (by omega)
    | cons byte' bytes =>
      rw [List.length_cons] at hlen
      have hnext : view (interface.write byte s) =
          { view s with phase := .address (done ++ [byte]) } := by
        rw [hwrite, Devices.write, hphase]
        exact if_neg (by omega)
      have hnext' : (view (interface.write byte s)).phase = .address (done ++ [byte]) := by
        rw [hnext]
      have hlen' : (done ++ [byte]).length + (byte' :: bytes).length = 8 := by
        simp
        omega
      rw [ih hnext' hlen' (List.cons_ne_nil _ _), hnext, List.append_assoc]
      rfl

theorem view_matchRow (hbus : Latching interface view) (row : Rom)
    (hphase : (view s).phase = .command) :
    view (matchRow interface.toInterface row s) =
      { view s with phase := .function (some row.toList) } := by
  obtain ⟨fresh, hwrite⟩ := hbus.write s matchRom
  have hmatch : view (interface.write matchRom s) = { view s with phase := .address [] } := by
    rw [hwrite, Devices.write, hphase]
    exact if_pos rfl
  have hlen : row.toList.length = 8 := Vector.length_toList
  rw [matchRow, view_bytes hbus row.toList (by rw [hmatch]) (by rw [hlen]; rfl)
    (List.ne_nil_of_length_eq_add_one hlen), hmatch]
  rfl

/-- What a conversion leaves of the pads: those of the addressed sensor are new. -/
theorem startConversion_pad (hbus : Latching interface view) (hnum : num ≠ 0) {res : Result}
    (h : startConversion interface.toInterface serialNumber num s = some (res, s')) :
    (res ≠ .success ∧ (view s').pad = (view s).pad) ∨
      ∃ (row : Rom) (fresh : Rom → Pad), serialRow serialNumber (num - 1) = some row ∧
        (view s').pad = fun r => if r = row then fresh r else (view s).pad r := by
  rw [startConversion] at h
  by_cases hreset : (interface.reset s).1 = .success
  · simp only [hreset, ne_eq, not_true_eq_false, if_false, if_neg hnum, Option.bind_eq_bind] at h
    obtain ⟨row, hrow, h⟩ := Option.bind_eq_some_iff.mp h
    simp only [Option.some.injEq, Prod.mk.injEq] at h
    obtain ⟨-, rfl⟩ := h
    have hview := view_matchRow hbus (s := (interface.reset s).2) row (by
      rw [hbus.reset s hreset]
      rfl)
    obtain ⟨fresh, hwrite⟩ := hbus.write
      (matchRow interface.toInterface row (interface.reset s).2) convertTCmd
    refine Or.inr ⟨row, fresh, hrow, ?_⟩
    rw [hwrite, hview, Devices.write]
    funext r
    show (if _ ∨ _ then _ else (view (interface.reset s).2).pad r) = _
    rw [hbus.failed]
    by_cases hr : r = row
    · subst hr
      rw [if_pos (Or.inr rfl), if_pos rfl]
    · rw [if_neg hr, if_neg]
      rintro (hnone | hsome)
      · cases hnone
      · exact hr (Vector.toList_inj.mp (Option.some.inj hsome)).symm
  · simp only [ne_eq, hreset, not_false_eq_true, if_true, Option.some.injEq, Prod.mk.injEq] at h
    obtain ⟨rfl, rfl⟩ := h
    exact Or.inl ⟨hreset, hbus.failed s⟩

/-- The bytes that are read are those of the pad. -/
theorem readBuf_pad (hbus : Latching interface view) (n : Nat) {k : Nat}
    (hphase : (view s).phase = .scratchpad (some r.toList) k) (hk : k + n ≤ 9) :
    (readBuf interface n s).1 = (((view s).pad r).toList.drop k).take n ∧
      (view (readBuf interface n s).2).pad = (view s).pad := by
  induction n generalizing s k with
  | zero => exact ⟨rfl, rfl⟩
  | succ n ih =>
    have hview : view (interface.read s).2 =
        { view s with phase := .scratchpad (some r.toList) (k + 1) } := by
      rw [hbus.read, Devices.advance, hphase]
    obtain ⟨hbuf, hpad⟩ := ih (s := (interface.read s).2) (k := k + 1) (by rw [hview]) (by omega)
    rw [hview] at hbuf hpad
    have hlen : k < ((view s).pad r).toList.length := by
      rw [Vector.length_toList]
      omega
    refine ⟨?_, hpad⟩
    show (interface.read s).1 :: (readBuf interface n (interface.read s).2).1 = _
    rw [hbuf, hbus.byte s r k hphase (by omega), List.drop_eq_getElem_cons hlen,
      List.take_succ_cons, Vector.getElem_toList]

/-- **A reading** leaves the pads, and its temperature is that of the addressed sensor. -/
theorem readTemperature_pad (hbus : Latching interface view) {res : Result} {t : ℚ}
    (h : readTemperature interface serialNumber temp num s = some (res, t, s')) :
    (view s').pad = (view s).pad ∧ (res = .success → ∃ row : Rom,
      serialRow serialNumber num = some row ∧ t = rawValue ((view s).pad row).toList / 16) := by
  rw [readTemperature] at h
  by_cases hreset : (interface.reset s).1 = .success
  · simp only [hreset, ne_eq, not_true_eq_false, if_false, Option.bind_eq_bind] at h
    obtain ⟨row, hrow, h⟩ := Option.bind_eq_some_iff.mp h
    have hview := view_matchRow hbus (s := (interface.reset s).2) row (by
      rw [hbus.reset s hreset]
      rfl)
    obtain ⟨fresh, hwrite⟩ := hbus.write
      (matchRow interface.toInterface row (interface.reset s).2) readStratchpadCmd
    rw [hview] at hwrite
    have hstart : view (interface.write readStratchpadCmd
        (matchRow interface.toInterface row (interface.reset s).2)) =
          { view (interface.reset s).2 with phase := .scratchpad (some row.toList) 0 } := hwrite
    obtain ⟨hbuf, hpad⟩ := readBuf_pad hbus stratchpadSize
      (s := interface.write readStratchpadCmd
        (matchRow interface.toInterface row (interface.reset s).2)) (by rw [hstart])
      (by decide)
    rw [hstart, hbus.failed] at hpad hbuf
    rw [List.drop_zero, List.take_of_length_le (by rw [Vector.length_toList]; decide)] at hbuf
    rw [hbuf] at h
    split at h
    · simp only [Option.some.injEq, Prod.mk.injEq] at h
      obtain ⟨rfl, -, rfl⟩ := h
      exact ⟨hpad, fun hsuccess => Result.noConfusion hsuccess⟩
    · split at h
      · simp only [Option.some.injEq, Prod.mk.injEq] at h
        obtain ⟨rfl, -, rfl⟩ := h
        exact ⟨hpad, fun hsuccess => Result.noConfusion hsuccess⟩
      · simp only [Option.some.injEq, Prod.mk.injEq] at h
        obtain ⟨-, rfl, rfl⟩ := h
        exact ⟨hpad, fun _ => ⟨row, hrow, rfl⟩⟩
  · simp only [ne_eq, hreset, not_false_eq_true, if_true, Option.some.injEq, Prod.mk.injEq] at h
    obtain ⟨rfl, rfl, rfl⟩ := h
    exact ⟨hbus.failed s, fun hsuccess => absurd hsuccess hreset⟩

/-! ## Runs -/

/-- A sensor number that the functions take for one sensor. -/
def Call.Numbered (maxDevices : Nat) : Call → Prop
  | .start num => 1 ≤ num ∧ num ≤ maxDevices - 1
  | .read num => 1 ≤ num ∧ num ≤ maxDevices - 1

theorem serialRow_eq (serialNumber : Vector Rom maxDevices) (i : Int) (hmin : 0 ≤ i)
    (hmax : i < maxDevices) :
    ∃ row, serialRow serialNumber i = some row := by
  refine ⟨serialNumber[i.toNat], ?_⟩
  rw [serialRow, if_pos hmin, Vector.getElem?_eq_getElem]

/-- Distinct rows are different sensors. -/
theorem serialRow_injective (hdistinct : serialNumber.toList.Nodup) {i j : Int} {row : Rom}
    (hi : serialRow serialNumber i = some row) (hj : serialRow serialNumber j = some row) :
    i = j := by
  rw [serialRow, Option.ite_none_right_eq_some] at hi hj
  obtain ⟨hi0, hi⟩ := hi
  obtain ⟨hj0, hj⟩ := hj
  rw [Vector.getElem?_eq_some_iff] at hi hj
  obtain ⟨hilt, hi⟩ := hi
  obtain ⟨hjlt, hj⟩ := hj
  have hnat : i.toNat = j.toNat := by
    have hilen : i.toNat < serialNumber.toList.length := by rwa [Vector.length_toList]
    have hjlen : j.toNat < serialNumber.toList.length := by rwa [Vector.length_toList]
    have hrow : serialNumber.toList[i.toNat] = serialNumber.toList[j.toNat] := by
      rw [Vector.getElem_toList, Vector.getElem_toList, hi, hj]
    exact hdistinct.getElem_inj_iff.mp hrow
  omega

/-- A call changes the pad of the row `num` only if it converts the sensor `num + 1`. -/
theorem Call.run_pad (hbus : Latching interface view) (hdistinct : serialNumber.toList.Nodup)
    {row : Rom} (hrow : serialRow serialNumber num = some row) {c : Call}
    (hnum : c.Numbered maxDevices) (hc : c ≠ .start (num + 1))
    (hrun : c.run interface serialNumber s = some s') : (view s').pad row = (view s).pad row := by
  cases c with
  | start k =>
    obtain ⟨⟨res, s''⟩, hstart, rfl⟩ := Option.map_eq_some_iff.mp hrun
    have hk : k ≠ 0 := by
      have := hnum.1
      omega
    rcases startConversion_pad hbus hk hstart with ⟨-, hpad⟩ | ⟨row', fresh, hrow', hpad⟩
    · exact congrFun hpad row
    · have hne : row ≠ row' := by
        rintro rfl
        have := serialRow_injective hdistinct hrow hrow'
        apply hc
        congr 1
        omega
      rw [hpad]
      exact if_neg hne
  | read k =>
    obtain ⟨⟨res, t, s''⟩, hread, rfl⟩ := Option.map_eq_some_iff.mp hrun
    exact congrFun (readTemperature_pad hbus hread).1 row

theorem run_pad (hbus : Latching interface view) (hdistinct : serialNumber.toList.Nodup)
    {row : Rom} (hrow : serialRow serialNumber num = some row) {calls : List Call}
    (hnum : ∀ c ∈ calls, c.Numbered maxDevices) (hcalls : .start (num + 1) ∉ calls)
    (hrun : calls.foldlM (Call.run interface serialNumber) s = some s') :
    (view s').pad row = (view s).pad row := by
  induction calls generalizing s with
  | nil =>
    obtain rfl := Option.some.inj hrun
    rfl
  | cons c calls ih =>
    obtain ⟨s'', hc, hrest⟩ := Option.bind_eq_some_iff.mp hrun
    rw [List.mem_cons, not_or] at hcalls
    rw [ih (fun c' hc' => hnum c' (List.mem_cons_of_mem _ hc')) hcalls.2 hrest]
    exact Call.run_pad hbus hdistinct hrow (hnum c List.mem_cons_self) (Ne.symm hcalls.1) hc

/-- **What is read after a conversion**: `StartConversion num` has succeeded and the sensor of
the row `num - 1` has latched its pad, then come other calls, then `ReadTemperature num`
succeeds. It yields what was latched exactly when the sensor of the row `num`, which is
another one, happens to hold the same value; and without a call of
`StartConversion (num + 1)` that is what it held before. -/
theorem read_after_start (hbus : Latching interface view) (serialNumber : Vector Rom maxDevices)
    (hdistinct : serialNumber.toList.Nodup) (num : Int) (hlow : 1 ≤ num)
    (hhigh : num ≤ maxDevices - 1) (calls : List Call)
    (hcalls : ∀ c ∈ calls, c.Numbered maxDevices) {s₀ s₁ s₂ s₃ : β} {t : ℚ}
    (hstart : startConversion interface.toInterface serialNumber num s₀ = some (.success, s₁))
    (hrun : calls.foldlM (Call.run interface serialNumber) s₁ = some s₂)
    (hread : readTemperature interface serialNumber temp num s₂ = some (.success, t, s₃)) :
    ∃ converted other, serialRow serialNumber (num - 1) = some converted ∧
      serialRow serialNumber num = some other ∧ other ≠ converted ∧
      (t = rawValue ((view s₁).pad converted).toList / 16 ↔
        rawValue ((view s₂).pad other).toList = rawValue ((view s₁).pad converted).toList) ∧
      (.start (num + 1) ∉ calls → (view s₂).pad other = (view s₀).pad other) := by
  obtain ⟨converted, hconverted⟩ :=
    serialRow_eq serialNumber (num - 1) (by omega) (by omega)
  obtain ⟨-, hreads⟩ := readTemperature_pad hbus hread
  obtain ⟨other, hother, rfl⟩ := hreads rfl
  have hne : other ≠ converted := by
    rintro rfl
    have := serialRow_injective hdistinct hother hconverted
    omega
  refine ⟨converted, other, hconverted, hother, hne, ?_, fun hnone => ?_⟩
  · rw [div_left_inj' (by decide), Int.cast_inj]
  · rw [run_pad hbus hdistinct hother hcalls hnone hrun]
    have hfirst : (Call.start num).run interface serialNumber s₀ = some s₁ := by
      rw [Call.run, hstart]
      rfl
    refine Call.run_pad hbus hdistinct hother (c := .start num) ⟨hlow, hhigh⟩ ?_ hfirst
    intro heq
    have := Call.start.inj heq
    omega

/-- Devices that measure `fresh`. -/
def bench (fresh : Rom → Pad) : ByteInterface Devices where
  reset d := (.success, d.reset)
  write value d := d.write value fresh
  writeBit _ d := d
  readBit d := (0, d)
  read d :=
    (match d.phase with
      | .scratchpad (some bytes) k =>
        if h : bytes.toArray.size = 8 then (d.pad ⟨bytes.toArray, h⟩).toList.getD k 0xFF else 0xFF
      | _ => 0xFF, d.advance)

theorem bench_latching (fresh : Rom → Pad) : Latching (bench fresh) id := by
  refine ⟨fun _ _ => rfl, fun _ => rfl, fun _ _ => ⟨fresh, rfl⟩, fun _ => rfl, ?_⟩
  intro d r k hphase hk
  have hphase' : d.phase = .scratchpad (some r.toList) k := hphase
  have hsize : r.toList.toArray.size = 8 := by simp
  show (match d.phase with
    | .scratchpad (some bytes) k =>
      if h : bytes.toArray.size = 8 then (d.pad ⟨bytes.toArray, h⟩).toList.getD k 0xFF else 0xFF
    | _ => 0xFF) = (d.pad r)[k]
  rw [hphase']
  show (if h : r.toList.toArray.size = 8 then _ else _) = _
  have hrom : (⟨r.toList.toArray, hsize⟩ : Rom) = r := by
    apply Vector.toList_inj.mp
    rfl
  rw [dif_pos hsize, hrom]
  simp [hk]

/-- Two sensors that hold 85 °C, as after power-on, where it is 25.0625 °C. -/
def powerOn : Devices := ⟨.idle, fun _ => #v[0x50, 0x05, 0x4B, 0x46, 0x7F, 0xFF, 0x0C, 0x10, 0x1C]⟩

def warm : Rom → Pad := fun _ => #v[0x91, 0x01, 0x4B, 0x46, 0x7F, 0xFF, 0x0C, 0x10, 0x70]

def twoSensors : Vector Rom 2 := #v[#v[0x28, 1, 2, 3, 4, 5, 6, 7], #v[0x28, 7, 6, 5, 4, 3, 2, 1]]

theorem start_read_run : ∃ s₁ s₃,
    startConversion (bench warm).toInterface twoSensors 1 powerOn = some (.success, s₁) ∧
    readTemperature (bench warm) twoSensors 0 1 s₁ = some (.success, 85, s₃) ∧
    rawValue (s₁.pad twoSensors[0]).toList = 401 := by
  have hrun : (startConversion (bench warm).toInterface twoSensors 1 powerOn).bind (fun first =>
      (readTemperature (bench warm) twoSensors 0 1 first.2).map fun second =>
        (first.1, second.1, second.2.1, rawValue (first.2.pad twoSensors[0]).toList)) =
      some (.success, .success, 85, 401) := by decide +kernel
  obtain ⟨⟨res, s₁⟩, hstart, hrest⟩ := Option.bind_eq_some_iff.mp hrun
  obtain ⟨⟨res', t, s₃⟩, hread, hvalues⟩ := Option.map_eq_some_iff.mp hrest
  simp only [Prod.mk.injEq] at hvalues
  obtain ⟨rfl, rfl, rfl, hraw⟩ := hvalues
  exact ⟨s₁, s₃, hstart, hread, hraw⟩

/-- In this run the second sensor holds what it held after power-on. -/
theorem read_after_start_two : ∃ (converted other : Rom) (s₁ : Devices), other ≠ converted ∧
    ((85 : ℚ) = rawValue (s₁.pad converted).toList / 16 ↔
      rawValue (s₁.pad other).toList = rawValue (s₁.pad converted).toList) ∧
    s₁.pad other = powerOn.pad other := by
  obtain ⟨s₁, s₃, hstart, hread, -⟩ := start_read_run
  obtain ⟨converted, other, -, -, hne, hiff, hheld⟩ :=
    read_after_start (bench_latching warm) twoSensors (by decide) 1 (by decide) (by decide) []
      (fun c hc => absurd hc List.not_mem_nil) hstart rfl hread
  exact ⟨converted, other, s₁, hne, hiff, hheld List.not_mem_nil⟩

/-- The first sensor has latched 25.0625 °C, and the reading says 85 °C. -/
theorem start_read_two : ∃ s₁ s₃,
    startConversion (bench warm).toInterface twoSensors 1 powerOn = some (.success, s₁) ∧
    readTemperature (bench warm) twoSensors 0 1 s₁ = some (.success, 85, s₃) ∧
    ¬ (85 : ℚ) = rawValue (s₁.pad twoSensors[0]).toList / 16 := by
  obtain ⟨s₁, s₃, hstart, hread, hraw⟩ := start_read_run
  refine ⟨s₁, s₃, hstart, hread, ?_⟩
  rw [hraw]
  decide +kernel

end MyLibraries.OneWire
