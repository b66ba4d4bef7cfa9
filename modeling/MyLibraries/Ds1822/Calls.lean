import MyLibraries.Ds1822.Chip

/-!
# The calls for one sensor

`DS1822_Configure`, `DS1822_Start_Conversion` and `DS1822_Get_Conversion_Result` over the
functions of `1-Wire.c`; `Crc8Dallas` is not part of the repository. On a bus of sensors with
different codes each call is one step of the registers of the sensor that it addresses, and the
others keep theirs: `configure_sensors`, `startConversion_sensors`, `getResult_sensors`.
-/

namespace MyLibraries.Ds1822

open SlotBus OneWire

/-- `DS1822_TypeDef`; the resolution is the value of the enumerator, or what is cast to it. -/
structure DS1822 where
  sn : Rom
  temp16 : Nat
  th : UInt8
  tl : UInt8
  resolution : Nat

section Functions

variable {β : Type} (pins : Pins β)

/-- `DS1822_FindSensor`. -/
def findSensor (dev : DS1822) (bus : β) : β :=
  dev.sn.toList.foldl (fun bus byte => oneWireWriteByte pins byte bus)
    (oneWireWriteByte pins matchRomCmd bus)

/-- `DS1822_Configure`. -/
def configure (dev : DS1822) (bus : β) : Error × β :=
  let (result, bus) := oneWireReset pins bus
  if result ≠ .success then (result, bus)
  else
    let bus := findSensor pins dev bus
    let bus := oneWireWriteByte pins writeStratchpadCmd bus
    let bus := oneWireWriteByte pins dev.th bus
    let bus := oneWireWriteByte pins dev.tl bus
    let bus := oneWireWriteByte pins (UInt8.ofNat ((dev.resolution <<< 5) ||| 0x1F)) bus
    (.success, bus)

/-- `DS1822_Start_Conversion`. -/
def startConversion (dev : DS1822) (bus : β) : Error × β :=
  let (result, bus) := oneWireReset pins bus
  if result ≠ .success then (result, bus)
  else
    let bus := findSensor pins dev bus
    (.success, oneWireWriteByte pins convertTCmd bus)

/-- The loop that reads the sensor's buffer. -/
def readBuffer (bus : β) : List UInt8 × β :=
  (List.range 9).foldl
    (fun acc _ => (acc.1 ++ [(oneWireReadByte pins acc.2).1], (oneWireReadByte pins acc.2).2))
    ([], bus)

/-- `DS1822_Get_Conversion_Result`. -/
def getConversionResult (crc8Dallas : List UInt8 → UInt8) (dev : DS1822) (bus : β) :
    Error × DS1822 × β :=
  let (result, bus) := oneWireReset pins bus
  if result ≠ .success then (result, dev, bus)
  else
    let bus := findSensor pins dev bus
    let bus := oneWireWriteByte pins readStratchpadCmd bus
    let (inbuff, bus) := readBuffer pins bus
    let at_ := fun k => (inbuff.getD k 0).toNat
    if crc8Dallas inbuff = 0 then
      (.success,
        { dev with
          temp16 := at_ 0 ||| at_ 1 <<< 8
          th := inbuff.getD 2 0
          tl := inbuff.getD 3 0
          resolution := (at_ 4 <<< 5) &&& 0x60 },
        bus)
    else (.crcError, dev, bus)

end Functions

/-- `DS1822_GetConversionDelayValue`; `none` is an access behind the array. -/
def getConversionDelayValue (dev : DS1822) : Option Nat := [100, 200, 400, 800][dev.resolution]?

/-! ## One sensor is addressed -/

/-- The sensor with this code is in some state, and the others are idle. -/
def pick (sn : Rom) (f : Registers → Chip) (r : Registers) : Chip :=
  if r.rom = sn then f r else ⟨r, .idle⟩

/-- The low of a reset does not change what the sensor keeps, whatever that is. -/
def Settled (c : Chip) : Prop := ∀ r, (chipLogic.slot false ⟨r, c.stage⟩).registers = r

/-- A bus between two calls, whose sensors keep these registers. -/
def Sensors (ts : List Timing) (bus : Bus Chip) (rs : List Registers) : Prop :=
  ∃ states, Resting ts bus states ∧ states.map Chip.registers = rs ∧ ∀ c ∈ states, Settled c

/-- The registers of the sensor with this code change. -/
def update (sn : Rom) (f : Registers → Registers) (rs : List Registers) : List Registers :=
  rs.map fun r => if r.rom = sn then f r else r

variable {ts : List Timing} {bus : Bus Chip} {rs : List Registers} {r₀ : Registers} {sn : Rom}
  {f g : Registers → Chip} {bits : List Bool}

theorem pick_run (hrun : ∀ r, Hears chipLogic bits (f r) ∧ after chipLogic bits (f r) = g r)
    (r : Registers) :
    Hears chipLogic bits (pick sn f r) ∧ after chipLogic bits (pick sn f r) = pick sn g r := by
  unfold pick
  by_cases hr : r.rom = sn
  · rw [if_pos hr, if_pos hr]
    exact hrun r
  · rw [if_neg hr, if_neg hr]
    exact idle_run r bits

theorem sensors_pick (hrest : Resting ts bus (rs.map (pick sn f)))
    (hregisters : ∀ r, (f r).registers = r) (hsettled : ∀ r, Settled (f r)) :
    Sensors ts bus rs := by
  refine ⟨_, hrest, ?_, ?_⟩
  · rw [List.map_map]
    refine (List.map_congr_left fun r _ => ?_).trans (List.map_id _)
    show (pick sn f r).registers = r
    unfold pick
    split
    · exact hregisters r
    · rfl
  · intro c hc
    obtain ⟨r, -, rfl⟩ := List.mem_map.mp hc
    unfold pick
    split
    · exact hsettled r
    · exact fun _ => rfl

/-- The sensor that is addressed ends in the stage `idle`. -/
theorem sensors_update {h : Registers → Registers}
    (hrest : Resting ts bus (rs.map (pick sn fun r => ⟨h r, .idle⟩))) :
    Sensors ts bus (update sn h rs) := by
  refine ⟨_, hrest, ?_, ?_⟩
  · rw [List.map_map]
    refine List.map_congr_left fun r _ => ?_
    show (pick sn (fun r => ⟨h r, .idle⟩) r).registers = _
    unfold pick
    split <;> rfl
  · intro c hc
    obtain ⟨r, -, rfl⟩ := List.mem_map.mp hc
    unfold pick
    split <;> exact fun _ => rfl

section Calls

variable (hts : ∀ t ∈ ts, Fits t)
include hts

/-- A reset: all sensors wait for a ROM command. -/
theorem reset_sensors (hheard : heard ts = true) (h : Sensors ts bus rs) :
    ∃ bus', oneWireReset (busPins chipLogic) bus = (.success, bus') ∧
      Resting ts bus' (rs.map fun r => ⟨r, .romCommand []⟩) := by
  obtain ⟨states, hrest, hrs, hsettled⟩ := h
  obtain ⟨bus', hreset, hrest'⟩ := reset_rests hts hrest
  rw [hheard, if_pos rfl] at hreset
  refine ⟨bus', hreset, ?_⟩
  rw [← hrs, List.map_map]
  rwa [List.map_congr_left fun c hc => show chipLogic.reset (chipLogic.slot false c) =
    (fun r : Registers => (⟨r, .romCommand []⟩ : Chip)) c.registers from
      congrArg (Chip.mk · (.romCommand [])) (hsettled c hc c.registers)] at hrest'

/-- A reset and `DS1822_FindSensor`: the sensor waits for a function command. -/
theorem find_sensors (hheard : heard ts = true) (h : Sensors ts bus rs) (dev : DS1822) :
    ∃ bus', oneWireReset (busPins chipLogic) bus = (.success, bus') ∧
      Resting ts (findSensor (busPins chipLogic) dev bus')
        (rs.map (pick dev.sn fun r => ⟨r, .function []⟩)) := by
  obtain ⟨bus', hreset, hrest⟩ := reset_sensors hts hheard h
  refine ⟨bus', hreset, ?_⟩
  refine writeBytes_map hts hrest (matchRomCmd :: dev.sn.toList) fun r => ?_
  obtain ⟨hhears, hafter⟩ := select_run r dev.sn
  refine ⟨hhears, hafter.trans ?_⟩
  unfold pick
  split <;> rfl

theorem startConversion_sensors (hheard : heard ts = true) (h : Sensors ts bus rs) (dev : DS1822) :
    ∃ bus', startConversion (busPins chipLogic) dev bus = (.success, bus') ∧
      Sensors ts bus' (update dev.sn (fun r => { r with temp := r.surroundings }) rs) := by
  obtain ⟨bus₁, hreset, hrest⟩ := find_sensors hts hheard h dev
  have hcommand := writeBytes_map hts hrest [convertTCmd] (pick_run fun r => by
    rw [List.flatMap_singleton]
    exact function_run r convertTCmd)
  refine ⟨_, ?_, sensors_update hcommand⟩
  unfold startConversion
  rw [hreset]
  rfl

theorem configure_sensors (hheard : heard ts = true) (h : Sensors ts bus rs) (dev : DS1822) :
    ∃ bus', configure (busPins chipLogic) dev bus = (.success, bus') ∧
      Sensors ts bus' (update dev.sn (fun r => r.configured dev.th dev.tl
        (UInt8.ofNat ((dev.resolution <<< 5) ||| 0x1F))) rs) := by
  obtain ⟨bus₁, hreset, hrest⟩ := find_sensors hts hheard h dev
  have hcommand := writeBytes_map hts hrest [writeStratchpadCmd] (pick_run fun r => by
    rw [List.flatMap_singleton]
    exact function_run r writeStratchpadCmd)
  have hdata := writeBytes_map hts hcommand
    [dev.th, dev.tl, UInt8.ofNat ((dev.resolution <<< 5) ||| 0x1F)]
    (pick_run fun r => writeScratchpad_run r _ _ _)
  refine ⟨_, ?_, sensors_update hdata⟩
  unfold configure
  rw [hreset]
  rfl

omit hts in
/-- The resolution that a sensor takes is that of the structure, if it is one. -/
theorem configured_eq (r : Registers) (th tl : UInt8) (n : Nat) :
    r.configured th tl (UInt8.ofNat ((n <<< 5) ||| 0x1F)) =
      { r with th, tl, resolution := Fin.ofNat 4 n } := by
  have hbyte : Fin.ofNat 4 ((UInt8.ofNat ((n <<< 5) ||| 0x1F)).toNat / 32) = Fin.ofNat 4 n := by
    apply Fin.ext
    rw [← Nat.shiftLeft_add_eq_or_of_lt (by decide : 0x1F < 2 ^ 5), Nat.shiftLeft_eq,
      UInt8.toNat_ofNat', Fin.val_ofNat, Fin.val_ofNat]
    omega
  unfold Registers.configured
  simp only [hbyte]

/-! ## Reading -/

/-- The addressed sensor is about to send these bits. -/
def sending (sn : Rom) (bits : List Bool) : Registers → Chip := pick sn fun r => ⟨r, .send bits⟩

omit hts in
theorem slot_sending (sn : Rom) (bit : Bool) (bits : List Bool) (seen : Bool) (r : Registers) :
    chipLogic.slot seen (sending sn (bit :: bits) r) = sending sn bits r := by
  unfold sending pick
  split <;> rfl

omit hts in
/-- What the sensor sends is what the line shows. -/
theorem sending_shows (hmem : r₀ ∈ rs) (hsn : r₀.rom = sn) (bits rest : List Bool) :
    Shows chipLogic bits (rs.map (sending sn (bits ++ rest))) := by
  induction bits with
  | nil => trivial
  | cons bit bits ih =>
    refine ⟨?_, ?_, ?_⟩
    · intro x hx
      obtain ⟨r, -, rfl⟩ := List.mem_map.mp hx
      rw [List.cons_append, slot_sending, slot_sending]
    · have hpulls : ∀ r, chipLogic.pulls (sending sn (bit :: (bits ++ rest)) r) =
          (decide (r.rom = sn) && !bit) := by
        intro r
        unfold sending pick
        by_cases hr : r.rom = sn
        · rw [if_pos hr, decide_eq_true hr]
          rfl
        · rw [if_neg hr, decide_eq_false hr]
          rfl
      rw [List.cons_append, List.any_map, Bool.eq_iff_iff, Bool.not_eq_true', List.any_eq_false]
      constructor
      · intro hnone
        have hr := hnone r₀ hmem
        rw [Function.comp, hpulls, decide_eq_true hsn] at hr
        simpa using hr
      · intro hbit r _
        rw [Function.comp, hpulls, hbit]
        simp
    · rw [List.map_map, List.cons_append]
      rwa [show chipLogic.slot true ∘ sending sn (bit :: (bits ++ rest)) =
        sending sn (bits ++ rest) from funext fun r => slot_sending sn bit (bits ++ rest) true r]

omit hts in
theorem after_sending (sn : Rom) (bits rest : List Bool) :
    after chipLogic (List.replicate bits.length true) ∘ sending sn (bits ++ rest) =
      sending sn rest := by
  funext r
  induction bits with
  | nil => rfl
  | cons bit bits ih =>
    show after chipLogic (List.replicate bits.length true)
      (chipLogic.slot true (sending sn (bit :: (bits ++ rest)) r)) = _
    rw [slot_sending]
    exact ih

/-- The bytes that the sensor sends are read one after the other. -/
theorem readBytes_sending (hmem : r₀ ∈ rs) (hsn : r₀.rom = sn) (bytes : List UInt8)
    (rest : List Bool) (counts : List Nat) (hlen : counts.length = bytes.length)
    (acc : List UInt8)
    (hrest : Resting ts bus (rs.map (sending sn (bytes.flatMap byteBits ++ rest)))) :
    ∃ bus', counts.foldl (fun acc _ => (acc.1 ++ [(oneWireReadByte (busPins chipLogic) acc.2).1],
        (oneWireReadByte (busPins chipLogic) acc.2).2)) (acc, bus) = (acc ++ bytes, bus') ∧
      Resting ts bus' (rs.map (sending sn rest)) := by
  induction bytes generalizing counts acc bus with
  | nil =>
    obtain rfl := List.length_eq_zero_iff.mp hlen
    exact ⟨bus, by rw [List.append_nil]; rfl, hrest⟩
  | cons byte bytes ih =>
    obtain ⟨count, counts, rfl⟩ := List.exists_cons_of_length_eq_add_one hlen
    rw [List.flatMap_cons, List.append_assoc] at hrest
    obtain ⟨bus₁, hread, hrest₁⟩ := readByte_rests hts hrest (sending_shows hmem hsn _ _)
    have hafter := after_sending sn (byteBits byte) (bytes.flatMap byteBits ++ rest)
    rw [List.map_map, show 8 = (byteBits byte).length from rfl, hafter] at hrest₁
    obtain ⟨bus', hloop, hrest'⟩ := ih counts (Nat.succ.inj hlen) (acc ++ [byte]) hrest₁
    refine ⟨bus', ?_, hrest'⟩
    rw [List.foldl_cons, hread, hloop, List.append_assoc]
    rfl

/-- What `DS1822_Get_Conversion_Result` makes of the scratchpad of a sensor. -/
def DS1822.read (dev : DS1822) (r : Registers) : DS1822 :=
  { dev with temp16 := r.temp.toNat, th := r.th, tl := r.tl, resolution := 0x60 }

omit hts in
theorem temp_bytes (t : UInt16) : t.toUInt8.toNat ||| (t >>> 8).toUInt8.toNat <<< 8 = t.toNat := by
  have hlow : t.toUInt8.toNat < 2 ^ 8 := t.toUInt8.toNat_lt
  have hlt : t.toNat < 65536 := t.toNat_lt
  have hhigh : (t >>> 8).toUInt8.toNat = t.toNat / 256 := by
    rw [UInt16.toNat_toUInt8, UInt16.toNat_shiftRight, Nat.shiftRight_eq_div_pow]
    show t.toNat / 256 % 256 = t.toNat / 256
    omega
  rw [Nat.or_comm, ← Nat.shiftLeft_add_eq_or_of_lt hlow, hhigh, UInt16.toNat_toUInt8,
    Nat.shiftLeft_eq]
  omega

omit hts in
/-- The five low bits of the byte with the resolution are set, so this is what is left of it. -/
theorem config_read (r : Registers) : (r.config.toNat <<< 5) &&& 0x60 = 0x60 := by
  have hall : ∀ k : Fin 4, ((UInt8.ofNat (32 * k.val + 31)).toNat <<< 5) &&& 0x60 = 0x60 := by
    decide
  exact hall r.resolution

theorem getResult_sensors (hheard : heard ts = true) (h : Sensors ts bus rs)
    (hnodup : (rs.map Registers.rom).Nodup) {crc8Dallas : List UInt8 → UInt8}
    (hcrc : ∀ data, crc8Dallas (data ++ [UInt8.ofBitVec (Crc.crc8Dallas data)]) = 0)
    (dev : DS1822) (hmem : r₀ ∈ rs) (hsn : r₀.rom = dev.sn) :
    ∃ bus', getConversionResult (busPins chipLogic) crc8Dallas dev bus =
        (.success, dev.read r₀, bus') ∧ Sensors ts bus' rs := by
  obtain ⟨bus₁, hreset, hrest⟩ := find_sensors hts hheard h dev
  have hcommand := writeBytes_map hts hrest [readStratchpadCmd] (pick_run fun r => by
    rw [List.flatMap_singleton]
    exact function_run r readStratchpadCmd)
  have hsending : rs.map (pick dev.sn fun r => r.execute readStratchpadCmd) =
      rs.map (sending dev.sn (r₀.scratchpad.flatMap byteBits ++ [])) := by
    refine List.map_congr_left fun r hr => ?_
    unfold sending pick
    by_cases hrom : r.rom = dev.sn
    · obtain rfl := List.inj_on_of_nodup_map hnodup hr hmem (hrom.trans hsn.symm)
      rw [if_pos hrom, if_pos hrom, List.append_nil]
      rfl
    · rw [if_neg hrom, if_neg hrom]
  rw [hsending] at hcommand
  obtain ⟨bus', hread, hrest'⟩ := readBytes_sending hts hmem hsn r₀.scratchpad [] (List.range 9)
    rfl [] hcommand
  refine ⟨bus', ?_, sensors_pick hrest' (fun _ => rfl) (fun _ _ => rfl)⟩
  have hbuffer : readBuffer (busPins chipLogic) (oneWireWriteByte (busPins chipLogic)
      readStratchpadCmd (findSensor (busPins chipLogic) dev bus₁)) = (r₀.scratchpad, bus') := hread
  have htemp : (r₀.scratchpad.getD 0 0).toNat ||| (r₀.scratchpad.getD 1 0).toNat <<< 8 =
      r₀.temp.toNat := temp_bytes r₀.temp
  have hconfig : ((r₀.scratchpad.getD 4 0).toNat <<< 5) &&& 0x60 = 0x60 := config_read r₀
  have haccepted : crc8Dallas r₀.scratchpad = 0 := hcrc r₀.data
  unfold getConversionResult
  simp only [hreset, ne_eq, not_true_eq_false, if_false, hbuffer, haccepted, if_true, htemp,
    hconfig]
  rfl

end Calls

end MyLibraries.Ds1822
