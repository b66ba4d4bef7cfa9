import MyLibraries.Core.Run
import MyLibraries.Ds1822.Calls

/-!
# Sessions with the sensors of a bus

A program configures, starts and reads sensors, in any order, and sets the fields of their
structures; the surroundings of the sensors change. `session_follows` says that this is what
it looks like: each sensor has registers of its own, a call moves values between them and its
structure, and no call fails. But what is read as the resolution is never one
(`resolution_lost`).
-/

namespace MyLibraries.Ds1822

open SlotBus OneWire Run

/-- What a program does, and what happens to the sensors; `ι` are the structures. -/
inductive Request (ι : Type)
  | configure (i : ι)
  | startConversion (i : ι)
  | getConversionResult (i : ι)
  | choose (i : ι) (th tl : UInt8) (resolution : Nat)
  | surroundings (rom : Rom) (temp : UInt16)

variable {ι : Type} [DecidableEq ι]

/-- The surroundings of a sensor have changed. -/
def Station.surround (rom : Rom) (temp : UInt16) (s : Station Chip) : Station Chip :=
  if s.state.registers.rom = rom then
    { s with state := ⟨{ s.state.registers with surroundings := temp }, s.state.stage⟩ }
  else s

/-- One request, on a bus. -/
def request (crc8Dallas : List UInt8 → UInt8) (w : (ι → DS1822) × Bus Chip) :
    Request ι → Option (Error × (ι → DS1822) × Bus Chip)
  | .configure i =>
    let (result, bus) := configure (busPins chipLogic) (w.1 i) w.2
    some (result, w.1, bus)
  | .startConversion i =>
    let (result, bus) := startConversion (busPins chipLogic) (w.1 i) w.2
    some (result, w.1, bus)
  | .getConversionResult i =>
    let (result, dev, bus) := getConversionResult (busPins chipLogic) crc8Dallas (w.1 i) w.2
    some (result, Function.update w.1 i dev, bus)
  | .choose i th tl resolution =>
    some (.success, Function.update w.1 i { w.1 i with th, tl, resolution }, w.2)
  | .surroundings rom temp =>
    some (.success, w.1, { w.2 with stations := w.2.stations.map (Station.surround rom temp) })

/-- One request, on registers. -/
def answer (w : (ι → DS1822) × List Registers) : Request ι → Error × (ι → DS1822) × List Registers
  | .configure i =>
    (.success, w.1, update (w.1 i).sn (fun r =>
      { r with
        th := (w.1 i).th
        tl := (w.1 i).tl
        resolution := ⟨(w.1 i).resolution % 4, Nat.mod_lt _ (Nat.succ_pos 3)⟩ }) w.2)
  | .startConversion i =>
    (.success, w.1, update (w.1 i).sn (fun r => { r with temp := r.surroundings }) w.2)
  | .getConversionResult i =>
    (.success, Function.update w.1 i
      (((w.2.find? fun r => r.rom = (w.1 i).sn).map (w.1 i).read).getD (w.1 i)), w.2)
  | .choose i th tl resolution =>
    (.success, Function.update w.1 i { w.1 i with th, tl, resolution }, w.2)
  | .surroundings rom temp =>
    (.success, w.1, update rom (fun r => { r with surroundings := temp }) w.2)

/-- The structures are those of sensors on the bus, whose codes differ. -/
structure Follows (ts : List Timing) (w : (ι → DS1822) × Bus Chip)
    (a : (ι → DS1822) × List Registers) : Prop where
  devices : w.1 = a.1
  sensors : Sensors ts w.2 a.2
  distinct : (a.2.map Registers.rom).Nodup
  present : ∀ i, (a.1 i).sn ∈ a.2.map Registers.rom

variable {ts : List Timing} {w : (ι → DS1822) × Bus Chip} {a : (ι → DS1822) × List Registers}
  {bus : Bus Chip} {rs : List Registers} {sn : Rom} {crc8Dallas : List UInt8 → UInt8}

/-! ## Registers -/

theorem update_rom (sn : Rom) {f : Registers → Registers} (hf : ∀ r, (f r).rom = r.rom)
    (rs : List Registers) : (update sn f rs).map Registers.rom = rs.map Registers.rom := by
  unfold update
  rw [List.map_map]
  refine List.map_congr_left fun r _ => ?_
  show (if r.rom = sn then f r else r).rom = r.rom
  split
  · exact hf r
  · rfl

theorem sensors_surround (h : Sensors ts bus rs) (rom : Rom) (temp : UInt16) :
    Sensors ts { bus with stations := bus.stations.map (Station.surround rom temp) }
      (update rom (fun r => { r with surroundings := temp }) rs) := by
  obtain ⟨states, hrest, hrs, hsettled⟩ := h
  have hkeeps : ∀ s, (Station.surround rom temp s).timing = s.timing ∧
      (Station.surround rom temp s).driving = s.driving ∧
      (Station.surround rom temp s).state.stage = s.state.stage := by
    intro s
    unfold Station.surround
    split <;> exact ⟨rfl, rfl, rfl⟩
  refine ⟨_, ⟨hrest.low, ?_, rfl, hrest.fallen, ?_⟩, ?_, ?_⟩
  · rw [← hrest.timings, List.map_map]
    exact List.map_congr_left fun s _ => (hkeeps s).1
  · intro s hs hd
    obtain ⟨s', hs', rfl⟩ := List.mem_map.mp hs
    obtain ⟨htiming, hdriving, -⟩ := hkeeps s'
    rw [htiming]
    exact hrest.answered s' hs' (hdriving ▸ hd)
  · unfold update
    rw [← hrs, ← hrest.states, List.map_map, List.map_map, List.map_map, List.map_map]
    refine List.map_congr_left fun s _ => ?_
    show (Station.surround rom temp s).state.registers =
      if s.state.registers.rom = rom then _ else _
    unfold Station.surround
    split <;> rfl
  · intro c hc r
    obtain ⟨s, hs, rfl⟩ := List.mem_map.mp hc
    obtain ⟨s', hs', rfl⟩ := List.mem_map.mp hs
    rw [(hkeeps s').2.2]
    exact hsettled s'.state (by rw [← hrest.states]; exact List.mem_map_of_mem hs') r

omit [DecidableEq ι] in
/-- The registers of one sensor have changed. -/
theorem follows_update {devs : ι → DS1822} {f : Registers → Registers}
    (hf : ∀ r, (f r).rom = r.rom) (hsensors : Sensors ts bus (update sn f rs))
    (hdistinct : (rs.map Registers.rom).Nodup)
    (hpresent : ∀ i, (devs i).sn ∈ rs.map Registers.rom) :
    Follows ts (devs, bus) (devs, update sn f rs) := by
  have hrom := update_rom sn hf rs
  refine ⟨rfl, hsensors, ?_, ?_⟩
  · rw [hrom]
    exact hdistinct
  · intro i
    rw [hrom]
    exact hpresent i

/-- The structure of one sensor has changed. -/
theorem follows_device {devs : ι → DS1822} {dev : DS1822} {i : ι} (hdev : dev.sn = (devs i).sn)
    (hsensors : Sensors ts bus rs) (hdistinct : (rs.map Registers.rom).Nodup)
    (hpresent : ∀ i, (devs i).sn ∈ rs.map Registers.rom) :
    Follows ts (Function.update devs i dev, bus) (Function.update devs i dev, rs) := by
  refine ⟨rfl, hsensors, hdistinct, fun j => ?_⟩
  show (Function.update devs i dev j).sn ∈ _
  by_cases hj : j = i
  · subst hj
    rw [Function.update_self, hdev]
    exact hpresent j
  · rw [Function.update_of_ne hj]
    exact hpresent j

theorem find_rom {r : Registers} (hdistinct : (rs.map Registers.rom).Nodup) (hr : r ∈ rs)
    (hsn : r.rom = sn) : rs.find? (fun r => r.rom = sn) = some r := by
  obtain ⟨r', hfind⟩ : ∃ r', rs.find? (fun r => r.rom = sn) = some r' := by
    rw [← Option.isSome_iff_exists, List.find?_isSome]
    exact ⟨r, hr, decide_eq_true hsn⟩
  have hr' : r'.rom = sn := by simpa using List.find?_some hfind
  rw [hfind, List.inj_on_of_nodup_map hdistinct (List.mem_of_find?_eq_some hfind) hr
    (hr'.trans hsn.symm)]

/-! ## Runs -/

/-- **One request** does to the bus what it does to the registers. -/
theorem request_refines (hts : ∀ t ∈ ts, Fits t) (hheard : heard ts = true)
    (hcrc : ∀ data, crc8Dallas (data ++ [UInt8.ofBitVec (Crc.crc8Dallas data)]) = 0) :
    Refines (request (ι := ι) crc8Dallas) answer (Follows ts) fun _ _ => True := by
  rintro ⟨devs, bus⟩ ⟨_, rs⟩ req ⟨rfl, hsensors, hdistinct, hpresent⟩ -
  cases req with
  | configure i =>
    obtain ⟨bus', hcall, hs⟩ := configure_sensors hts hheard hsensors (devs i)
    simp only [configured_eq] at hs
    refine ⟨(devs, bus'), ?_, follows_update (fun _ => rfl) hs hdistinct hpresent⟩
    simp only [request, hcall, answer]
  | startConversion i =>
    obtain ⟨bus', hcall, hs⟩ := startConversion_sensors hts hheard hsensors (devs i)
    refine ⟨(devs, bus'), ?_, follows_update (fun _ => rfl) hs hdistinct hpresent⟩
    simp only [request, hcall, answer]
  | getConversionResult i =>
    obtain ⟨r, hr, hsn⟩ := List.mem_map.mp (hpresent i)
    obtain ⟨bus', hcall, hs⟩ :=
      getResult_sensors hts hheard hsensors hdistinct hcrc (devs i) hr hsn
    have hread : ((rs.find? fun r => r.rom = (devs i).sn).map (devs i).read).getD (devs i) =
        (devs i).read r := by
      rw [find_rom hdistinct hr hsn]
      rfl
    refine ⟨(Function.update devs i ((devs i).read r), bus'), ?_, ?_⟩
    · simp only [request, hcall, answer]
    · simp only [answer, hread]
      exact follows_device rfl hs hdistinct hpresent
  | choose i th tl resolution =>
    exact ⟨_, rfl, follows_device rfl hsensors hdistinct hpresent⟩
  | surroundings rom temp =>
    exact ⟨_, rfl, follows_update (fun _ => rfl) (sensors_surround hsensors rom temp) hdistinct
      hpresent⟩

theorem exec_success (w : (ι → DS1822) × List Registers) (requests : List (Request ι)) :
    (exec answer w requests).1 = List.replicate requests.length .success := by
  induction requests generalizing w with
  | nil => rfl
  | cons req requests ih =>
    have hreq : (answer w req).1 = .success := by cases req <;> rfl
    rw [exec_cons, hreq, ih]
    rfl

/-- The bus follows the registers through any requests. -/
theorem session_run (hts : ∀ t ∈ ts, Fits t) (hheard : heard ts = true)
    (hcrc : ∀ data, crc8Dallas (data ++ [UInt8.ofBitVec (Crc.crc8Dallas data)]) = 0)
    (h : Follows ts w a) (requests : List (Request ι)) :
    ∃ bus', run (request crc8Dallas) w requests =
        some (List.replicate requests.length .success, (exec answer a requests).2.1, bus') ∧
      Follows ts ((exec answer a requests).2.1, bus') (exec answer a requests).2 := by
  have halong : Along answer (fun _ _ => True) a requests :=
    along_of_forall_initial fun _ _ _ => trivial
  obtain ⟨⟨devs', bus'⟩, hrun, hfollows⟩ :=
    run_refines (request_refines hts hheard hcrc) h halong
  obtain rfl := hfollows.devices
  refine ⟨bus', ?_, hfollows⟩
  rw [hrun, exec_success]

/-! ## Two sensors -/

/-- Two sensors that look at the line after 15 and 30 µs. -/
def twoTimings : List Timing := [⟨15, 30, 480, 15, 60⟩, ⟨30, 45, 480, 60, 240⟩]

/-- They have not been used. -/
def twoRegisters : List Registers :=
  [⟨#v[0x22, 1, 0, 0, 0, 0, 0, 0], 0x0550, 75, 70, .last 3, 0x0191⟩,
    ⟨#v[0x22, 2, 0, 0, 0, 0, 0, 0], 0x0550, 75, 70, .last 3, 0x0191⟩]

/-- Both on a bus at rest. -/
def twoChips : Bus Chip :=
  ⟨(twoTimings.zip twoRegisters).map fun p => ⟨p.1, ⟨p.2, .idle⟩, .released⟩, false, 50, 0⟩

/-- Their structures, after a search. -/
def twoDevices (second : Bool) : DS1822 :=
  ⟨#v[0x22, if second then 2 else 1, 0, 0, 0, 0, 0, 0], 0, 0, 0, 3⟩

theorem fits_two : ∀ t ∈ twoTimings, Fits t := by
  intro t ht
  rcases List.mem_cons.mp ht with rfl | ht
  · exact ⟨by decide, by decide, by decide, by decide, by decide, by decide, by decide⟩
  · rw [List.mem_singleton.mp ht]
    exact ⟨by decide, by decide, by decide, by decide, by decide, by decide, by decide⟩

theorem sensors_two : Sensors twoTimings twoChips twoRegisters := by
  refine ⟨twoRegisters.map fun r => ⟨r, .idle⟩, ⟨rfl, rfl, rfl, by decide, ?_⟩, rfl, ?_⟩
  · intro s hs hd
    obtain ⟨p, -, rfl⟩ := List.mem_map.mp hs
    cases hd
  · intro c hc
    obtain ⟨r, -, rfl⟩ := List.mem_map.mp hc
    exact fun _ => rfl

theorem present_two (second : Bool) : (twoDevices second).sn ∈ twoRegisters.map Registers.rom := by
  cases second <;> decide

/-- A string that ends with its own checksum is accepted. -/
theorem crc8Dallas_self (data : List UInt8) :
    UInt8.ofBitVec (Crc.crc8Dallas (data ++ [UInt8.ofBitVec (Crc.crc8Dallas data)])) = 0 := by
  have hzero := (Crc.crc8Dallas_eq_zero_iff
    (b := data ++ [UInt8.ofBitVec (Crc.crc8Dallas data)]) (by simp)).mpr (by simp)
  rw [hzero]
  rfl

/-- **A session** on a bus of sensors with different codes, whose times fit the driver: every
call succeeds, and after any requests the structures and the sensors are what the requests make
of registers that only their own calls touch. -/
theorem session_follows (ts : List Timing) (hts : ∀ t ∈ ts, Fits t) (hheard : heard ts = true)
    (crc8Dallas : List UInt8 → UInt8)
    (hcrc : ∀ data, crc8Dallas (data ++ [UInt8.ofBitVec (Crc.crc8Dallas data)]) = 0)
    (devs : ι → DS1822) (bus : Bus Chip) (rs : List Registers) (hbus : Sensors ts bus rs)
    (hdistinct : (rs.map Registers.rom).Nodup)
    (hpresent : ∀ i, (devs i).sn ∈ rs.map Registers.rom) (requests : List (Request ι)) :
    ∃ bus', run (request crc8Dallas) (devs, bus) requests =
        some (List.replicate requests.length .success,
          (exec answer (devs, rs) requests).2.1, bus') ∧
      Sensors ts bus' (exec answer (devs, rs) requests).2.2 := by
  obtain ⟨bus', hrun, hfollows⟩ := session_run hts hheard hcrc
    (show Follows ts (devs, bus) (devs, rs) from ⟨rfl, hbus, hdistinct, hpresent⟩) requests
  exact ⟨bus', hrun, hfollows.sensors⟩

/-- The second sensor is read, the first one configured. -/
theorem session_follows_two : ∃ devs bus,
    run (request fun data => UInt8.ofBitVec (Crc.crc8Dallas data)) (twoDevices, twoChips)
      [.startConversion true, .getConversionResult true, .choose false 100 200 1,
        .configure false] = some (List.replicate 4 .success, devs, bus) ∧
    (devs true).temp16 = 0x0191 ∧
    Sensors twoTimings bus
      [⟨#v[0x22, 1, 0, 0, 0, 0, 0, 0], 0x0550, 100, 200, 1, 0x0191⟩,
        ⟨#v[0x22, 2, 0, 0, 0, 0, 0, 0], 0x0191, 75, 70, 3, 0x0191⟩] := by
  obtain ⟨bus, hrun, hsensors⟩ := session_follows twoTimings fits_two (by decide)
    (fun data => UInt8.ofBitVec (Crc.crc8Dallas data)) crc8Dallas_self twoDevices twoChips
    twoRegisters sensors_two (by decide) present_two
    [.startConversion true, .getConversionResult true, .choose false 100 200 1, .configure false]
  exact ⟨_, bus, hrun, rfl, hsensors⟩

/-! ## The resolution -/

/-- What has been read as the resolution stays until the program sets it. -/
theorem resolution_kept {i : ι} (requests : List (Request ι))
    (hkept : ∀ th tl n, Request.choose i th tl n ∉ requests)
    (hread : (a.1 i).resolution = 0x60) :
    ((exec answer a requests).2.1 i).resolution = 0x60 := by
  induction requests generalizing a with
  | nil => exact hread
  | cons req requests ih =>
    rw [exec_cons]
    refine ih (fun th tl n h => hkept th tl n (List.mem_cons_of_mem _ h)) ?_
    cases req with
    | configure j => exact hread
    | startConversion j => exact hread
    | getConversionResult j =>
      by_cases hij : i = j
      · subst hij
        simp only [answer, Function.update_self]
        cases a.2.find? fun r => r.rom = (a.1 i).sn with
        | none => exact hread
        | some r => rfl
      · simp only [answer, Function.update_of_ne hij]
        exact hread
    | choose j th tl n =>
      have hij : i ≠ j := by
        rintro rfl
        exact hkept th tl n List.mem_cons_self
      simp only [answer, Function.update_of_ne hij]
      exact hread
    | surroundings rom temp => exact hread

theorem answer_sn (a : (ι → DS1822) × List Registers) (req : Request ι) (i : ι) :
    ((answer a req).2.1 i).sn = (a.1 i).sn := by
  have hupdate : ∀ (j : ι) (dev : DS1822), dev.sn = (a.1 j).sn →
      (Function.update a.1 j dev i).sn = (a.1 i).sn := by
    intro j dev hdev
    by_cases hij : i = j
    · subst hij
      rw [Function.update_self, hdev]
    · rw [Function.update_of_ne hij]
  cases req with
  | configure j => rfl
  | startConversion j => rfl
  | getConversionResult j =>
    refine hupdate j _ ?_
    cases a.2.find? fun r => r.rom = (a.1 j).sn with
    | none => rfl
    | some r => rfl
  | choose j th tl n => exact hupdate j _ rfl
  | surroundings rom temp => rfl

/-- The codes in the structures stay. -/
theorem exec_sn (requests : List (Request ι)) (i : ι) :
    ((exec answer a requests).2.1 i).sn = (a.1 i).sn := by
  induction requests generalizing a with
  | nil => rfl
  | cons req requests ih => rw [exec_cons, ih, answer_sn]

/-- **The resolution is lost.** When a sensor has been read, and the program does not set the
resolution of its structure again, the delay of a conversion is read from behind its table, and
the next `DS1822_Configure` of the sensor sets it to nine bits. -/
theorem resolution_lost (ts : List Timing) (hts : ∀ t ∈ ts, Fits t) (hheard : heard ts = true)
    (crc8Dallas : List UInt8 → UInt8)
    (hcrc : ∀ data, crc8Dallas (data ++ [UInt8.ofBitVec (Crc.crc8Dallas data)]) = 0)
    (devs : ι → DS1822) (bus : Bus Chip) (rs : List Registers) (hbus : Sensors ts bus rs)
    (hdistinct : (rs.map Registers.rom).Nodup)
    (hpresent : ∀ i, (devs i).sn ∈ rs.map Registers.rom) (i : ι) (before between : List (Request ι))
    (hkept : ∀ th tl n, Request.choose i th tl n ∉ between) :
    ∃ results devs' bus', run (request crc8Dallas) (devs, bus)
        (before ++ .getConversionResult i :: (between ++ [.configure i])) =
          some (results, devs', bus') ∧
      getConversionDelayValue (devs' i) = none ∧
      ∀ s ∈ bus'.stations, s.state.registers.rom = (devs i).sn →
        s.state.registers.resolution = 0 := by
  have hstart : Follows ts (devs, bus) (devs, rs) := ⟨rfl, hbus, hdistinct, hpresent⟩
  obtain ⟨bus₀, -, hbefore⟩ := session_run hts hheard hcrc hstart before
  obtain ⟨bus', hrun, hend⟩ := session_run hts hheard hcrc hstart
    (before ++ .getConversionResult i :: (between ++ [.configure i]))
  obtain ⟨a₀, ha₀⟩ : ∃ a₀, (exec answer (devs, rs) before).2 = a₀ := ⟨_, rfl⟩
  have hsn₀ : (a₀.1 i).sn = (devs i).sn := ha₀ ▸ exec_sn before i
  rw [ha₀] at hbefore
  obtain ⟨r, hr, hrom⟩ := List.mem_map.mp (hbefore.present i)
  have hread : ((answer a₀ (.getConversionResult i)).2.1 i).resolution = 0x60 := by
    simp only [answer, find_rom hbefore.distinct hr hrom, Function.update_self]
    rfl
  have hkept' := resolution_kept between hkept hread
  have hsn : ((exec answer (answer a₀ (.getConversionResult i)).2 between).2.1 i).sn =
      (devs i).sn := by rw [exec_sn, answer_sn, hsn₀]
  simp only [exec_append, exec_cons, exec_nil, ha₀] at hrun hend
  generalize (exec answer (answer a₀ (.getConversionResult i)).2 between).2 = a₂ at *
  refine ⟨_, a₂.1, bus', hrun, ?_, ?_⟩
  · rw [getConversionDelayValue, hkept']
    rfl
  · obtain ⟨states, hrest, hrs, -⟩ := hend.sensors
    intro s hs hcode
    have hmem : s.state.registers ∈ (answer a₂ (.configure i)).2.2 := by
      rw [← hrs, ← hrest.states, List.map_map]
      exact List.mem_map_of_mem hs
    obtain ⟨r', -, hr'⟩ := List.mem_map.mp hmem
    by_cases hsame : r'.rom = (a₂.1 i).sn
    · rw [if_pos hsame] at hr'
      rw [← hr']
      show Fin.ofNat 4 (a₂.1 i).resolution = 0
      rw [hkept']
      rfl
    · rw [if_neg hsame] at hr'
      exact absurd (hr' ▸ hcode.trans hsn.symm) hsame

/-- A sensor with 12 bits is read, and has 9 bits when it is configured again. -/
theorem resolution_lost_two : ∃ results devs bus,
    run (request fun data => UInt8.ofBitVec (Crc.crc8Dallas data)) (twoDevices, twoChips)
      [.configure true, .getConversionResult true, .startConversion false, .configure true] =
        some (results, devs, bus) ∧
    getConversionDelayValue (devs true) = none ∧
    ∀ s ∈ bus.stations, s.state.registers.rom = #v[0x22, 2, 0, 0, 0, 0, 0, 0] →
      s.state.registers.resolution = 0 :=
  resolution_lost twoTimings fits_two (by decide)
    (fun data => UInt8.ofBitVec (Crc.crc8Dallas data)) crc8Dallas_self twoDevices twoChips
    twoRegisters sensors_two (by decide) present_two true [.configure true]
    [.startConversion false] (by simp)

end MyLibraries.Ds1822
