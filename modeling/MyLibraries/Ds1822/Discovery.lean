import MyLibraries.Ds1822.Search
import MyLibraries.Ds1822.Session

/-!
# The search over the time slots

`DS1822_Search_Rom` over the functions of `1-Wire.c`, on a bus of sensors. A pass leaves the
sensors in the states that the search relies on (`pass_follows`: the bus follows the wired-AND
bus on which the search is known to work), so it finds every sensor on the line and changes
none of them (`discovery`).
-/

namespace MyLibraries.Ds1822

open SlotBus OneWire

/-- The functions of `1-Wire.c` as the search calls them. -/
def pinWires {β : Type} (pins : Pins β) : Wires Unit β where
  reset _ := oneWireReset pins
  writeByte _ := oneWireWriteByte pins
  writeBit _ := oneWireWriteBit pins
  readBit _ := oneWireReadBit pins

/-- The sensors that are still selected, in a stage of theirs. -/
def among (selected : List Rom) (stage : Stage) (r : Registers) : Chip :=
  if r.rom ∈ selected then ⟨r, stage⟩ else ⟨r, .idle⟩

/-- The stage after the choice of the bit before `index`. -/
def stageAt (index : Nat) : Stage := if index = 64 then .function [] else .sendBit index

/-- The bus is where the wired-AND bus is, before the bit `index`. -/
structure InSearch (ts : List Timing) (rs : List Registers) (i : Nat) (bus : Bus Chip)
    (q : Wire) : Prop where
  index : q.index = i
  first : q.complement = false
  subset : ∀ r ∈ q.selected, r ∈ rs.map Registers.rom
  rests : Resting ts bus (rs.map (among q.selected (stageAt i)))

/-- Two passes have read the same, and are at the bit `i`. -/
structure Alike {w : Nat} (ts : List Timing) (rs : List Registers) (i : Nat)
    (p : Pass (Bus Chip) w) (g : Pass Wire w) : Prop where
  next : p.next = g.next
  pos : p.pos = g.pos
  row : p.row = g.row
  bus : InSearch ts rs i p.bus g.bus

variable {ts : List Timing} {bus : Bus Chip} {rs : List Registers} {index w : Nat}
  {selected : List Rom} {q : Wire}

/-- Two loops over `Fin n` stay related when each of their rounds keeps them so. -/
theorem foldl_related {α β : Type} {n : Nat} (R : Nat → α → β → Prop) (f : α → Fin n → α)
    (g : β → Fin n → β) {a : α} {b : β} (hstart : R 0 a b)
    (hround : ∀ (k : Fin n) x y, R k x y → R (k + 1) (f x k) (g y k)) :
    R n (Fin.foldl n f a) (Fin.foldl n g b) := by
  induction n with
  | zero => exact hstart
  | succ n ih =>
    rw [Fin.foldl_succ_last, Fin.foldl_succ_last]
    exact hround (Fin.last n) _ _ (ih _ _ fun k x y h => hround k.castSucc x y h)

/-! ## One bit -/

section Bit

variable (hts : ∀ t ∈ ts, Fits t)
include hts

/-- The sensors send a bit of their codes, or its complement. -/
theorem read_among {stage next : Stage} {f : Rom → Bool}
    (hsubset : ∀ r ∈ selected, r ∈ rs.map Registers.rom)
    (hslot : ∀ r seen, chipLogic.slot seen ⟨r, stage⟩ = ⟨r, next⟩)
    (hpulls : ∀ r : Registers, chipLogic.pulls ⟨r, stage⟩ = !f r.rom)
    (hrest : Resting ts bus (rs.map (among selected stage))) :
    ∃ bus', oneWireReadBit (busPins chipLogic) bus =
        (if selected.all f then 1 else 0, bus') ∧
      Resting ts bus' (rs.map (among selected next)) := by
  have hnext : ∀ seen r, chipLogic.slot seen (among selected stage r) = among selected next r := by
    intro seen r
    unfold among
    split
    · exact hslot r seen
    · rfl
  obtain ⟨bus', hread, hrest'⟩ := readBit_rests hts hrest fun x hx => by
    obtain ⟨r, -, rfl⟩ := List.mem_map.mp hx
    rw [hnext, hnext]
  have hany : (rs.map (among selected stage)).any chipLogic.pulls = !selected.all f := by
    rw [Bool.eq_iff_iff, Bool.not_eq_true', List.any_eq_true, List.all_eq_false]
    constructor
    · rintro ⟨x, hx, hp⟩
      obtain ⟨r, -, rfl⟩ := List.mem_map.mp hx
      unfold among at hp
      by_cases hr : r.rom ∈ selected
      · rw [if_pos hr, hpulls] at hp
        exact ⟨r.rom, hr, by simpa using hp⟩
      · rw [if_neg hr] at hp
        cases hp
    · rintro ⟨rom, hrom, hf⟩
      obtain ⟨r, hr, rfl⟩ := List.mem_map.mp (hsubset rom hrom)
      refine ⟨among selected stage r, List.mem_map_of_mem hr, ?_⟩
      rw [among, if_pos hrom, hpulls]
      simpa using hf
  rw [hany] at hread
  rw [List.map_map, show chipLogic.slot true ∘ among selected stage = among selected next from
    funext (hnext true)] at hrest'
  refine ⟨bus', ?_, hrest'⟩
  rw [hread]
  cases selected.all f <;> rfl

/-- The sensors that differ from the chosen bit drop out. -/
theorem write_among (hrest : Resting ts bus (rs.map (among selected (.choose index))))
    (v : UInt8) :
    Resting ts (oneWireWriteBit (busPins chipLogic) v bus)
      (rs.map (among (selected.filter fun r => r.bit index = decide (v ≠ 0))
        (stageAt (index + 1)))) := by
  have hsilent : ∀ x ∈ rs.map (among selected (.choose index)), chipLogic.pulls x = false := by
    intro x hx
    obtain ⟨r, -, rfl⟩ := List.mem_map.mp hx
    unfold among
    split <;> rfl
  have hslot : chipLogic.slot (decide (v ≠ 0)) ∘ among selected (.choose index) =
      among (selected.filter fun r => r.bit index = decide (v ≠ 0)) (stageAt (index + 1)) := by
    funext r
    show chipLogic.slot (decide (v ≠ 0)) (among selected (.choose index) r) = _
    unfold among
    by_cases hr : r.rom ∈ selected
    · rw [if_pos hr]
      have hchoose : chipLogic.slot (decide (v ≠ 0)) ⟨r, .choose index⟩ =
          ⟨r, r.selected index (decide (v ≠ 0)) .sendBit⟩ := rfl
      rw [hchoose, Registers.selected]
      by_cases hbit : r.rom.bit index = decide (v ≠ 0)
      · rw [if_pos hbit, if_pos (List.mem_filter.mpr ⟨hr, decide_eq_true hbit⟩), stageAt]
        by_cases hlast : index = 63
        · rw [if_pos hlast, if_pos (congrArg (· + 1) hlast)]
        · rw [if_neg hlast, if_neg (by omega)]
      · have hout : r.rom ∉ selected.filter fun r => r.bit index = decide (v ≠ 0) :=
          fun h => hbit (of_decide_eq_true (p := r.rom.bit index = _) (List.mem_filter.mp h).2)
        rw [if_neg hbit, if_neg hout]
    · rw [if_neg hr, if_neg fun h => hr (List.mem_filter.mp h).1]
      rfl
  have hwrite := writeBit_rests hts hrest hsilent v
  rwa [List.map_map, hslot] at hwrite

/-- **One bit** of a pass, on the bus and on the wired-AND bus. -/
theorem bitStep_alike {codes : List Rom} {path : BitVec w} {cntByte cntBit : Fin 8}
    {p : Pass (Bus Chip) w} {g : Pass Wire w} {i : Nat} (hi : i < 64) (h : Alike ts rs i p g) :
    Alike ts rs (i + 1) (bitStep ((pinWires (busPins chipLogic)).line ()) path cntByte p cntBit)
      (bitStep (wire codes) path cntByte g cntBit) := by
  obtain ⟨bus, next, pos, row⟩ := p
  obtain ⟨⟨selected, index, complement⟩, next', pos', row'⟩ := g
  obtain ⟨rfl, rfl, rfl, hbus⟩ := h
  obtain ⟨rfl, rfl, hsubset, hrest⟩ := hbus
  dsimp only at hi hsubset hrest
  rw [stageAt, if_neg (by omega)] at hrest
  obtain ⟨bus₁, hread₁, hrest₁⟩ := read_among hts (f := fun r => r.bit index = !false) hsubset
    (fun _ _ => rfl) (fun r => by
      show (!r.rom.bit index) = !decide (r.rom.bit index = true)
      rw [Bool.decide_eq_true]) hrest
  obtain ⟨bus₂, hread₂, hrest₂⟩ := read_among hts (f := fun r => r.bit index = !true) hsubset
    (fun _ _ => rfl) (fun r => by
      show r.rom.bit index = !decide (r.rom.bit index = false)
      cases r.rom.bit index <;> rfl) hrest₁
  unfold bitStep
  simp only [Wires.line, pinWires, hread₁, hread₂]
  have hwrite := write_among hts hrest₂
  refine ⟨rfl, rfl, rfl, rfl, rfl, ?_, hwrite _⟩
  intro r hr
  exact hsubset r (List.mem_filter.mp hr).1

/-- Eight bits. -/
theorem byteStep_alike {codes : List Rom} {path : BitVec w} (cntByte : Fin 8)
    {p : Pass (Bus Chip) w} {g : Pass Wire w} (h : Alike ts rs (8 * cntByte.val) p g) :
    Alike ts rs (8 * (cntByte.val + 1))
      (byteStep ((pinWires (busPins chipLogic)).line ()) path p cntByte)
      (byteStep (wire codes) path g cntByte) := by
  refine foldl_related (fun k => Alike ts rs (8 * cntByte.val + k)) _ _ ?_ ?_
  · exact ⟨h.next, h.pos, congrArg (fun row : Rom => row.set cntByte 0) h.row, h.bus⟩
  · intro cntBit x y hxy
    have hlt : 8 * cntByte.val + cntBit.val < 64 := by omega
    exact bitStep_alike hts hlt hxy

/-- **A pass** after a reset. -/
theorem pass_alike {codes : List Rom} (hcodes : rs.map Registers.rom = codes) (path : BitVec w)
    (row : Rom) (hrest : Resting ts bus (rs.map fun r => ⟨r, .romCommand []⟩)) :
    Alike ts rs 64 (pass ((pinWires (busPins chipLogic)).line ()) path row bus)
      (pass (wire codes) path row ⟨codes, 0, false⟩) := by
  refine foldl_related (fun k => Alike ts rs (8 * k)) _ _ ⟨rfl, rfl, rfl, rfl, rfl, ?_, ?_⟩
    fun cntByte x y hxy => byteStep_alike hts cntByte hxy
  · intro r hr
    rw [hcodes]
    exact hr
  · have hcommand := writeBytes_map hts hrest [OneWire.searchRom] (fun r => by
      rw [List.flatMap_singleton]
      exact romCommand_run r OneWire.searchRom)
    have hall : rs.map (fun r => (⟨r, romStage OneWire.searchRom⟩ : Chip)) =
        rs.map (among codes (stageAt 0)) := by
      refine List.map_congr_left fun r hr => ?_
      rw [among, if_pos (hcodes ▸ List.mem_map_of_mem hr)]
      rfl
    rw [hall] at hcommand
    exact hcommand

omit hts in
/-- Between two passes the bus is between two calls. -/
theorem sensors_of_inSearch (h : InSearch ts rs 64 bus q) : Sensors ts bus rs := by
  refine ⟨_, h.rests, ?_, ?_⟩
  · rw [List.map_map]
    refine (List.map_congr_left fun r _ => ?_).trans (List.map_id _)
    show (among q.selected (stageAt 64) r).registers = r
    unfold among
    split <;> rfl
  · intro c hc
    obtain ⟨r, -, rfl⟩ := List.mem_map.mp hc
    unfold among
    split <;> exact fun _ => rfl

/-! ## The search -/

/-- The loop over the passes stores and counts the same on both buses. -/
theorem searchLoop_follows (hheard : heard ts = true) {codes : List Rom}
    (hcodes : rs.map Registers.rom = codes) {fuel : Nat} {path : BitVec w}
    {sensors sensors' : Nat → Sensor Unit} {cntNum cntNum' : UInt8} {q q' : Wire} {error : Error}
    (h : Sensors ts bus rs)
    (hloop : searchLoop (single codes) () fuel path sensors cntNum q =
      some (error, sensors', cntNum', q')) :
    error = .success ∧
      ∃ bus', searchLoop (pinWires (busPins chipLogic)) () fuel path sensors cntNum bus =
        some (error, sensors', cntNum', bus') ∧ Sensors ts bus' rs := by
  induction fuel generalizing path sensors cntNum q bus with
  | zero => cases hloop
  | succ fuel ih =>
    obtain ⟨bus₁, hreset, hrest⟩ := reset_sensors hts hheard h
    have hpass := pass_alike hts hcodes path (sensors cntNum.toNat).sn hrest
    have hnext := sensors_of_inSearch hpass.bus
    have hwired : pass ((single codes).line ()) path (sensors cntNum.toNat).sn ⟨codes, 0, false⟩ =
        pass (wire codes) path (sensors cntNum.toNat).sn ⟨codes, 0, false⟩ := rfl
    have hgo : (pinWires (busPins chipLogic)).reset () bus = (.success, bus₁) := hreset
    have hghost : (single codes).reset () q = (.success, ⟨codes, 0, false⟩) := rfl
    rw [searchLoop] at hloop ⊢
    simp only [hgo, hghost, hwired, hpass.next, hpass.row, ne_eq, not_true_eq_false, if_false]
      at hloop ⊢
    split at hloop
    · rename_i hmore
      rw [if_pos hmore]
      exact ih hnext hloop
    · rename_i hlast
      rw [if_neg hlast]
      cases hloop
      exact ⟨rfl, _, rfl, hnext⟩

end Bit

/-- **Discovery.** On a bus of sensors with different codes, whose times fit the driver, the
first search of a program succeeds, stores the code of every sensor once, in the elements from 0
on, and their number, and leaves the sensors with the registers they had. -/
theorem discovery (ts : List Timing) (hts : ∀ t ∈ ts, Fits t) (hheard : heard ts = true)
    (bus : Bus Chip) (rs : List Registers) (hbus : Sensors ts bus rs)
    (hdistinct : (rs.map Registers.rom).Nodup) (hmin : 1 ≤ rs.length) (hlong : rs.length ≤ 255)
    (hword : rs.length - 1 ≤ w) (sensors : Nat → Sensor Unit) (devicesFound : UInt8) (fuel : Nat)
    (hfuel : rs.length ≤ fuel) :
    ∃ out, searchRom (pinWires (busPins chipLogic)) w fuel sensors () devicesFound 0 bus =
        some out ∧
      out.error = .success ∧ Agrees (rs.map Registers.rom) sensors out ∧
      Sensors ts out.state rs := by
  have hlen : (rs.map Registers.rom).length = rs.length := List.length_map _
  obtain ⟨ghost, hghost, hsuccess⟩ := searchRom_success
    (single_searchBus (rs.map Registers.rom)) hdistinct (by rw [hlen]; exact hmin)
    (w := w) (by rw [hlen]; exact hword) sensors devicesFound 0 ⟨[], 0, false⟩ fuel
    (by rw [hlen]; exact hfuel)
  unfold searchRom at hghost ⊢
  cases hloop : searchLoop (single (rs.map Registers.rom)) () fuel (0 : BitVec w) sensors 0
      ⟨[], 0, false⟩ with
  | none =>
    rw [hloop] at hghost
    cases hghost
  | some r =>
    obtain ⟨error, sensors', cntNum', q'⟩ := r
    rw [hloop] at hghost
    obtain ⟨rfl, bus', hreal, hend⟩ := searchLoop_follows hts hheard rfl hbus hloop
    cases hghost
    obtain ⟨found, hperm, hsensors, hcount, hfound⟩ := hsuccess rfl
    rw [hreal]
    refine ⟨_, rfl, rfl, agrees_storeAll hperm (by rw [hlen]; exact hlong) hsensors ?_, hend⟩
    rw [hcount, UInt8.zero_add] at hfound
    exact hfound

/-- The first search of a program that has two sensors. -/
theorem discovery_two : ∃ out,
    searchRom (pinWires (busPins chipLogic)) 32 2 blank () 0 0 twoChips = some out ∧
      out.error = .success ∧
      Agrees [#v[0x22, 1, 0, 0, 0, 0, 0, 0], #v[0x22, 2, 0, 0, 0, 0, 0, 0]] blank out ∧
      Sensors twoTimings out.state twoRegisters :=
  discovery twoTimings fits_two (by decide) twoChips twoRegisters sensors_two (by decide)
    (by decide) (by decide) (by decide) blank 0 2 (Nat.le_refl 2)

end MyLibraries.Ds1822
