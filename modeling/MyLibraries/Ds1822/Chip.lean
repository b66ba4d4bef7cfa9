import MyLibraries.Crc.Dallas
import MyLibraries.Ds1822.Slots

/-!
# The sensors

A DS1822 as the bus sees it. After a reset it takes a ROM command; the code that follows
`MATCH ROM` selects the sensors that have it, and the choices of a `SEARCH ROM` those that
agree with them, and only these take a function command. A sensor measures what its
surroundings are when the conversion starts.

The commands of the driver are byte strings here; what they do to one sensor is `select_run`,
`function_run` and `writeScratchpad_run`.
-/

namespace MyLibraries.Ds1822

open SlotBus OneWire

def searchRomCmd : UInt8 := 0xF0

def matchRomCmd : UInt8 := 0x55

def convertTCmd : UInt8 := 0x44

def writeStratchpadCmd : UInt8 := 0x4E

def readStratchpadCmd : UInt8 := 0xBE

/-- What a sensor keeps, and what it is about to measure. -/
structure Registers where
  rom : Rom
  temp : UInt16
  th : UInt8
  tl : UInt8
  resolution : Fin 4
  surroundings : UInt16
  deriving DecidableEq

/-- The byte in which the resolution is sent. -/
def Registers.config (r : Registers) : UInt8 := UInt8.ofNat (32 * r.resolution.val + 31)

def Registers.data (r : Registers) : List UInt8 :=
  [r.temp.toUInt8, (r.temp >>> 8).toUInt8, r.th, r.tl, r.config, 0xFF, 0x0C, 0x10]

/-- The nine bytes of the scratchpad. -/
def Registers.scratchpad (r : Registers) : List UInt8 :=
  r.data ++ [UInt8.ofBitVec (Crc.crc8Dallas r.data)]

/-- What a sensor expects next. The bits of an unfinished byte are those seen so far. -/
inductive Stage
  | idle
  | romCommand (seen : List Bool)
  | matchRom (index : Nat)
  | sendBit (index : Nat)
  | sendComplement (index : Nat)
  | choose (index : Nat)
  | function (seen : List Bool)
  | writeScratchpad (seen : List Bool)
  | send (bits : List Bool)
  deriving DecidableEq

structure Chip where
  registers : Registers
  stage : Stage
  deriving DecidableEq

/-- The byte that has been sent as these bits. -/
def byteOf (bits : List Bool) : UInt8 :=
  UInt8.ofNat (bits.foldr (fun bit n => bit.toNat + 2 * n) 0)

/-- The first stage after a ROM command. -/
def romStage (command : UInt8) : Stage :=
  if command = matchRomCmd then .matchRom 0
  else if command = searchRomCmd then .sendBit 0
  else .idle

/-- A function command. -/
def Registers.execute (r : Registers) (command : UInt8) : Chip :=
  if command = convertTCmd then ⟨{ r with temp := r.surroundings }, .idle⟩
  else if command = writeStratchpadCmd then ⟨r, .writeScratchpad []⟩
  else if command = readStratchpadCmd then ⟨r, .send (r.scratchpad.flatMap byteBits)⟩
  else ⟨r, .idle⟩

/-- The registers when these three bytes have been written. -/
def Registers.configured (r : Registers) (th tl config : UInt8) : Registers :=
  { r with th, tl, resolution := Fin.ofNat 4 (config.toNat / 32) }

/-- The stage after the bit `index` of the code, when it has to be `bit`. -/
def Registers.selected (r : Registers) (index : Nat) (bit : Bool) (next : Nat → Stage) : Stage :=
  if r.rom.bit index = bit then if index = 63 then .function [] else next (index + 1) else .idle

def Chip.slot (bit : Bool) (c : Chip) : Chip :=
  match c.stage with
  | .idle => c
  | .romCommand seen =>
    let seen := seen ++ [bit]
    if seen.length = 8 then ⟨c.registers, romStage (byteOf seen)⟩
    else ⟨c.registers, .romCommand seen⟩
  | .matchRom index => ⟨c.registers, c.registers.selected index bit .matchRom⟩
  | .sendBit index => ⟨c.registers, .sendComplement index⟩
  | .sendComplement index => ⟨c.registers, .choose index⟩
  | .choose index => ⟨c.registers, c.registers.selected index bit .sendBit⟩
  | .function seen =>
    let seen := seen ++ [bit]
    if seen.length = 8 then c.registers.execute (byteOf seen)
    else ⟨c.registers, .function seen⟩
  | .writeScratchpad seen =>
    let seen := seen ++ [bit]
    if seen.length = 24 then
      ⟨c.registers.configured (byteOf (seen.take 8)) (byteOf ((seen.drop 8).take 8))
        (byteOf ((seen.drop 16).take 8)), .idle⟩
    else ⟨c.registers, .writeScratchpad seen⟩
  | .send bits => ⟨c.registers, .send bits.tail⟩

def Chip.pulls (c : Chip) : Bool :=
  match c.stage with
  | .sendBit index => !c.registers.rom.bit index
  | .sendComplement index => c.registers.rom.bit index
  | .send (bit :: _) => !bit
  | _ => false

/-- The sensors as stations of a bus. -/
def chipLogic : Logic Chip where
  reset c := ⟨c.registers, .romCommand []⟩
  pulls := Chip.pulls
  slot := Chip.slot

variable {r : Registers} {sn : Rom} {bit : Bool} {bits : List Bool}

/-! ## Bytes -/

theorem byteOf_byteBits (byte : UInt8) : byteOf (byteBits byte) = byte := by
  have hall : ∀ n : Fin 256, byteOf (byteBits (UInt8.ofNat n)) = UInt8.ofNat n := by
    decide +kernel
  have hbyte := hall ⟨byte.toNat, byte.toNat_lt⟩
  rwa [UInt8.ofNat_toNat] at hbyte

/-- A stage that takes in `n` bits, one after the other. -/
structure Collects (r : Registers) (stage : List Bool → Stage) (n : Nat)
    (done : List Bool → Chip) : Prop where
  silent : ∀ seen, chipLogic.pulls ⟨r, stage seen⟩ = false
  slot : ∀ seen bit, chipLogic.slot bit ⟨r, stage seen⟩ =
    if (seen ++ [bit]).length = n then done (seen ++ [bit]) else ⟨r, stage (seen ++ [bit])⟩

theorem collects_romCommand (r : Registers) :
    Collects r .romCommand 8 fun bits => ⟨r, romStage (byteOf bits)⟩ :=
  ⟨fun _ => rfl, fun _ _ => rfl⟩

theorem collects_function (r : Registers) :
    Collects r .function 8 fun bits => r.execute (byteOf bits) :=
  ⟨fun _ => rfl, fun _ _ => rfl⟩

theorem collects_writeScratchpad (r : Registers) :
    Collects r .writeScratchpad 24 fun seen =>
      ⟨r.configured (byteOf (seen.take 8)) (byteOf ((seen.drop 8).take 8))
        (byteOf ((seen.drop 16).take 8)), .idle⟩ :=
  ⟨fun _ => rfl, fun _ _ => rfl⟩

section Collect

variable {stage : List Bool → Stage} {n : Nat} {done : List Bool → Chip}
  (h : Collects r stage n done)
include h

theorem Collects.all {seen : List Bool} (hlen : seen.length + bits.length = n) (hne : bits ≠ []) :
    Hears chipLogic bits ⟨r, stage seen⟩ ∧
      after chipLogic bits ⟨r, stage seen⟩ = done (seen ++ bits) := by
  induction bits generalizing seen with
  | nil => exact absurd rfl hne
  | cons bit bits ih =>
    have hslot := h.slot seen bit
    rw [List.length_cons] at hlen
    cases bits with
    | nil =>
      rw [if_pos (by rw [List.length_append]; exact hlen)] at hslot
      exact ⟨⟨h.silent seen, trivial⟩, hslot⟩
    | cons bit' bits =>
      rw [List.length_cons] at hlen
      rw [if_neg (by rw [List.length_append, List.length_singleton]; omega)] at hslot
      have hrest : (seen ++ [bit]).length + (bit' :: bits).length = n := by
        rw [List.length_append, List.length_singleton, List.length_cons]
        omega
      obtain ⟨hhears, hafter⟩ := ih hrest (List.cons_ne_nil _ _)
      rw [List.append_assoc] at hafter
      refine ⟨⟨h.silent seen, ?_⟩, ?_⟩
      · rw [hslot]
        exact hhears
      · rw [← List.singleton_append, after_append]
        show after chipLogic (bit' :: bits) (chipLogic.slot bit ⟨r, stage seen⟩) = _
        rw [hslot]
        exact hafter

end Collect

theorem byteBits_ne_nil (byte : UInt8) : byteBits byte ≠ [] := List.cons_ne_nil _ _

/-- A ROM command. -/
theorem romCommand_run (r : Registers) (command : UInt8) :
    Hears chipLogic (byteBits command) ⟨r, .romCommand []⟩ ∧
      after chipLogic (byteBits command) ⟨r, .romCommand []⟩ = ⟨r, romStage command⟩ := by
  have hlen : ([] : List Bool).length + (byteBits command).length = 8 := rfl
  have hrun := (collects_romCommand r).all hlen (byteBits_ne_nil command)
  rwa [List.nil_append, byteOf_byteBits] at hrun

/-- A function command. -/
theorem function_run (r : Registers) (command : UInt8) :
    Hears chipLogic (byteBits command) ⟨r, .function []⟩ ∧
      after chipLogic (byteBits command) ⟨r, .function []⟩ = r.execute command := by
  have hlen : ([] : List Bool).length + (byteBits command).length = 8 := rfl
  have hrun := (collects_function r).all hlen (byteBits_ne_nil command)
  rwa [List.nil_append, byteOf_byteBits] at hrun

/-- The three bytes that are written to the scratchpad. -/
theorem writeScratchpad_run (r : Registers) (th tl config : UInt8) :
    Hears chipLogic ([th, tl, config].flatMap byteBits) ⟨r, .writeScratchpad []⟩ ∧
      after chipLogic ([th, tl, config].flatMap byteBits) ⟨r, .writeScratchpad []⟩ =
        ⟨r.configured th tl config, .idle⟩ := by
  have hlen : ([] : List Bool).length + ([th, tl, config].flatMap byteBits).length = 24 := rfl
  have hrun := (collects_writeScratchpad r).all hlen (List.cons_ne_nil _ _)
  rw [List.nil_append] at hrun
  have hth : ([th, tl, config].flatMap byteBits).take 8 = byteBits th := rfl
  have htl : (([th, tl, config].flatMap byteBits).drop 8).take 8 = byteBits tl := rfl
  have hconfig : (([th, tl, config].flatMap byteBits).drop 16).take 8 = byteBits config := rfl
  rwa [hth, htl, hconfig, byteOf_byteBits, byteOf_byteBits, byteOf_byteBits] at hrun

/-- A sensor that is not addressed. -/
theorem idle_run (r : Registers) (bits : List Bool) :
    Hears chipLogic bits ⟨r, .idle⟩ ∧ after chipLogic bits ⟨r, .idle⟩ = ⟨r, .idle⟩ := by
  induction bits with
  | nil => exact ⟨trivial, rfl⟩
  | cons bit bits ih => exact ⟨⟨rfl, ih.1⟩, ih.2⟩

/-! ## Codes -/

/-- The bits of a code in the order in which they are sent. -/
theorem flatMap_rom (sn : Rom) : sn.toList.flatMap byteBits = (List.range 64).map sn.bit := by
  have hbytes : sn.toList = (List.range 8).map fun k => sn[k]?.getD 0 := by
    apply List.ext_getElem
    · simp
    · intro k hk _
      rw [Vector.length_toList] at hk
      simp [hk]
  rw [hbytes]
  rfl

/-- From the bit `index` of the code on. -/
theorem matchRom_run (r : Registers) (sn : Rom) {index n : Nat} (hn : index + (n + 1) = 64) :
    Hears chipLogic ((List.range' index (n + 1)).map sn.bit) ⟨r, .matchRom index⟩ ∧
      after chipLogic ((List.range' index (n + 1)).map sn.bit) ⟨r, .matchRom index⟩ =
        ⟨r, if (List.range' index (n + 1)).all fun j => r.rom.bit j == sn.bit j then .function []
          else .idle⟩ := by
  induction n generalizing index with
  | zero =>
    obtain rfl : index = 63 := by omega
    refine ⟨⟨rfl, trivial⟩, ?_⟩
    show (⟨r, r.selected 63 (sn.bit 63) .matchRom⟩ : Chip) = ⟨r, _⟩
    simp [Registers.selected]
  | succ n ih =>
    rw [List.range'_succ, List.map_cons, List.all_cons]
    have hslot : chipLogic.slot (sn.bit index) ⟨r, .matchRom index⟩ =
        ⟨r, r.selected index (sn.bit index) .matchRom⟩ := rfl
    have hne : index ≠ 63 := by omega
    by_cases hbit : r.rom.bit index = sn.bit index
    · rw [Registers.selected, if_pos hbit, if_neg hne] at hslot
      have hrest : index + 1 + (n + 1) = 64 := by omega
      obtain ⟨hhears, hafter⟩ := ih hrest
      refine ⟨⟨rfl, by rw [hslot]; exact hhears⟩, ?_⟩
      rw [beq_iff_eq.mpr hbit, Bool.true_and, ← hafter, ← hslot]
      rfl
    · rw [Registers.selected, if_neg hbit] at hslot
      obtain ⟨hhears, hafter⟩ := idle_run r ((List.range' (index + 1) (n + 1)).map sn.bit)
      refine ⟨⟨rfl, by rw [hslot]; exact hhears⟩, ?_⟩
      rw [beq_eq_false_iff_ne.mpr hbit, Bool.false_and, if_neg Bool.false_ne_true, ← hafter,
        ← hslot]
      rfl

/-- **Selection.** A reset, `MATCH ROM` and a code leave the sensors with this code ready for a
function command, and the others idle. -/
theorem select_run (r : Registers) (sn : Rom) :
    Hears chipLogic ((matchRomCmd :: sn.toList).flatMap byteBits) ⟨r, .romCommand []⟩ ∧
      after chipLogic ((matchRomCmd :: sn.toList).flatMap byteBits) ⟨r, .romCommand []⟩ =
        ⟨r, if r.rom = sn then .function [] else .idle⟩ := by
  obtain ⟨hhears, hafter⟩ := romCommand_run r matchRomCmd
  have hbits : 0 + (63 + 1) = 64 := rfl
  obtain ⟨hhears', hafter'⟩ := matchRom_run r sn hbits
  have hall : (List.range' 0 64).all (fun j => r.rom.bit j == sn.bit j) = decide (r.rom = sn) := by
    rw [Bool.eq_iff_iff, List.all_eq_true, decide_eq_true_iff]
    refine ⟨fun h => Rom.ext_bit fun j hj => ?_, fun h j _ => by rw [h, beq_self_eq_true]⟩
    exact beq_iff_eq.mp (h j (by rw [List.mem_range'_1]; omega))
  rw [hall] at hafter'
  rw [List.flatMap_cons, flatMap_rom, List.range_eq_range', hears_append, after_append, hafter]
  refine ⟨⟨hhears, hhears'⟩, ?_⟩
  show after chipLogic ((List.range' 0 64).map sn.bit) ⟨r, .matchRom 0⟩ = _
  rw [hafter']
  by_cases hsn : r.rom = sn
  · rw [decide_eq_true hsn, if_pos rfl, if_pos hsn]
  · rw [decide_eq_false hsn, if_neg Bool.false_ne_true, if_neg hsn]

end MyLibraries.Ds1822
