import MyLibraries.Crc.Dallas
import MyLibraries.OneWire.Multi

/-!
# One DS18B20 sensor on a bus

`DS18B20_Single::ReadTemperature` skips the ROM code and reads the scratchpad of the only
sensor. A scratchpad whose nine bytes the checksum accepts, damaged within eight
consecutive bits on its way, is refused: neither is its value compared with that of a
sensor that is not ready, nor does it become a temperature.
-/

namespace MyLibraries.OneWire.Single

open Crc

variable {β : Type}

/-- The bus when the buffer is read. -/
def selectStratchpad (interface : ByteInterface β) (bus : β) : β :=
  interface.write readStratchpadCmd (interface.write skipRom (interface.reset bus).2)

/-- The buffer that `ReadTemperature` fills when the reset succeeds. -/
def stratchpad (interface : ByteInterface β) (bus : β) : List UInt8 :=
  (readBuf interface stratchpadSize (selectStratchpad interface bus)).1

/-- `DS18B20_Single::ReadTemperature`. -/
def readTemperature (interface : ByteInterface β) (temp : ℚ) (bus : β) : Result × ℚ × β :=
  let (res, bus) := interface.reset bus
  if res ≠ .success then (res, temp, bus)
  else
    let bus := interface.write skipRom bus
    let bus := interface.write readStratchpadCmd bus
    let (buf, bus) := readBuf interface stratchpadSize bus
    if crc8Dallas buf ≠ 0 then (.crcMissmatch, temp, bus)
    else if rawValue buf = 2495 then (.notReady, temp, bus)
    else (.success, rawValue buf / 16, bus)

theorem readTemperature_of_reset {interface : ByteInterface β} {bus : β} (temp : ℚ)
    (h : (interface.reset bus).1 ≠ .success) :
    readTemperature interface temp bus =
      ((interface.reset bus).1, temp, (interface.reset bus).2) :=
  if_pos h

/-- A buffer that the checksum refuses. -/
theorem readTemperature_of_crc {interface : ByteInterface β} {bus : β} (temp : ℚ)
    (h : (interface.reset bus).1 = .success) (hcrc : crc8Dallas (stratchpad interface bus) ≠ 0) :
    ∃ bus', readTemperature interface temp bus = (.crcMissmatch, temp, bus') :=
  ⟨(readBuf interface stratchpadSize (selectStratchpad interface bus)).2,
    (if_neg (not_not.mpr h)).trans (if_pos hcrc)⟩

/-- **The checksum guards the temperature.** -/
theorem dallas_acceptance :
    (∀ (b : List UInt8) (h : b ≠ []),
      crc8Dallas b = 0 ↔ (b.getLast h).toBitVec = crc8Dallas b.dropLast) ∧
    ∀ a b : List UInt8, crc8Dallas a = 0 → a.length = b.length → a ≠ b →
      ∀ start, (∀ i, (bits a)[i]? ≠ (bits b)[i]? → start ≤ i ∧ i < start + 8) →
        crc8Dallas b ≠ 0 ∧
          ∀ {β : Type} (interface : ByteInterface β) (temp : ℚ) (bus : β),
            stratchpad interface bus = b →
              (readTemperature interface temp bus).1 =
                  (if (interface.reset bus).1 = .success then .crcMissmatch
                    else (interface.reset bus).1) ∧
                (readTemperature interface temp bus).2.1 = temp := by
  refine ⟨fun b h => crc8Dallas_eq_zero_iff h, ?_⟩
  intro a b hacc hlen hne start hwin
  have hcrc : crc8Dallas b ≠ 0 := by
    intro hb
    exact crc8Dallas_detects_burst hlen hne start hwin (hacc.trans hb.symm)
  refine ⟨hcrc, fun interface temp bus hread => ?_⟩
  by_cases hres : (interface.reset bus).1 = .success
  · obtain ⟨bus', h⟩ := readTemperature_of_crc temp hres (hread ▸ hcrc)
    rw [h, if_pos hres]
    exact ⟨rfl, rfl⟩
  · rw [readTemperature_of_reset temp hres, if_neg hres]
    exact ⟨rfl, rfl⟩

/-- A sensor that sends its bytes one after the other. -/
def sender : ByteInterface (List UInt8) where
  reset bytes := (.success, bytes)
  write _ bytes := bytes
  writeBit _ bytes := bytes
  readBit bytes := (0, bytes)
  read bytes := (bytes.headD 0xFF, bytes.tail)

/-- The scratchpad of a sensor after power-on; two bits of it, in two bytes, are damaged. -/
theorem dallas_acceptance_power_on :
    (crc8Dallas [0x50, 0x05, 0x4B, 0x46, 0x7F, 0xFF, 0x0C, 0x10, 0x1C] = 0 ↔
      (0x1C : UInt8).toBitVec = crc8Dallas [0x50, 0x05, 0x4B, 0x46, 0x7F, 0xFF, 0x0C, 0x10]) ∧
    (readTemperature sender 20 [0xD0, 0x04, 0x4B, 0x46, 0x7F, 0xFF, 0x0C, 0x10, 0x1C]).1 =
      .crcMissmatch := by
  refine ⟨dallas_acceptance.1 [0x50, 0x05, 0x4B, 0x46, 0x7F, 0xFF, 0x0C, 0x10, 0x1C] (by decide),
    ?_⟩
  have hrefused := dallas_acceptance.2
    [0x50, 0x05, 0x4B, 0x46, 0x7F, 0xFF, 0x0C, 0x10, 0x1C]
    [0xD0, 0x04, 0x4B, 0x46, 0x7F, 0xFF, 0x0C, 0x10, 0x1C] (by decide +kernel) rfl (by decide) 7
  refine ((hrefused (differ_in_window (by decide) ?_)).2 sender 20 _ rfl).1
  decide

end MyLibraries.OneWire.Single
