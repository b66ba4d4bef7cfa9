import Mathlib.Logic.Function.Basic

/-!
# Simulated I2C devices

`I2C_DeviceJSON` answers reads from a description of devices. The constructor collects the
steps of all registers of its device in one list, under the address of the device; `Step` and
`Reset` move a counter, and a read answers the entry of the list at the counter. The
description is what the parser makes of the file: the devices, their registers and the data of
the steps of each, as the unsigned integers that `asUInt` gives.
-/

namespace MyLibraries.DevicesJson

/-- An element of `"Registers"`. -/
structure RegisterEntry where
  address : UInt32
  steps : List UInt32
  deriving DecidableEq, Repr

/-- An element of `"Devices"`. -/
structure DeviceEntry where
  type : String
  address : UInt32
  registers : List RegisterEntry
  deriving DecidableEq, Repr

/-- The exceptions that are thrown. -/
inductive Error
  | outOfRange (what : String)
  | invalidArgument (what : String)
  deriving DecidableEq, Repr

/-- `std::map<size_t, std::vector<uint16_t>>`. -/
abbrev Steps := Nat → Option (List UInt16)

/-- `steps[key].push_back(value)`. -/
def pushBack (key : Nat) (steps : Steps) (value : UInt16) : Steps :=
  Function.update steps key (some ((steps key).getD [] ++ [value]))

/-- `I2C_DeviceJSON`. -/
structure I2cDevice where
  address : UInt8
  steps : Steps
  stepCount : UInt64

/-- The device is the one to simulate. -/
def DeviceEntry.Selected (address : UInt8) (device : DeviceEntry) : Prop :=
  device.type = "I2C" ∧ device.address = address.toUInt32
  deriving Decidable

/-- The steps of a register, as the constructor adds them. -/
def addRegister (address : UInt8) (steps : Steps) (entry : RegisterEntry) : Steps :=
  entry.steps.foldl (fun steps data => pushBack address.toNat steps data.toUInt16) steps

/-- `I2C_DeviceJSON::I2C_DeviceJSON`. -/
def construct (devices : List DeviceEntry) (address : UInt8) : I2cDevice :=
  let steps := devices.foldl (fun steps device =>
    if device.Selected address then device.registers.foldl (addRegister address) steps
    else steps) fun _ => none
  { address, steps, stepCount := 0 }

/-- `DeviceJSON_StepHandler::Step`. -/
def step (d : I2cDevice) : I2cDevice := { d with stepCount := d.stepCount + 1 }

/-- `DeviceJSON_StepHandler::Reset`. -/
def reset (d : I2cDevice) : I2cDevice := { d with stepCount := 0 }

/-- The bytes that are stored in `data`. -/
def bytes (value : UInt16) (length : Nat) : Except Error (List UInt8) :=
  if length = 1 then .ok [(value &&& 0xFF).toUInt8]
  else if length = 2 then .ok [((value >>> 8) &&& 0xFF).toUInt8, (value &&& 0xFF).toUInt8]
  else .error (.invalidArgument "Unsupported read size")

/-- `I2C_DeviceJSON::Read`; the register is not looked at. -/
def read (d : I2cDevice) (_regAddr : UInt8) (length : Nat) : Except Error (List UInt8) :=
  match d.steps d.address.toNat with
  | none => .error (.outOfRange "No data defined for this device address")
  | some steps =>
    if d.stepCount.toNat ≥ steps.length then
      .error (.outOfRange "Step count exceeds defined steps")
    else
      let value := steps.getD d.stepCount.toNat 0
      bytes value length

/-- A call. -/
inductive Op
  | step
  | reset
  | read (regAddr : UInt8) (length : Nat)
  deriving DecidableEq, Repr

/-- The device behind a call; a read leaves it as it is. -/
def apply (d : I2cDevice) : Op → I2cDevice
  | .step => step d
  | .reset => reset d
  | .read _ _ => d

end MyLibraries.DevicesJson
