import Mathlib.Logic.Function.Basic
import MyLibraries.Core.BitField
import MyLibraries.Core.Run
import MyLibraries.RaspiGpio.Model

/-!
# What `gpio_init` does to the pins

The registers hold ten fields of three bits each. `gpio_init` masks its register with the
field of the pin where the complement is meant: the old bits of the pin stay, and the other
nine pins of the register become inputs (`field_put_pin`, `field_put_same`). So a call sets
up its pin and no other exactly when `Fits` holds before it (`functions_put`), and a run of
calls gives each pin the function of its last call exactly when every call of it finds that
(`gpioInit_local_iff`).
-/

namespace MyLibraries.RaspiGpio

open BitField Run

/-- A call of `gpio_init` for one of the pins, with one of their functions. -/
structure Call where
  attempt : Int
  pin : Fin 54
  func : Func
  func_ne : func ≠ .error

/-- A call as a step. -/
def step (s : Gpio) (c : Call) : Option (Int × Gpio) := gpioInit c.attempt c.pin.val c.func s

/-- What `gpio_func` answers of the pins, where it can map the registers. -/
def functions (s : Gpio) (pin : Fin 54) : Option Func := (gpioFunc 0 pin.val s).map Prod.fst

/-- What a call is for: the pin has the function, the others keep theirs; a call that fails
changes nothing. -/
def assign (fs : Fin 54 → Option Func) (c : Call) (res : Int) : Fin 54 → Option Func :=
  if res = 0 then Function.update fs c.pin (some c.func) else fs

/-- What a pin and its register are like before a call that sets it up as it should. -/
structure Fits (s : Gpio) (c : Call) : Prop where
  pin : ∀ f ∈ functions s c.pin, f.toBits ||| c.func.toBits = c.func.toBits
  others : ∀ q, q ≠ c.pin → q.val / 10 = c.pin.val / 10 → functions s q = some .input

/-- The place of a pin. -/
def bitOf (pin : Fin 54) : Nat := pin.val % 10 * 3

/-- The register of a pin. -/
def regOf (pin : Fin 54) : Fin 6 := ⟨pin.val / 10, by omega⟩

variable {s s' : Gpio} {c : Call} {pin q : Fin 54} {r : Int}

/-! ## Fields -/

theorem getGpfselReg_pin (pin : Fin 54) : getGpfselReg pin.val = some (regOf pin) := by
  revert pin
  decide

theorem place_pin (pin : Fin 54) : place pin.val = some (bitOf pin) := by
  revert pin
  decide

/-- The mask of a pin in its register. -/
def mask (pin : Fin 54) : BitVec 32 := 7#32 <<< bitOf pin

theorem mask_disjoint (hne : q ≠ pin) (hreg : regOf q = regOf pin) :
    mask pin &&& mask q = 0#32 := by
  have hplaces : ∀ i j : Fin 10, i ≠ j → 7#32 <<< (i.val * 3) &&& 7#32 <<< (j.val * 3) = 0#32 := by
    decide
  refine hplaces ⟨pin.val % 10, by omega⟩ ⟨q.val % 10, by omega⟩ fun heq => hne (Fin.ext ?_)
  have hmod := Fin.mk.inj heq
  have hdiv := Fin.mk.inj hreg
  omega

theorem toBits_mask {f : Func} (hf : f ≠ .error) (pin : Fin 54) :
    f.toBits <<< bitOf pin &&& mask pin = f.toBits <<< bitOf pin := by
  have hlow : f.toBits &&& 7#32 = f.toBits := by
    cases f <;> first | rfl | exact absurd rfl hf
  rw [mask, ← BitVec.shiftLeft_and_distrib, hlow]

theorem ofBits_toBits {f : Func} (hf : f ≠ .error) : Func.ofBits f.toBits = f := by
  cases f <;> first | rfl | exact absurd rfl hf

theorem toBits_ofBits (v : BitVec 32) : (Func.ofBits (v &&& 7)).toBits = v &&& 7 := by
  have hall : ∀ k < 8, (Func.ofBits (BitVec.ofNat 32 k)).toBits = BitVec.ofNat 32 k := by decide
  have hlow : v &&& 7 = BitVec.ofNat 32 (v.toNat % 8) := by
    apply BitVec.eq_of_toNat_eq
    rw [BitVec.toNat_and, BitVec.toNat_ofNat]
    have hmod : v.toNat &&& 7 = v.toNat % 8 := Nat.and_two_pow_sub_one_eq_mod v.toNat 3
    have hlt : v.toNat % 8 < 8 := Nat.mod_lt _ (by decide)
    show v.toNat &&& 7 = _
    omega
  rw [hlow, hall _ (Nat.mod_lt _ (by decide))]

/-- The bits of a pin. -/
def field (s : Gpio) (pin : Fin 54) : BitVec 32 := s.gpfsel[regOf pin] >>> bitOf pin &&& 7

theorem functions_eq (s : Gpio) (pin : Fin 54) :
    functions s pin = some (Func.ofBits (field s pin)) := by
  have hinit : (init 0 s).1 = 0 ∧ (init 0 s).2.gpfsel = s.gpfsel := by
    unfold init
    split <;> exact ⟨rfl, rfl⟩
  rw [functions, gpioFunc]
  simp only [hinit.1, getGpfselReg_pin, place_pin, hinit.2]
  rfl

theorem field_eq_mask (s : Gpio) (pin : Fin 54) :
    field s pin = (s.gpfsel[regOf pin] &&& mask pin) >>> bitOf pin := by
  have hmask : ∀ pin : Fin 54, mask pin >>> bitOf pin = 7#32 := by decide
  rw [BitVec.ushiftRight_and_distrib, hmask]
  rfl

theorem toBits_of_mem {f : Func} (hf : f ∈ functions s pin) : f.toBits = field s pin := by
  rw [functions_eq] at hf
  cases hf
  exact toBits_ofBits _

theorem functions_eq_iff {f : Func} (hf : f ≠ .error) :
    functions s pin = some f ↔ field s pin = f.toBits := by
  constructor
  · exact fun h => (toBits_of_mem h).symm
  · intro h
    rw [functions_eq, h, ofBits_toBits hf]

/-! ## One call -/

/-- The registers after a call that could map them. -/
def Gpio.put (s : Gpio) (c : Call) : Gpio :=
  ⟨true, s.gpfsel.set (regOf c.pin)
    (s.gpfsel[regOf c.pin] &&& mask c.pin ||| c.func.toBits <<< bitOf c.pin)⟩

theorem step_eq (s : Gpio) (c : Call) :
    step s c = some (if s.mapped ∨ c.attempt = 0 then (0, s.put c) else (c.attempt, s)) := by
  obtain ⟨mapped, gpfsel⟩ := s
  unfold step gpioInit init
  simp only [getGpfselReg_pin, place_pin]
  cases mapped with
  | true => rfl
  | false =>
    by_cases h : c.attempt = 0
    · simp [h, Gpio.put, mask]
    · simp [h]

theorem put_reg {i : Fin 6} (s : Gpio) (h : i = regOf c.pin) : (s.put c).gpfsel[i] =
    s.gpfsel[regOf c.pin] &&& mask c.pin ||| c.func.toBits <<< bitOf c.pin := by
  subst h
  exact Vector.getElem_set_self _

theorem put_reg_other {i : Fin 6} (s : Gpio) (h : i ≠ regOf c.pin) :
    (s.put c).gpfsel.get i = s.gpfsel.get i :=
  Vector.getElem_set_ne (regOf c.pin).isLt i.isLt fun heq => h (Fin.ext heq.symm)

theorem field_put_pin (s : Gpio) (c : Call) :
    field (s.put c) c.pin = field s c.pin ||| c.func.toBits := by
  have hshift : ∀ f : Func, ∀ pin : Fin 54, f.toBits <<< bitOf pin >>> bitOf pin = f.toBits := by
    intro f
    cases f <;> decide
  rw [field_eq_mask, put_reg s rfl, keep_and (toBits_mask c.func_ne c.pin),
    BitVec.ushiftRight_or_distrib, hshift, ← field_eq_mask]

theorem field_put_same (s : Gpio) (c : Call) (hne : q ≠ c.pin) (hreg : regOf q = regOf c.pin) :
    field (s.put c) q = 0 := by
  rw [field_eq_mask, put_reg s hreg,
    keep_and_other (mask_disjoint hne hreg) (toBits_mask c.func_ne c.pin)]
  exact BitVec.zero_ushiftRight

theorem field_put_other (s : Gpio) (c : Call) (hreg : regOf q ≠ regOf c.pin) :
    field (s.put c) q = field s q := by
  show (s.put c).gpfsel.get (regOf q) >>> bitOf q &&& 7 = s.gpfsel.get (regOf q) >>> bitOf q &&& 7
  rw [put_reg_other s hreg]

/-- What a call that could map the registers comes to. -/
theorem functions_put (s : Gpio) (c : Call) :
    functions (s.put c) = Function.update (functions s) c.pin (some c.func) ↔ Fits s c := by
  have hpin : functions (s.put c) c.pin = some c.func ↔
      field s c.pin ||| c.func.toBits = c.func.toBits := by
    rw [functions_eq_iff c.func_ne, field_put_pin]
  constructor
  · intro h
    constructor
    · intro f hf
      rw [toBits_of_mem hf, ← hpin, h, Function.update_self]
    · intro q hne hreg
      have hzero := field_put_same s c hne (Fin.ext hreg)
      have hq := congrFun h q
      rw [Function.update_of_ne hne, functions_eq, hzero] at hq
      exact hq.symm
  · intro hfits
    funext q
    by_cases hq : q = c.pin
    · subst hq
      rw [Function.update_self, hpin, ← toBits_of_mem (functions_eq s c.pin)]
      exact hfits.pin _ (functions_eq s c.pin)
    · rw [Function.update_of_ne hq]
      by_cases hreg : regOf q = regOf c.pin
      · have hinput : functions (s.put c) q = some .input := by
          rw [functions_eq, field_put_same s c hq hreg]
          rfl
        rw [hinput, hfits.others q hq (Fin.mk.inj hreg)]
      · rw [functions_eq, functions_eq, field_put_other s c hreg]

/-- A call that fails leaves the registers alone. -/
theorem step_cases (h : step s c = some (r, s')) :
    ((s.mapped ∨ c.attempt = 0) ∧ r = 0 ∧ s' = s.put c) ∨
      (¬(s.mapped ∨ c.attempt = 0) ∧ r ≠ 0 ∧ s' = s) := by
  rw [step_eq] at h
  split at h
  · rename_i hmapped
    cases h
    exact Or.inl ⟨hmapped, rfl, rfl⟩
  · rename_i hmapped
    cases h
    exact Or.inr ⟨hmapped, fun heq => hmapped (Or.inr heq), rfl⟩

/-- What a call does to the functions of the pins. -/
theorem step_assign (h : step s c = some (r, s')) :
    functions s' = assign (functions s) c r ↔ (s.mapped ∨ c.attempt = 0 → Fits s c) := by
  rcases step_cases h with ⟨hmapped, rfl, rfl⟩ | ⟨hmapped, hr, rfl⟩
  · rw [assign, if_pos rfl, functions_put]
    exact ⟨fun hfits _ => hfits, fun hfits => hfits hmapped⟩
  · rw [assign, if_neg hr]
    exact iff_of_true rfl fun h => absurd h hmapped

/-- **When `gpio_init` sets up its pin and no other**, in one call and in runs of calls. -/
theorem gpioInit_local_iff (s : Gpio) :
    (∀ c s', step s c = some (0, s') →
      ((functions s' c.pin = some c.func ∧ ∀ q, q ≠ c.pin → functions s' q = functions s q) ↔
        Fits s c)) ∧
    ∀ calls, Follows step functions assign s calls ↔
      AlongRun step (fun s c => s.mapped ∨ c.attempt = 0 → Fits s c) s calls := by
  constructor
  · intro c s' h
    rw [← Function.eq_update_iff]
    rcases step_cases h with ⟨-, -, rfl⟩ | ⟨-, hne, -⟩
    · exact functions_put s c
    · exact absurd rfl hne
  · intro calls
    rw [follows_iff_alongRun]
    have hstep : ∀ s c, (∀ r s', step s c = some (r, s') →
        functions s' = assign (functions s) c r) ↔ (s.mapped ∨ c.attempt = 0 → Fits s c) := by
      intro s c
      constructor
      · exact fun hall => (step_assign (step_eq s c)).mp (hall _ _ (step_eq s c))
      · exact fun hfits r s' h => (step_assign h).mpr hfits
    simp only [hstep]

/-- A board that has just been started: all pins are inputs. -/
def reset : Gpio := ⟨false, Vector.replicate 6 0⟩

/-- Two pins of different registers set up on it. -/
theorem gpioInit_local_two_pins :
    let led : Call := ⟨0, 17, .output, by decide⟩
    let clock : Call := ⟨0, 4, .alt0, by decide⟩
    (functions (reset.put led) 17 = some .output ∧
      ∀ q, q ≠ 17 → functions (reset.put led) q = functions reset q) ∧
    Follows step functions assign reset [led, clock] := by
  intro led clock
  have hled : Fits reset led := by
    constructor
    · decide +kernel
    · decide +kernel
  have hclock : Fits (reset.put led) clock := by
    constructor
    · decide +kernel
    · decide +kernel
  obtain ⟨hone, hall⟩ := gpioInit_local_iff reset
  refine ⟨(hone led _ (step_eq reset led)).mpr hled, (hall _).mpr ⟨fun _ => hled, ?_⟩⟩
  intro r s' h
  cases (step_eq reset led).symm.trans h
  exact ⟨fun _ => hclock, fun _ _ _ => trivial⟩

/-- The serial port in use on pins 14 and 15, and a call for pin 17: it is an output then,
but the serial port is gone. -/
theorem serial_port_lost :
    let serial : Gpio := ⟨true, #v[0, 0x24000, 0, 0, 0, 0]⟩
    let led : Call := ⟨0, 17, .output, by decide⟩
    functions serial 14 = some .alt0 ∧ functions serial 15 = some .alt0 ∧
      ∃ s', step serial led = some (0, s') ∧ functions s' 17 = some .output ∧
        functions s' 14 = some .input ∧ functions s' 15 = some .input := by
  refine ⟨by decide, by decide, _, rfl, by decide, by decide, by decide⟩

end MyLibraries.RaspiGpio
