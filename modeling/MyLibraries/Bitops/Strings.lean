import Mathlib.Data.List.TakeWhile
import MyLibraries.Core.BitString
import MyLibraries.Bitops.Model

/-!
# What `str_bits` reads

The loop shifts its result before it looks at the character. A digit fills the place, and at
the NUL or the full width there is no shift; but any other character leaves the loop behind
the shift, so that the value of the digits before it comes back doubled (`strBits_eq`). It is
the right one there only if it is 0 (`str_bits_eq_prefix_iff`).
-/

namespace MyLibraries.Bitops

open BitString

/-- A binary digit. -/
def isDigit (c : UInt8) : Bool := c = digit0 ∨ c = digit1

/-- The first characters of a string. -/
def text (n : Nat) (s : Str) : List UInt8 := (List.range n).map s

/-- What the digits stand for. -/
def bits (cs : List UInt8) : List Bool := cs.map fun c => c = digit1

/-- The digits that the string begins with, the first `w` of them if there are more. -/
def binaryPrefix (w : Nat) (s : Str) : List UInt8 := (text w s).takeWhile isDigit

/-- The value of these digits, the most significant first. -/
def prefixValue (w : Nat) (s : Str) : Nat := value (bits (binaryPrefix w s))

/-- The digits fill the width, are ended by the NUL, or are zeros. -/
def Ended (w : Nat) (s : Str) : Prop :=
  (binaryPrefix w s).length = w ∨ s (binaryPrefix w s).length = 0 ∨
    ∀ c ∈ binaryPrefix w s, c = digit0

variable {w : Nat} {s : Str}

/-! ## The loop -/

theorem isDigit_iff (c : UInt8) : isDigit c = true ↔ c = digit0 ∨ c = digit1 := decide_eq_true_iff

theorem strBitsLoop_digit {i : Nat} (n : Nat) (result : BitVec w) (h : isDigit (s i) = true) :
    strBitsLoop s (n + 1) i result =
      strBitsLoop s n (i + 1) (result.shiftConcat (s i = digit1)) := by
  have hne : digit0 ≠ digit1 := by decide
  have hnul : digit0 ≠ 0 ∧ digit1 ≠ 0 := by decide
  rcases (isDigit_iff _).mp h with h0 | h1
  · simp [strBitsLoop, h0, hne, hnul.1, shiftConcat_false]
  · simp [strBitsLoop, h1, hnul.2, shiftConcat_true]

theorem strBitsLoop_other {i : Nat} (n : Nat) (result : BitVec w) (h : isDigit (s i) = false) :
    strBitsLoop s (n + 1) i result = if s i = 0 then result else result <<< 1 := by
  have hother : s i ≠ digit0 ∧ s i ≠ digit1 := by simpa [isDigit] using h
  simp [strBitsLoop, hother]

/-- The digits ahead of the index `i` are shifted in, and a character behind them that is not
the NUL shifts once more. -/
theorem strBitsLoop_eq (s : Str) (n i : Nat) (result : BitVec w) :
    strBitsLoop s n i result =
      let cs := ((List.range' i n).map s).takeWhile isDigit
      let read := (bits cs).foldl BitVec.shiftConcat result
      if cs.length = n ∨ s (i + cs.length) = 0 then read else read <<< 1 := by
  induction n generalizing i result with
  | zero => rfl
  | succ n ih =>
      rw [List.range'_succ, List.map_cons, List.takeWhile_cons]
      cases h : isDigit (s i) with
      | true =>
          rw [strBitsLoop_digit n result h, ih, if_pos rfl]
          generalize ((List.range' (i + 1) n).map s).takeWhile isDigit = cs
          have hnext : i + (cs.length + 1) = i + 1 + cs.length := by omega
          simp only [List.length_cons, Nat.add_right_cancel_iff, hnext]
          rfl
      | false =>
          rw [strBitsLoop_other n result h]
          simp [bits]

theorem strBits_eq (w : Nat) (s : Str) :
    strBits w s =
      let n := (binaryPrefix w s).length
      let read := ofBits w (bits (binaryPrefix w s))
      if n = w ∨ s n = 0 then read else read <<< 1 := by
  rw [strBits, strBitsLoop_eq, ← List.range_eq_range']
  simp only [Nat.zero_add]
  rfl

theorem length_binaryPrefix_le (w : Nat) (s : Str) : (binaryPrefix w s).length ≤ w := by
  have hle := (List.takeWhile_prefix (l := text w s) isDigit).length_le
  rwa [text, List.length_map, List.length_range] at hle

/-! ## The value -/

theorem toNat_digits (w : Nat) (s : Str) :
    (ofBits w (bits (binaryPrefix w s))).toNat = prefixValue w s ∧
      prefixValue w s < 2 ^ (binaryPrefix w s).length := by
  have hlen : (bits (binaryPrefix w s)).length = (binaryPrefix w s).length := List.length_map _
  have hread : (ofBits w (bits (binaryPrefix w s))).toNat = value (bits (binaryPrefix w s)) ∧
      value (bits (binaryPrefix w s)) < 2 ^ (bits (binaryPrefix w s)).length :=
    toNat_ofBits (by rw [hlen]; exact length_binaryPrefix_le w s)
  rwa [hlen] at hread

/-- Only zeros have the value 0. -/
theorem prefixValue_eq_zero_iff (w : Nat) (s : Str) :
    prefixValue w s = 0 ↔ ∀ c ∈ binaryPrefix w s, c = digit0 := by
  rw [prefixValue, value_eq_zero_iff, bits, List.forall_mem_map]
  have hne : digit0 ≠ digit1 := by decide
  constructor
  · intro hall c hc
    have hdigit := (isDigit_iff c).mp (List.mem_takeWhile_imp hc)
    exact hdigit.resolve_right (of_decide_eq_false (hall c hc))
  · intro hall c hc
    rw [hall c hc]
    exact decide_eq_false hne

/-- A shift behind the digits doubles their value, and drops none of it. -/
theorem toNat_shift_digits (h : (binaryPrefix w s).length ≠ w) :
    (ofBits w (bits (binaryPrefix w s)) <<< 1).toNat = 2 * prefixValue w s := by
  obtain ⟨hval, hlt⟩ := toNat_digits w s
  have hlen := length_binaryPrefix_le w s
  have hpow : 2 ^ ((binaryPrefix w s).length + 1) ≤ 2 ^ w :=
    Nat.pow_le_pow_right (by decide) (by omega)
  rw [Nat.pow_succ] at hpow
  rw [BitVec.toNat_shiftLeft, hval, Nat.shiftLeft_eq, Nat.pow_one, Nat.mul_comm]
  exact Nat.mod_eq_of_lt (by omega)

theorem strBits_eq_prefix_iff (w : Nat) (s : Str) :
    (strBits w s).toNat = prefixValue w s ↔ Ended w s := by
  rw [strBits_eq, Ended, ← or_assoc, ← prefixValue_eq_zero_iff]
  dsimp only
  by_cases hend : (binaryPrefix w s).length = w ∨ s (binaryPrefix w s).length = 0
  · rw [if_pos hend, (toNat_digits w s).1]
    exact iff_of_true rfl (Or.inl hend)
  · rw [if_neg hend, toNat_shift_digits (not_or.mp hend).1, or_iff_right hend]
    omega

theorem str_bits_eq_prefix_iff (s : Str) :
    ((strBits32 s).toNat = prefixValue 32 s ↔ Ended 32 s) ∧
      ((strBits16 s).toNat = prefixValue 16 s ↔ Ended 16 s) ∧
      ((strBits8 s).toNat = prefixValue 8 s ↔ Ended 8 s) :=
  ⟨strBits_eq_prefix_iff 32 s, strBits_eq_prefix_iff 16 s, strBits_eq_prefix_iff 8 s⟩

/-- `"1 "`. -/
def oneBlank : Str := fun i => [digit1, 32].getD i 0

/-- The digit `1` before a blank comes back as 2. -/
theorem str_bits_doubles : ¬ ∀ s : Str,
    (strBits32 s).toNat = prefixValue 32 s ∧ (strBits16 s).toNat = prefixValue 16 s ∧
      (strBits8 s).toNat = prefixValue 8 s := by
  intro h
  have hdoubled : (strBits32 oneBlank).toNat = 2 ∧ prefixValue 32 oneBlank = 1 := by decide
  have hclaim := (h oneBlank).1
  omega

end MyLibraries.Bitops
