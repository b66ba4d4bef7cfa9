import Mathlib.Data.BitVec
import Mathlib.Logic.Function.Basic

/-!
# Bit operations

`bit_str` writes the bits of a word as digits, `str_bits` reads such a string, and
`reverse_bits` reverses a word. Each of them stands in the source once for a width of 32, of
16 and of 8 bits. A string is given by its characters from the pointer on; `str_bits` reads
none behind the NUL (`strBits_congr`).
-/

namespace MyLibraries.Bitops

/-- `char *`. -/
abbrev Str := Nat → UInt8

/-- `'0'`. -/
def digit0 : UInt8 := 48

/-- `'1'`. -/
def digit1 : UInt8 := 49

variable {w : Nat}

/-! ## Reversal -/

/-- `reverse_bits32`. -/
def reverseBits32 (x : BitVec 32) : BitVec 32 :=
  let x := x >>> 1 &&& 0x55555555#32 ||| (x &&& 0x55555555#32) <<< 1
  let x := x >>> 2 &&& 0x33333333#32 ||| (x &&& 0x33333333#32) <<< 2
  let x := x >>> 4 &&& 0x0F0F0F0F#32 ||| (x &&& 0x0F0F0F0F#32) <<< 4
  let x := x >>> 8 &&& 0x00FF00FF#32 ||| (x &&& 0x00FF00FF#32) <<< 8
  let x := x >>> 16 ||| x <<< 16
  x

/-- `reverse_bits16`. -/
def reverseBits16 (x : BitVec 16) : BitVec 16 :=
  let x := x >>> 1 &&& 0x5555#16 ||| (x &&& 0x5555#16) <<< 1
  let x := x >>> 2 &&& 0x3333#16 ||| (x &&& 0x3333#16) <<< 2
  let x := x >>> 4 &&& 0x0F0F#16 ||| (x &&& 0x0F0F#16) <<< 4
  let x := x >>> 8 ||| x <<< 8
  x

/-- `reverse_bits8`. -/
def reverseBits8 (x : BitVec 8) : BitVec 8 :=
  let x := x >>> 1 &&& 0x55#8 ||| (x &&& 0x55#8) <<< 1
  let x := x >>> 2 &&& 0x33#8 ||| (x &&& 0x33#8) <<< 2
  let x := x >>> 4 ||| x <<< 4
  x

/-! ## Writing -/

/-- The loop of `bit_str`, with the indices below the first argument to go. -/
def bitStrLoop : Nat → BitVec w → Str → Str
  | 0, _, buffer => buffer
  | i + 1, value, buffer =>
      let buffer := Function.update buffer i (if value &&& 1#w ≠ 0#w then digit1 else digit0)
      bitStrLoop i (value >>> 1) buffer

/-- `bit_str` of a width. -/
def bitStr (value : BitVec w) (buffer : Str) : Str :=
  let buffer := bitStrLoop w value buffer
  Function.update buffer w 0

/-- `bit_str32`. -/
def bitStr32 (value : BitVec 32) (buffer : Str) : Str := bitStr value buffer

/-- `bit_str16`. -/
def bitStr16 (value : BitVec 16) (buffer : Str) : Str := bitStr value buffer

/-- `bit_str8`. -/
def bitStr8 (value : BitVec 8) (buffer : Str) : Str := bitStr value buffer

/-! ## Reading -/

/-- The loop of `str_bits` with its three ways out, at the index `i` with `n` places left. -/
def strBitsLoop (str : Str) : Nat → Nat → BitVec w → BitVec w
  | 0, _, result => result
  | n + 1, i, result =>
      if str i = 0 then result
      else
        let result := result <<< 1
        if str i = digit1 then strBitsLoop str n (i + 1) (result ||| 1#w)
        else if str i ≠ digit0 then result
        else strBitsLoop str n (i + 1) result

/-- `str_bits` of a width. -/
def strBits (w : Nat) (str : Str) : BitVec w := strBitsLoop str w 0 0#w

/-- `str_bits32`. -/
def strBits32 (str : Str) : BitVec 32 := strBits 32 str

/-- `str_bits16`. -/
def strBits16 (str : Str) : BitVec 16 := strBits 16 str

/-- `str_bits8`. -/
def strBits8 (str : Str) : BitVec 8 := strBits 8 str

/-- Nothing behind the NUL matters. -/
theorem strBitsLoop_congr {s t : Str} {n i : Nat} {result : BitVec w}
    (h : ∀ k, (∀ j < k, s j ≠ 0) → s k = t k) (hbefore : ∀ j < i, s j ≠ 0) :
    strBitsLoop s n i result = strBitsLoop t n i result := by
  induction n generalizing i result with
  | zero => rfl
  | succ n ih =>
      have hi : s i = t i := h i hbefore
      by_cases hnul : s i = 0
      · rw [strBitsLoop, strBitsLoop, ← hi, if_pos hnul, if_pos hnul]
      · have hnext : ∀ j < i + 1, s j ≠ 0 := by
          intro j hj
          rcases Nat.lt_succ_iff_lt_or_eq.mp hj with hlt | rfl
          · exact hbefore j hlt
          · exact hnul
        rw [strBitsLoop, strBitsLoop, ← hi, if_neg hnul, if_neg hnul]
        simp only [ih hnext]

theorem strBits_congr {s t : Str} (h : ∀ k, (∀ j < k, s j ≠ 0) → s k = t k) :
    strBits w s = strBits w t :=
  strBitsLoop_congr h (by simp)

end MyLibraries.Bitops
