import MyLibraries.Bitops.Strings

/-!
# Reversal and the round trip

The rounds of `reverse_bits` exchange neighbouring bits, then pairs, nibbles and so on, and
together they reverse the word (`reverseBits32_eq`). `bit_str` writes the bits from the lowest
one backwards, so its text is the string of bits in order (`text_bitStr`), which `str_bits`
reads as the same word.
-/

namespace MyLibraries.Bitops

open BitString

/-- What the three functions of a width are to each other. -/
structure RoundTrip (w : Nat) (bitStr : BitVec w → Str → Str) (strBits : Str → BitVec w)
    (reverseBits : BitVec w → BitVec w) : Prop where
  ended : ∀ v buffer, bitStr v buffer w = 0 ∧ ∀ i < w, bitStr v buffer i ≠ 0
  read : ∀ v buffer, strBits (bitStr v buffer) = v
  reversed : ∀ v buffer buffer',
    text w (bitStr (reverseBits v) buffer) = (text w (bitStr v buffer')).reverse
  involutive : ∀ v, reverseBits (reverseBits v) = v
  written : ∀ s buffer, (∀ i < w, s i = digit0 ∨ s i = digit1) → s w = 0 →
    ∀ i ≤ w, bitStr (strBits s) buffer i = s i

variable {w : Nat} {s : Str}

/-! ## The rounds -/

theorem reverseBits32_eq (x : BitVec 32) : reverseBits32 x = x.reverse := by
  have hw : 32 = 2 ^ 5 := rfl
  have h1 := exchanged_swap (m := 0x55555555#32) 0 (by decide) x
  have h2 := h1.trans (exchanged_swap (m := 0x33333333#32) 1 (by decide) _) hw (by decide)
  have h4 := h2.trans (exchanged_swap (m := 0x0F0F0F0F#32) 2 (by decide) _) hw (by decide)
  have h8 := h4.trans (exchanged_swap (m := 0x00FF00FF#32) 3 (by decide) _) hw (by decide)
  have h16 := h8.trans (exchanged_halves 4 hw _) hw (by decide)
  exact h16.eq_reverse hw

theorem reverseBits16_eq (x : BitVec 16) : reverseBits16 x = x.reverse := by
  have hw : 16 = 2 ^ 4 := rfl
  have h1 := exchanged_swap (m := 0x5555#16) 0 (by decide) x
  have h2 := h1.trans (exchanged_swap (m := 0x3333#16) 1 (by decide) _) hw (by decide)
  have h4 := h2.trans (exchanged_swap (m := 0x0F0F#16) 2 (by decide) _) hw (by decide)
  have h8 := h4.trans (exchanged_halves 3 hw _) hw (by decide)
  exact h8.eq_reverse hw

theorem reverseBits8_eq (x : BitVec 8) : reverseBits8 x = x.reverse := by
  have hw : 8 = 2 ^ 3 := rfl
  have h1 := exchanged_swap (m := 0x55#8) 0 (by decide) x
  have h2 := h1.trans (exchanged_swap (m := 0x33#8) 1 (by decide) _) hw (by decide)
  have h4 := h2.trans (exchanged_halves 2 hw _) hw (by decide)
  exact h4.eq_reverse hw

/-! ## The text -/

/-- The digit of a bit. -/
def digit (b : Bool) : UInt8 := if b then digit1 else digit0

theorem digit_eq_digit1 (b : Bool) : decide (digit b = digit1) = b := by
  cases b <;> decide

theorem bits_map_digit (bs : List Bool) : bits (bs.map digit) = bs := by
  rw [bits, List.map_map]
  exact (List.map_congr_left fun b _ => digit_eq_digit1 b).trans (List.map_id bs)

theorem isDigit_digit (b : Bool) : isDigit (digit b) = true := by
  cases b <;> decide

theorem digit_of_low (v : BitVec w) :
    (if v &&& 1#w ≠ 0#w then digit1 else digit0) = digit (v.getLsbD 0) := by
  rw [BitVec.and_one_eq_setWidth_ofBool_getLsbD]
  cases hbit : v.getLsbD 0 with
  | false => simp [digit]
  | true =>
      have hw : 0 < w := by
        by_contra hzero
        rw [BitVec.getLsbD_of_ge v 0 (by omega)] at hbit
        exact absurd hbit (by decide)
      have hne : (BitVec.ofBool true).setWidth w ≠ 0#w := by
        intro heq
        have hlow := congrArg (fun x : BitVec w => x.getLsbD 0) heq
        simp [hw] at hlow
      rw [if_pos hne]
      rfl

/-- The loop writes the bits that are left, the lowest one at the highest index. -/
theorem bitStrLoop_apply (n : Nat) (v : BitVec w) (buffer : Str) (i : Nat) :
    bitStrLoop n v buffer i = if i < n then digit (v.getLsbD (n - 1 - i)) else buffer i := by
  induction n generalizing v buffer with
  | zero => simp [bitStrLoop]
  | succ n ih =>
      rw [bitStrLoop, digit_of_low, ih]
      by_cases hi : i < n
      · have hplace : 1 + (n - 1 - i) = n + 1 - 1 - i := by omega
        rw [if_pos hi, if_pos (by omega), BitVec.getLsbD_ushiftRight, hplace]
      · by_cases hlast : i = n
        · subst hlast
          simp
        · rw [if_neg hi, if_neg (by omega), Function.update_of_ne hlast]

theorem bitStr_nul (v : BitVec w) (buffer : Str) : bitStr v buffer w = 0 := by
  rw [bitStr]
  exact Function.update_self ..

theorem bitStr_apply (v : BitVec w) (buffer : Str) {i : Nat} (hi : i < w) :
    bitStr v buffer i = digit (v.getMsbD i) := by
  rw [bitStr]
  show Function.update (bitStrLoop w v buffer) w 0 i = _
  rw [Function.update_of_ne (by omega), bitStrLoop_apply, if_pos hi, BitVec.getMsbD_eq_getLsbD,
    decide_eq_true hi, Bool.true_and]

theorem text_bitStr (v : BitVec w) (buffer : Str) :
    text w (bitStr v buffer) = (toBits v).map digit := by
  rw [text, toBits, List.map_map]
  exact List.map_congr_left fun i hi => bitStr_apply v buffer (List.mem_range.mp hi)

/-! ## Round trips -/

/-- A text of digits is read to its end. -/
theorem strBits_of_digits (h : ∀ c ∈ text w s, isDigit c = true) :
    strBits w s = ofBits w (bits (text w s)) := by
  have hall : binaryPrefix w s = text w s := List.takeWhile_eq_self_iff.mpr h
  have hlen : (text w s).length = w := by rw [text, List.length_map, List.length_range]
  rw [strBits_eq, hall]
  exact if_pos (Or.inl hlen)

theorem strBits_bitStr (v : BitVec w) (buffer : Str) : strBits w (bitStr v buffer) = v := by
  have hdigits : ∀ c ∈ text w (bitStr v buffer), isDigit c = true := by
    rw [text_bitStr]
    exact List.forall_mem_map.mpr fun b _ => isDigit_digit b
  rw [strBits_of_digits hdigits, text_bitStr, bits_map_digit, ofBits_toBits]

theorem digit_of_isDigit {c : UInt8} (h : c = digit0 ∨ c = digit1) : digit (c = digit1) = c := by
  rcases h with rfl | rfl <;> decide

theorem bitStr_strBits (hs : ∀ i < w, s i = digit0 ∨ s i = digit1) (hend : s w = 0)
    (buffer : Str) {i : Nat} (hi : i ≤ w) : bitStr (strBits w s) buffer i = s i := by
  rcases Nat.lt_or_eq_of_le hi with hlt | rfl
  · have hdigits : ∀ c ∈ text w s, isDigit c = true :=
      List.forall_mem_map.mpr fun j hj => (isDigit_iff _).mpr (hs j (List.mem_range.mp hj))
    have hlen : (bits (text w s)).length = w := by
      rw [bits, List.length_map, text, List.length_map, List.length_range]
    have hbit : (bits (text w s)).getD i false = decide (s i = digit1) := by
      rw [List.getD_eq_getElem?_getD, bits, text, List.getElem?_map, List.getElem?_map,
        List.getElem?_range hlt]
      rfl
    rw [bitStr_apply _ _ hlt, strBits_of_digits hdigits, getMsbD_ofBits hlen hlt, hbit,
      digit_of_isDigit (hs i hlt)]
  · rw [bitStr_nul, hend]

theorem roundTrip {reverseBits : BitVec w → BitVec w} (hrev : ∀ x, reverseBits x = x.reverse) :
    RoundTrip w bitStr (strBits w) reverseBits where
  ended v buffer := by
    refine ⟨bitStr_nul v buffer, fun i hi => ?_⟩
    rw [bitStr_apply v buffer hi]
    cases v.getMsbD i <;> decide
  read := strBits_bitStr
  reversed v buffer buffer' := by
    rw [text_bitStr, text_bitStr, hrev, toBits_reverse, List.map_reverse]
  involutive v := by rw [hrev, hrev, BitVec.reverse_reverse_eq]
  written s buffer hs hend i hi := bitStr_strBits hs hend buffer hi

theorem bit_strings_round_trip :
    RoundTrip 32 bitStr32 strBits32 reverseBits32 ∧
      RoundTrip 16 bitStr16 strBits16 reverseBits16 ∧
      RoundTrip 8 bitStr8 strBits8 reverseBits8 :=
  ⟨roundTrip reverseBits32_eq, roundTrip reverseBits16_eq, roundTrip reverseBits8_eq⟩

/-- `"10100000"`, written over the string itself. -/
theorem bit_strings_round_trip_digits :
    let s : Str := fun i => [digit1, digit0, digit1].getD i (if i < 8 then digit0 else 0)
    ∀ i ≤ 8, bitStr8 (strBits8 s) s i = s i :=
  bit_strings_round_trip.2.2.written _ _ (by decide) (by decide)

example : reverseBits32 0x12345678#32 = 0x1E6A2C48#32 := by decide

end MyLibraries.Bitops
