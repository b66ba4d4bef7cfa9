import Mathlib.Data.BitVec
import Mathlib.Data.Nat.Bitwise
import Mathlib.Data.Nat.Digits.Defs

/-!
# Bit strings and reversal

A word is read from a string of bits by shifting them in, the highest first (`ofBits`), and
`toBits` gives its bits back. Both undo each other for strings of the word's width, a string
that is not longer counts as its binary value, and the string of the reversed word is the
reversed string.

`swap k m` exchanges the bits at the places `i` and `i ^^^ k` of a word, where `m` marks the
lower place of each pair. Rounds with `k = 1, 2, 4, ..` together complement the place, which is
the reversal (`Exchanged.eq_reverse`).
-/

namespace MyLibraries.BitString

variable {w : Nat} {v x : BitVec w} {bs : List Bool}

/-- The bits of a word, the highest first. -/
def toBits (v : BitVec w) : List Bool := (List.range w).map v.getMsbD

/-- The word that the bits are shifted into. -/
def ofBits (w : Nat) (bs : List Bool) : BitVec w := bs.foldl BitVec.shiftConcat 0#w

/-- The binary value of the bits, the highest first. -/
def value (bs : List Bool) : Nat := Nat.ofDigits 2 (bs.reverse.map Bool.toNat)

theorem shiftConcat_false (x : BitVec w) : x.shiftConcat false = x <<< 1 := by
  apply BitVec.eq_of_getLsbD_eq
  intro i hi
  rw [BitVec.getLsbD_shiftConcat, BitVec.getLsbD_shiftLeft]
  cases i with
  | zero => simp
  | succ i => simp

theorem shiftConcat_true (x : BitVec w) : x.shiftConcat true = x <<< 1 ||| 1#w := by
  apply BitVec.eq_of_getLsbD_eq
  intro i hi
  rw [BitVec.getLsbD_shiftConcat, BitVec.getLsbD_or, BitVec.getLsbD_shiftLeft,
    BitVec.getLsbD_one]
  cases i with
  | zero => simp [hi]
  | succ i => simp

/-! ## Strings -/

@[simp] theorem length_toBits (v : BitVec w) : (toBits v).length = w := by
  rw [toBits, List.length_map, List.length_range]

theorem getElem?_toBits {i : Nat} (hi : i < w) : (toBits v)[i]? = some (v.getMsbD i) := by
  rw [toBits, List.getElem?_map, List.getElem?_range hi, Option.map_some]

@[simp] theorem ofBits_nil : ofBits w [] = 0#w := rfl

theorem ofBits_concat (bs : List Bool) (b : Bool) :
    ofBits w (bs ++ [b]) = (ofBits w bs).shiftConcat b := by
  rw [ofBits, List.foldl_append]
  rfl

@[simp] theorem value_nil : value [] = 0 := rfl

theorem value_concat (bs : List Bool) (b : Bool) :
    value (bs ++ [b]) = b.toNat + 2 * value bs := by
  rw [value, List.reverse_append, List.reverse_singleton, List.singleton_append, List.map_cons,
    Nat.ofDigits_cons]
  rfl

theorem value_eq_zero_iff (bs : List Bool) : value bs = 0 ↔ ∀ b ∈ bs, b = false := by
  induction bs using List.reverseRecOn with
  | nil => simp
  | append_singleton bs b ih =>
      rw [value_concat, Nat.add_eq_zero_iff, Nat.mul_eq_zero, or_iff_right (by decide), ih]
      cases b <;> simp [or_imp, forall_and]

/-- The bit at a place is the one that was shifted in that long ago. -/
theorem getLsbD_ofBits (bs : List Bool) (i : Nat) :
    (ofBits w bs).getLsbD i = (decide (i < w) && bs.reverse.getD i false) := by
  induction bs using List.reverseRecOn generalizing i with
  | nil => simp
  | append_singleton bs b ih =>
      rw [ofBits_concat, BitVec.getLsbD_shiftConcat, List.reverse_append,
        List.reverse_singleton, List.singleton_append]
      cases i with
      | zero => simp
      | succ i =>
          rw [if_neg (Nat.succ_ne_zero i), Nat.add_sub_cancel, ih, List.getD_cons_succ]
          by_cases hi : i + 1 < w
          · rw [decide_eq_true hi, decide_eq_true (by omega : i < w), Bool.true_and,
              Bool.true_and]
          · rw [decide_eq_false hi, Bool.false_and, Bool.false_and]

theorem getMsbD_ofBits (hlen : bs.length = w) {i : Nat} (hi : i < w) :
    (ofBits w bs).getMsbD i = bs.getD i false := by
  have hback : w - 1 - i < w := by omega
  rw [BitVec.getMsbD_eq_getLsbD, getLsbD_ofBits, decide_eq_true hi, decide_eq_true hback,
    Bool.true_and, Bool.true_and, List.getD_eq_getElem?_getD, List.getD_eq_getElem?_getD,
    List.getElem?_reverse (by omega)]
  congr 2
  omega

theorem toBits_ofBits (hlen : bs.length = w) : toBits (ofBits w bs) = bs := by
  apply List.ext_getElem?
  intro i
  by_cases hi : i < w
  · rw [getElem?_toBits hi, getMsbD_ofBits hlen hi, List.getD_eq_getElem?_getD,
      List.getElem?_eq_getElem (by omega)]
    rfl
  · rw [List.getElem?_eq_none (by rw [length_toBits]; omega),
      List.getElem?_eq_none (by omega)]

theorem ofBits_toBits (v : BitVec w) : ofBits w (toBits v) = v := by
  apply BitVec.eq_of_getMsbD_eq
  intro i hi
  rw [getMsbD_ofBits (length_toBits v) hi, List.getD_eq_getElem?_getD, getElem?_toBits hi,
    Option.getD_some]

/-- Nothing is shifted out of a word by a string that is not longer. -/
theorem toNat_ofBits (hlen : bs.length ≤ w) :
    (ofBits w bs).toNat = value bs ∧ value bs < 2 ^ bs.length := by
  induction bs using List.reverseRecOn with
  | nil => simp
  | append_singleton bs b ih =>
      rw [List.length_append, List.length_singleton] at hlen ⊢
      obtain ⟨hval, hlt⟩ := ih (by omega)
      rw [← hval] at hlt
      have hnext := BitVec.toNat_shiftConcat_eq_of_lt (b := b) hlen hlt
      have hbound := BitVec.toNat_shiftConcat_lt_of_lt (b := b) hlen hlt
      have hvalue : (ofBits w (bs ++ [b])).toNat = value (bs ++ [b]) := by
        rw [ofBits_concat, hnext, value_concat, hval]
        omega
      rw [← hvalue, ofBits_concat]
      exact ⟨rfl, hbound⟩

theorem toBits_reverse (v : BitVec w) : toBits v.reverse = (toBits v).reverse := by
  apply List.ext_getElem?
  intro i
  by_cases hi : i < w
  · rw [getElem?_toBits hi, List.getElem?_reverse (by rwa [length_toBits]), length_toBits,
      getElem?_toBits (by omega), BitVec.getMsbD_reverse, BitVec.getLsbD_eq_getMsbD,
      decide_eq_true hi, Bool.true_and]
  · rw [List.getElem?_eq_none (by rw [length_toBits]; omega),
      List.getElem?_eq_none (by rw [List.length_reverse, length_toBits]; omega)]

/-! ## Rounds of a reversal -/

/-- Exchange the bits under the mask with those `k` places higher. -/
def swap (k : Nat) (m x : BitVec w) : BitVec w := x >>> k &&& m ||| (x &&& m) <<< k

/-- The bits of `y` are those of `x`, with the places `i` and `i ^^^ k` exchanged. -/
def Exchanged (k : Nat) (x y : BitVec w) : Prop :=
  ∀ i < w, y.getLsbD i = x.getLsbD (i ^^^ k)

/-- A bit that is clear can be set by an addition. -/
theorem xor_two_pow_of_clear {i j : Nat} (h : i.testBit j = false) : i ^^^ 2 ^ j = i + 2 ^ j := by
  induction j generalizing i with
  | zero =>
      rw [Nat.testBit_zero, decide_eq_false_iff_not] at h
      have hhalf : (i ^^^ 1) / 2 = i / 2 := by
        rw [Nat.xor_div_two]
        exact Nat.xor_zero _
      have hlow : (i ^^^ 1) % 2 = (i + 1) % 2 := Nat.xor_mod_two_eq
      rw [Nat.pow_zero]
      omega
  | succ j ih =>
      rw [Nat.testBit_add_one] at h
      have hpow : 2 ^ (j + 1) = 2 * 2 ^ j := by rw [Nat.pow_succ, Nat.mul_comm]
      have hhalf : (i ^^^ 2 ^ (j + 1)) / 2 = i / 2 + 2 ^ j := by
        rw [Nat.xor_div_two, hpow, Nat.mul_div_cancel_left _ (by decide), ih h]
      have hlow : (i ^^^ 2 ^ (j + 1)) % 2 = (i + 2 ^ (j + 1)) % 2 := Nat.xor_mod_two_eq
      omega

/-- A bit that is set can be cleared by a subtraction. -/
theorem xor_two_pow_of_set {i j : Nat} (h : i.testBit j = true) :
    ∃ i', i = i' + 2 ^ j ∧ i'.testBit j = false ∧ i ^^^ 2 ^ j = i' := by
  have hle : 2 ^ j ≤ i := Nat.ge_two_pow_of_testBit h
  have hsplit : i = 2 ^ j + (i - 2 ^ j) := by omega
  have hclear : (i - 2 ^ j).testBit j = false := by
    rw [hsplit, Nat.testBit_two_pow_add_eq] at h
    simpa using h
  have hback : i - 2 ^ j ^^^ 2 ^ j = i := by
    rw [xor_two_pow_of_clear hclear]
    omega
  refine ⟨i - 2 ^ j, by omega, hclear, ?_⟩
  calc
    i ^^^ 2 ^ j = (i - 2 ^ j ^^^ 2 ^ j) ^^^ 2 ^ j := by rw [hback]
    _ = i - 2 ^ j := by rw [Nat.xor_assoc, Nat.xor_self, Nat.xor_zero]

theorem exchanged_swap (j : Nat) {m : BitVec w} (hm : ∀ i < w, m.getLsbD i = !i.testBit j)
    (x : BitVec w) : Exchanged (2 ^ j) x (swap (2 ^ j) m x) := by
  intro i hi
  rw [swap, BitVec.getLsbD_or, BitVec.getLsbD_and, BitVec.getLsbD_ushiftRight,
    BitVec.getLsbD_shiftLeft, BitVec.getLsbD_and, hm i hi, decide_eq_true hi]
  cases hbit : i.testBit j with
  | false =>
      have hout : i < 2 ^ j ∨ m.getLsbD (i - 2 ^ j) = false := by
        by_cases hlt : i < 2 ^ j
        · exact Or.inl hlt
        · have hsplit : i = 2 ^ j + (i - 2 ^ j) := by omega
          rw [hsplit, Nat.testBit_two_pow_add_eq] at hbit
          have hin : i - 2 ^ j < w := Nat.lt_of_le_of_lt (Nat.sub_le _ _) hi
          exact Or.inr (by rw [hm _ hin, hbit])
      rw [xor_two_pow_of_clear hbit, Nat.add_comm]
      rcases hout with hlt | hlow
      · simp [hlt]
      · simp [hlow]
  | true =>
      obtain ⟨i', rfl, hclear, hxor⟩ := xor_two_pow_of_set hbit
      have hin : i' < w := Nat.lt_of_le_of_lt (Nat.le_add_right _ _) hi
      rw [hxor, Nat.add_sub_cancel, hm i' hin, hclear]
      simp

/-- The last round needs no mask: what it would hide is shifted out. -/
theorem exchanged_halves (j : Nat) (hw : w = 2 ^ (j + 1)) (x : BitVec w) :
    Exchanged (2 ^ j) x (x >>> 2 ^ j ||| x <<< 2 ^ j) := by
  intro i hi
  have hpow : 2 ^ (j + 1) = 2 ^ j + 2 ^ j := by rw [Nat.pow_succ, Nat.mul_two]
  rw [BitVec.getLsbD_or, BitVec.getLsbD_ushiftRight, BitVec.getLsbD_shiftLeft, decide_eq_true hi]
  cases hbit : i.testBit j with
  | false =>
      have hlt : i < 2 ^ j := by
        by_contra hle
        have hsplit : i = 2 ^ j + (i - 2 ^ j) := by omega
        rw [hsplit, Nat.testBit_two_pow_add_eq, Nat.testBit_lt_two_pow (by omega)] at hbit
        exact absurd hbit (by decide)
      rw [xor_two_pow_of_clear hbit, Nat.add_comm]
      simp [hlt]
  | true =>
      obtain ⟨i', rfl, -, hxor⟩ := xor_two_pow_of_set hbit
      rw [hxor, Nat.add_sub_cancel, BitVec.getLsbD_of_ge x (2 ^ j + (i' + 2 ^ j)) (by omega)]
      simp

theorem Exchanged.trans {n k l : Nat} {x y z : BitVec w} (hxy : Exchanged k x y)
    (hyz : Exchanged l y z) (hw : w = 2 ^ n) (hl : l < w) : Exchanged (l ^^^ k) x z := by
  intro i hi
  have hplace : i ^^^ l < w := by
    subst hw
    exact Nat.xor_lt_two_pow hi hl
  rw [hyz i hi, hxy _ hplace, Nat.xor_assoc]

/-- All bits of a place exchanged is its complement. -/
theorem Exchanged.eq_reverse {n : Nat} {x y : BitVec w} (h : Exchanged (2 ^ n - 1) x y)
    (hw : w = 2 ^ n) : y = x.reverse := by
  apply BitVec.eq_of_getLsbD_eq
  intro i hi
  have hplace : i ^^^ (2 ^ n - 1) = w - 1 - i := by
    subst hw
    apply Nat.eq_of_testBit_eq
    intro j
    rw [Nat.testBit_xor, Nat.testBit_two_pow_sub_one, Nat.sub_sub, Nat.add_comm 1 i,
      Nat.testBit_two_pow_sub_succ hi]
    by_cases hj : j < n
    · simp [hj]
    · have hhigh : i < 2 ^ j :=
        Nat.lt_of_lt_of_le hi (Nat.pow_le_pow_right (by decide) (by omega))
      simp [hj, Nat.testBit_lt_two_pow hhigh]
  rw [h i hi, hplace, BitVec.getLsbD_reverse, BitVec.getMsbD_eq_getLsbD, decide_eq_true hi,
    Bool.true_and]

end MyLibraries.BitString
