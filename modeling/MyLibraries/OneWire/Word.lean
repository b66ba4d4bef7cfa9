import Mathlib.Algebra.Group.Nat.Defs
import Mathlib.Data.Nat.Bitwise
import MyLibraries.Core.Trie
import MyLibraries.OneWire.Model

/-!
# The words of the ROM search

The bits of a row of `serial_number_`, and the decisions that the words `path` and `next`
hold, one bit for every collision.
-/

namespace MyLibraries.OneWire

open BitTrie

/-- Bit `j` of a ROM code. -/
def Rom.bit (r : Rom) (j : Nat) : Bool := (r[j / 8]?.getD 0).toNat.testBit (j % 8)

/-- The word holds the decisions, from the low bit on. -/
def Encodes {w : Nat} (x : BitVec w) (ds : List Bool) : Prop :=
  ∀ k, k < w → x.getLsbD k = ds.getD k false

/-! ## Rows -/

/-- A code is its 64 bits. -/
theorem Rom.ext_bit {r r' : Rom} (h : ∀ j, j < 64 → r.bit j = r'.bit j) : r = r' := by
  apply Vector.ext
  intro b hb
  apply UInt8.toNat_inj.mp
  apply Nat.eq_of_testBit_eq
  intro c
  by_cases hc : c < 8
  · have hbit := h (8 * b + c) (by omega)
    have hdiv : (8 * b + c) / 8 = b := by omega
    have hmod : (8 * b + c) % 8 = c := by omega
    simpa only [Rom.bit, hdiv, hmod, Vector.getElem?_eq_getElem hb, Option.getD_some] using hbit
  · have hsmall : ∀ x : UInt8, x.toNat.testBit c = false := by
      intro x
      apply Nat.testBit_lt_two_pow
      exact x.toNat_lt.trans_le (Nat.pow_le_pow_right (by decide) (by omega))
    rw [hsmall, hsmall]

theorem Rom.bit_set (r : Rom) (b : Fin 8) (x : UInt8) (j : Nat) :
    Rom.bit (r.set b x b.isLt) j = if j / 8 = b then x.toNat.testBit (j % 8) else r.bit j := by
  unfold Rom.bit
  rw [Vector.getElem?_set]
  by_cases h : j / 8 = b
  · rw [if_pos h, if_pos h.symm, Option.getD_some]
  · rw [if_neg h, if_neg (Ne.symm h)]

theorem toNat_mask : ∀ c : Fin 8, ((1 : UInt8) <<< UInt8.ofNat c).toNat = 2 ^ c.val := by
  decide

/-- Setting one bit of one byte. -/
theorem Rom.bit_set_or (r : Rom) (b c : Fin 8) (j : Nat) :
    Rom.bit (r.set b (getElem r b b.isLt ||| (1 <<< UInt8.ofNat c)) b.isLt) j =
      (r.bit j || decide (j = 8 * b + c)) := by
  rw [Rom.bit_set]
  by_cases h : j / 8 = b
  · have hiff : c.val = j % 8 ↔ j = 8 * b + c := by omega
    have hbyte : r.bit j = (r[b]).toNat.testBit (j % 8) := by
      unfold Rom.bit
      rw [h]
      simp
    rw [if_pos h, UInt8.toNat_or, toNat_mask, Nat.testBit_or, Nat.testBit_two_pow, hbyte,
      decide_eq_decide.mpr hiff]
  · have hne : j ≠ 8 * b + c := by omega
    rw [if_neg h, decide_eq_false hne, Bool.or_false]

/-! ## Decisions -/

variable {w k : Nat} {path : BitVec w} {ds tk : List Bool}

theorem encodes_zero : Encodes (0 : BitVec w) [] := by
  intro k _
  simp

theorem encodes_nil (h : Encodes path []) : path = 0 := by
  apply BitVec.eq_of_getLsbD_eq
  intro k hk
  rw [h k hk]
  simp

theorem encodes_ne_zero (h : Encodes path ds) (hmem : true ∈ ds) (hlen : ds.length ≤ w) :
    path ≠ 0 := by
  obtain ⟨k, hk, htrue⟩ := List.getElem_of_mem hmem
  rintro rfl
  have hbit := h k (by omega)
  rw [List.getD_eq_getElem?_getD, List.getElem?_eq_getElem hk, htrue] at hbit
  simp at hbit

theorem shift_succ (k : Nat) : (1#w <<< k) <<< 1 = 1#w <<< (k + 1) :=
  (BitVec.shiftLeft_add _ _ _).symm

theorem getLsbD_pointer (k j : Nat) :
    (1#w <<< k).getLsbD j = (decide (j < w) && decide (j = k)) := by
  rw [BitVec.getLsbD_shiftLeft, BitVec.getLsbD_one]
  by_cases hj : j < w
  · by_cases hjk : j = k
    · subst hjk
      simp [hj]
      omega
    · by_cases hlt : j < k
      · simp [hjk, hlt]
      · have : ¬ j - k = 0 := by omega
        simp [hjk, this]
  · simp [hj]

/-- The path bit at the pointer. -/
theorem pointer_and (path : BitVec w) (hk : k < w) :
    (1#w <<< k) &&& path ≠ 0 ↔ path.getLsbD k = true := by
  constructor
  · intro hne
    by_contra hbit
    apply hne
    apply BitVec.eq_of_getLsbD_eq
    intro j hj
    rw [BitVec.getLsbD_and, getLsbD_pointer]
    by_cases hjk : j = k
    · subst hjk
      simp [hbit]
    · simp [hjk]
  · intro hbit hzero
    have hk' := congrArg (fun x => x.getLsbD k) hzero
    rw [BitVec.getLsbD_and, getLsbD_pointer, hbit] at hk'
    simp [hk] at hk'

theorem getLsbD_pointer_sub_one (hk : k < w) (j : Nat) :
    ((1#w <<< k) - 1#w).getLsbD j = decide (j < k) := by
  have hone : (1 : Nat) < 2 ^ w := Nat.one_lt_two_pow (by omega)
  have hlt : 2 ^ k < 2 ^ w := Nat.pow_lt_pow_right (by decide) hk
  have hpos : 0 < 2 ^ k := Nat.two_pow_pos k
  have hnat : ((1#w <<< k) - 1#w).toNat = 2 ^ k - 1 := by
    rw [BitVec.toNat_sub, BitVec.toNat_shiftLeft, BitVec.toNat_ofNat, Nat.mod_eq_of_lt hone,
      Nat.shiftLeft_eq, Nat.one_mul, Nat.mod_eq_of_lt hlt]
    rw [show 2 ^ w - 1 + 2 ^ k = 2 ^ k - 1 + 2 ^ w by omega, Nat.add_mod_right,
      Nat.mod_eq_of_lt (by omega)]
  rw [BitVec.getLsbD, hnat, Nat.testBit_two_pow_sub_one]

/-- The new branch: the decisions so far, and `true` at the pointer. -/
theorem encodes_branch (hk : k < w) (hlen : tk.length = k)
    (htk : ∀ j, j < k → path.getLsbD j = tk.getD j false) :
    Encodes ((path &&& ((1#w <<< k) - 1#w)) ||| (1#w <<< k)) (tk ++ [true]) := by
  intro j hj
  rw [BitVec.getLsbD_or, BitVec.getLsbD_and, getLsbD_pointer_sub_one hk, getLsbD_pointer]
  rw [List.getD_eq_getElem?_getD]
  rcases Nat.lt_trichotomy j k with h | h | h
  · have hbit := htk j h
    rw [List.getD_eq_getElem?_getD] at hbit
    rw [List.getElem?_append_left (by omega), ← hbit]
    have hne : j ≠ k := by omega
    simp [h, hne]
  · subst h
    rw [List.getElem?_append_right (by omega), hlen]
    simp [hj]
  · rw [List.getElem?_eq_none (by rw [List.length_append, List.length_singleton]; omega)]
    have hne : j ≠ k := by omega
    have hnlt : ¬ j < k := by omega
    simp [hne, hnlt]

end MyLibraries.OneWire
