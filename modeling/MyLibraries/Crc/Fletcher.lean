import Mathlib.Algebra.Order.BigOperators.Group.List
import Mathlib.Data.Nat.ModEq
import MyLibraries.Core.PrefixSums

/-!
# Fletcher's checksum

`fletcher32` adds words of 16 bits into two sums of 32 bits, 360 words at a time, and only
then takes the sums back to little more than 16 bits. The additions are a parameter of the
loops: those of the code wrap around, and to say that none of them does the same loops are
run with additions that stop (`checkedAdd`).
-/

namespace MyLibraries.Crc

open PrefixSums

/-! ## The code -/

/-- `sum1` and `sum2`. -/
structure Sums where
  sum1 : UInt32
  sum2 : UInt32
  deriving DecidableEq, Repr

/-- The addition of the code. -/
def wrappingAdd (a b : UInt32) : Id UInt32 := pure (a + b)

/-- An addition that stops where that of the code would wrap around. -/
def checkedAdd (a b : UInt32) : Option UInt32 :=
  if a.toNat + b.toNat < 2 ^ 32 then some (a + b) else none

section

variable {m : Type → Type} [Monad m] (add : UInt32 → UInt32 → m UInt32)

/-- The body of the inner loop. -/
def addWord (s : Sums) (word : UInt16) : m Sums := do
  let sum1 ← add s.sum1 word.toUInt32
  let sum2 ← add s.sum2 sum1
  pure { sum1, sum2 }

/-- `(sum & 0xffff) + (sum >> 16)` for both sums. -/
def foldSums (s : Sums) : m Sums := do
  let sum1 ← add (s.sum1 &&& 0xffff) (s.sum1 >>> 16)
  let sum2 ← add (s.sum2 &&& 0xffff) (s.sum2 >>> 16)
  pure { sum1, sum2 }

/-- The outer loop: blocks of 360 words. -/
def sumBlocks (s : Sums) (data : List UInt16) : m Sums :=
  if data.length = 0 then pure s
  else do
    let s ← (data.take 360).foldlM (addWord add) s
    let s ← foldSums add s
    sumBlocks s (data.drop 360)
termination_by data.length
decreasing_by
  rw [List.length_drop]
  omega

def fletcher32With (data : List UInt16) : m UInt32 := do
  let s ← sumBlocks add { sum1 := 0xffff, sum2 := 0xffff } data
  let s ← foldSums add s
  pure (s.sum2 <<< 16 ||| s.sum1)

end

def fletcher32 (data : List UInt16) : UInt32 := (fletcher32With wrappingAdd data).run

/-- `data[i]` of the words at an address, least significant byte first. -/
def readWord (memory : List UInt8) (i : Nat) : Option UInt16 := do
  let low ← memory[2 * i]?
  let high ← memory[2 * i + 1]?
  some (low.toUInt16 ||| high.toUInt16 <<< 8)

/-- The `n` words from `data[i]` on. -/
def readWords (memory : List UInt8) (i : Nat) : Nat → Option (List UInt16)
  | 0 => some []
  | n + 1 => do
    let word ← readWord memory i
    let words ← readWords memory (i + 1) n
    some (word :: words)

/-- The number of bytes before the first zero. -/
def strlen (memory : List UInt8) : Nat := memory.idxOf 0

/-- `padded_len` in `fletcher32_string`. -/
def paddedLen (memory : List UInt8) : UInt32 :=
  let len := UInt32.ofNat (strlen memory)
  (len + 1) / 2

/-- `fletcher32_string` with the memory from `str` on that may be read. -/
def fletcher32String (memory : List UInt8) : Option UInt32 := do
  let data ← readWords memory 0 (paddedLen memory).toNat
  some (fletcher32 data)

/-! ## Runs without overflow -/

variable {α β : Type} {s t : Sums} {a b : UInt32}

/-- The checked run comes to its end, and the run of the code to the same value. -/
structure Yields (x : Option α) (y : Id α) (a : α) : Prop where
  checked : x = some a
  wrapping : y = pure a

theorem Yields.pure (a : α) : Yields (some a) (Pure.pure a) a := ⟨rfl, rfl⟩

theorem Yields.bind {x : Option α} {y : Id α} {a : α} {f : α → Option β} {g : α → Id β} {b : β}
    (h : Yields x y a) (hf : Yields (f a) (g a) b) : Yields (x >>= f) (y >>= g) b := by
  obtain ⟨rfl, rfl⟩ := h
  exact hf

theorem yields_add (h : a.toNat + b.toNat < 2 ^ 32) :
    Yields (checkedAdd a b) (wrappingAdd a b) (a + b) :=
  ⟨if_pos h, rfl⟩

theorem toNat_add (h : a.toNat + b.toNat < 2 ^ 32) : (a + b).toNat = a.toNat + b.toNat := by
  rw [UInt32.toNat_add]
  exact Nat.mod_eq_of_lt h

/-- The words as numbers. -/
def values (data : List UInt16) : List Nat := data.map UInt16.toNat

theorem values_le (data : List UInt16) : ∀ x ∈ values data, x ≤ 65535 := by
  intro x hx
  obtain ⟨word, _, rfl⟩ := List.mem_map.mp hx
  have hlt := word.toNat_lt
  omega

theorem length_values (data : List UInt16) : (values data).length = data.length :=
  List.length_map _

theorem yields_addWord {word : UInt16}
    (h : s.sum2.toNat + (s.sum1.toNat + word.toNat) < 2 ^ 32) :
    ∃ t : Sums, Yields (addWord checkedAdd s word) (addWord wrappingAdd s word) t ∧
      t.sum1.toNat = s.sum1.toNat + word.toNat ∧
      t.sum2.toNat = s.sum2.toNat + (s.sum1.toNat + word.toNat) := by
  have hword : word.toUInt32.toNat = word.toNat := UInt16.toNat_toUInt32 word
  have h1 : s.sum1.toNat + word.toUInt32.toNat < 2 ^ 32 := by omega
  have hsum1 : (s.sum1 + word.toUInt32).toNat = s.sum1.toNat + word.toNat := by
    rw [toNat_add h1, hword]
  have h2 : s.sum2.toNat + (s.sum1 + word.toUInt32).toNat < 2 ^ 32 := by omega
  refine ⟨⟨s.sum1 + word.toUInt32, s.sum2 + (s.sum1 + word.toUInt32)⟩, ?_, hsum1, ?_⟩
  · exact (yields_add h1).bind ((yields_add h2).bind (Yields.pure _))
  · rw [toNat_add h2, hsum1]

/-- The second sum of a block is the largest that comes up in it, so it bounds all of them. -/
theorem yields_addWords {data : List UInt16} (h1 : s.sum1.toNat + (values data).sum < 2 ^ 32)
    (h2 : s.sum2.toNat + data.length * s.sum1.toNat + prefixSums (values data) < 2 ^ 32) :
    ∃ t : Sums, Yields (data.foldlM (addWord checkedAdd) s)
        (data.foldlM (addWord wrappingAdd) s) t ∧
      t.sum1.toNat = s.sum1.toNat + (values data).sum ∧
      t.sum2.toNat = s.sum2.toNat + data.length * s.sum1.toNat + prefixSums (values data) := by
  induction data generalizing s with
  | nil => exact ⟨s, Yields.pure s, by simp [values], by simp [values]⟩
  | cons word data ih =>
    have hvalues : values (word :: data) = word.toNat :: values data := rfl
    rw [hvalues, List.sum_cons] at h1
    rw [hvalues, prefixSums_cons, length_values, List.length_cons] at h2
    rw [hvalues, List.sum_cons, prefixSums_cons, length_values, List.length_cons]
    have hexpand : s.sum2.toNat + (data.length + 1) * s.sum1.toNat +
        ((data.length + 1) * word.toNat + prefixSums (values data)) =
        (s.sum2.toNat + (s.sum1.toNat + word.toNat)) +
          data.length * (s.sum1.toNat + word.toNat) + prefixSums (values data) := by
      ring
    rw [hexpand] at h2 ⊢
    obtain ⟨t, hrun, ht1, ht2⟩ := @yields_addWord s word (by omega)
    rw [← ht2, ← ht1] at h2 ⊢
    obtain ⟨u, hrest, hu1, hu2⟩ := ih (s := t) (by omega) h2
    refine ⟨u, ?_, by omega, hu2⟩
    rw [List.foldlM_cons, List.foldlM_cons]
    exact hrun.bind hrest

/-! ## Taking the sums back -/

/-- The two halves of a sum, added. -/
def foldHalves (a : Nat) : Nat := a % 65536 + a / 65536

theorem foldHalves_modEq (a : Nat) : foldHalves a ≡ a [MOD 65535] := by
  rw [foldHalves, Nat.ModEq]
  omega

theorem toNat_low (a : UInt32) : (a &&& (0xffff : UInt32)).toNat = a.toNat % 65536 := by
  rw [UInt32.toNat_and]
  exact Nat.and_two_pow_sub_one_eq_mod a.toNat 16

theorem toNat_high (a : UInt32) : (a >>> 16).toNat = a.toNat / 65536 := by
  rw [UInt32.toNat_shiftRight]
  exact Nat.shiftRight_eq_div_pow a.toNat 16

theorem yields_foldSums (s : Sums) :
    ∃ t : Sums, Yields (foldSums checkedAdd s) (foldSums wrappingAdd s) t ∧
      t.sum1.toNat = foldHalves s.sum1.toNat ∧ t.sum2.toNat = foldHalves s.sum2.toNat := by
  have hfold : ∀ a : UInt32, (a &&& (0xffff : UInt32)).toNat + (a >>> 16).toNat < 2 ^ 32 := by
    intro a
    have hlt := a.toNat_lt
    rw [toNat_low, toNat_high]
    omega
  have hvalue : ∀ a : UInt32,
      ((a &&& (0xffff : UInt32)) + (a >>> 16)).toNat = foldHalves a.toNat := by
    intro a
    rw [toNat_add (hfold a), toNat_low, toNat_high, foldHalves]
  exact ⟨_, (yields_add (hfold _)).bind ((yields_add (hfold _)).bind (Yields.pure _)),
    hvalue _, hvalue _⟩

/-! ## The blocks -/

/-- What the sums are between two blocks. -/
structure Carried (s : Sums) : Prop where
  sum1_pos : 0 < s.sum1.toNat
  sum1_le : s.sum1.toNat ≤ 65896
  sum2_pos : 0 < s.sum2.toNat
  sum2_le : s.sum2.toNat ≤ 131070

theorem sum_values_le (data : List UInt16) : (values data).sum ≤ data.length * 65535 := by
  have h := List.sum_le_card_nsmul (values data) 65535 (values_le data)
  rwa [length_values, nsmul_eq_mul, Nat.cast_id] at h

/-- The bound behind the number 360. -/
theorem block_lt (h : Carried s) {data : List UInt16} (hlen : data.length ≤ 360) :
    s.sum2.toNat + data.length * s.sum1.toNat + prefixSums (values data) < 2 ^ 32 := by
  have hsum1 : data.length * s.sum1.toNat ≤ 360 * 65896 := Nat.mul_le_mul hlen h.sum1_le
  have htri : data.length * (data.length + 1) ≤ 360 * 361 :=
    Nat.mul_le_mul hlen (by omega)
  have hprefix := two_mul_prefixSums_le (values_le data)
  rw [length_values] at hprefix
  have hbound := Nat.mul_le_mul_right 65535 htri
  have hsum2 := h.sum2_le
  omega

theorem foldHalves_pos {a : Nat} (h : 0 < a) : 0 < foldHalves a := by
  rw [foldHalves]
  omega

/-- One block: what it adds up, taken back. -/
theorem yields_block (h : Carried s) {data : List UInt16} (hlen : data.length ≤ 360) :
    ∃ u t : Sums, Yields (data.foldlM (addWord checkedAdd) s)
        (data.foldlM (addWord wrappingAdd) s) u ∧
      Yields (foldSums checkedAdd u) (foldSums wrappingAdd u) t ∧ Carried t ∧
      t.sum1.toNat ≡ s.sum1.toNat + (values data).sum [MOD 65535] ∧
      t.sum2.toNat ≡ s.sum2.toNat + data.length * s.sum1.toNat + prefixSums (values data)
        [MOD 65535] := by
  have hsum := sum_values_le data
  have hlt := block_lt h hlen
  have h1 : s.sum1.toNat + (values data).sum ≤ 65896 + 360 * 65535 := by
    have hle := h.sum1_le
    omega
  obtain ⟨u, hwords, hu1, hu2⟩ := @yields_addWords s data (by omega) hlt
  obtain ⟨t, hfold, ht1, ht2⟩ := yields_foldSums u
  refine ⟨u, t, hwords, hfold, ?_, ?_, ?_⟩
  · have hpos1 := h.sum1_pos
    have hpos2 := h.sum2_pos
    refine ⟨?_, ?_, ?_, ?_⟩
    · rw [ht1]
      exact foldHalves_pos (by omega)
    · rw [ht1, foldHalves]
      omega
    · rw [ht2]
      exact foldHalves_pos (by omega)
    · rw [ht2, foldHalves]
      omega
  · rw [ht1, ← hu1]
    exact foldHalves_modEq _
  · rw [ht2, ← hu2]
    exact foldHalves_modEq _

/-- **The invariant over the blocks**: no addition overflows, and modulo 65535 the sums are
those of all words. -/
theorem yields_sumBlocks (h : Carried s) (data : List UInt16) :
    ∃ t : Sums, Yields (sumBlocks checkedAdd s data) (sumBlocks wrappingAdd s data) t ∧
      Carried t ∧ t.sum1.toNat ≡ s.sum1.toNat + (values data).sum [MOD 65535] ∧
      t.sum2.toNat ≡ s.sum2.toNat + data.length * s.sum1.toNat + prefixSums (values data)
        [MOD 65535] := by
  induction hn : data.length using Nat.strongRecOn generalizing data s with
  | ind n ih =>
    subst hn
    rw [sumBlocks, sumBlocks]
    by_cases hzero : data.length = 0
    · obtain rfl := List.length_eq_zero_iff.mp hzero
      exact ⟨s, Yields.pure s, h, by simp [values, Nat.ModEq], by simp [values, Nat.ModEq]⟩
    · rw [if_neg hzero, if_neg hzero]
      have htake : (data.take 360).length ≤ 360 := List.length_take_le 360 data
      obtain ⟨_, u, hwords, hfold, hu, hu1, hu2⟩ := yields_block h htake
      obtain ⟨t, hrest, ht, ht1, ht2⟩ := ih (data.drop 360).length
        (by rw [List.length_drop]; omega) hu (data.drop 360) rfl
      have hvalues : values data = values (data.take 360) ++ values (data.drop 360) := by
        rw [values, values, values, ← List.map_append, List.take_append_drop]
      have hlength : data.length = (data.take 360).length + (data.drop 360).length := by
        rw [← List.length_append, List.take_append_drop]
      refine ⟨t, hwords.bind (hfold.bind hrest), ht, ?_, ?_⟩
      · rw [hvalues, List.sum_append, ← Nat.add_assoc]
        exact ht1.trans (hu1.add_right _)
      · have hmid := (hu2.add (hu1.mul_left (data.drop 360).length)).add_right
          (prefixSums (values (data.drop 360)))
        have hsum : s.sum2.toNat + data.length * s.sum1.toNat + prefixSums (values data) =
            s.sum2.toNat + (data.take 360).length * s.sum1.toNat +
              prefixSums (values (data.take 360)) +
              (data.drop 360).length * (s.sum1.toNat + (values (data.take 360)).sum) +
              prefixSums (values (data.drop 360)) := by
          rw [hvalues, prefixSums_append, length_values, hlength]
          ring
        rw [hsum]
        exact ht2.trans hmid

/-! ## The checksum -/

/-- The lower 16 bits. -/
def lowHalf (r : UInt32) : Nat := r.toNat % 65536

/-- The upper 16 bits. -/
def highHalf (r : UInt32) : Nat := r.toNat / 65536

theorem toNat_join (ha : a.toNat ≤ 65535) (hb : b.toNat ≤ 65535) :
    (b <<< 16 ||| a).toNat = b.toNat * 65536 + a.toNat := by
  have hshift : (b <<< 16).toNat = b.toNat <<< 16 := by
    rw [UInt32.toNat_shiftLeft]
    show b.toNat <<< 16 % 2 ^ 32 = b.toNat <<< 16
    rw [Nat.shiftLeft_eq]
    omega
  rw [UInt32.toNat_or, hshift, ← Nat.shiftLeft_add_eq_or_of_lt (by omega), Nat.shiftLeft_eq]

/-- What the checksum of words is. -/
structure Fletcher (data : List UInt16) (r : UInt32) : Prop where
  low_pos : 0 < lowHalf r
  low_le : lowHalf r ≤ 65535
  high_pos : 0 < highHalf r
  high_le : highHalf r ≤ 65535
  low_modEq : lowHalf r ≡ (values data).sum [MOD 65535]
  high_modEq : highHalf r ≡ prefixSums (values data) [MOD 65535]

theorem yields_fletcher32 (data : List UInt16) :
    ∃ r, Yields (fletcher32With checkedAdd data) (fletcher32With wrappingAdd data) r ∧
      Fletcher data r := by
  have hstart : Carried { sum1 := 0xffff, sum2 := 0xffff } :=
    ⟨by decide, by decide, by decide, by decide⟩
  obtain ⟨s, hblocks, hs, hs1, hs2⟩ := yields_sumBlocks hstart data
  obtain ⟨t, hfold, ht1, ht2⟩ := yields_foldSums s
  have h1 : t.sum1.toNat ≤ 65535 := by
    have hle := hs.sum1_le
    rw [ht1, foldHalves]
    omega
  have h2 : t.sum2.toNat ≤ 65535 := by
    have hle := hs.sum2_le
    rw [ht2, foldHalves]
    omega
  have hjoin := toNat_join h1 h2
  have hlow : lowHalf (t.sum2 <<< 16 ||| t.sum1) = t.sum1.toNat := by
    rw [lowHalf, hjoin]
    omega
  have hhigh : highHalf (t.sum2 <<< 16 ||| t.sum1) = t.sum2.toNat := by
    rw [highHalf, hjoin]
    omega
  refine ⟨_, hblocks.bind (hfold.bind (Yields.pure _)), ?_⟩
  refine ⟨?_, hlow ▸ h1, ?_, hhigh ▸ h2, ?_, ?_⟩
  · rw [hlow, ht1]
    exact foldHalves_pos hs.sum1_pos
  · rw [hhigh, ht2]
    exact foldHalves_pos hs.sum2_pos
  · rw [hlow, ht1]
    refine ((foldHalves_modEq _).trans hs1).trans ?_
    show 65535 + _ ≡ _ [MOD 65535]
    exact Nat.add_modEq_left
  · rw [hhigh, ht2]
    refine ((foldHalves_modEq _).trans hs2).trans ?_
    show 65535 + data.length * 65535 + _ ≡ _ [MOD 65535]
    rw [Nat.add_comm 65535, ← Nat.succ_mul]
    exact Nat.add_modEq_right_iff.mpr (Nat.dvd_mul_left 65535 _)

theorem fletcher32_spec (data : List UInt16) :
    fletcher32With checkedAdd data = some (fletcher32 data) ∧ Fletcher data (fletcher32 data) := by
  obtain ⟨r, ⟨hchecked, hwrapping⟩, hr⟩ := yields_fletcher32 data
  have hcode : fletcher32 data = r := by
    rw [fletcher32, hwrapping]
    rfl
  rw [hcode]
  exact ⟨hchecked, hr⟩

/-! ## Strings -/

/-- A string of C, without its terminating zero. -/
structure CString where
  bytes : List UInt8
  nonzero : 0 ∉ bytes

/-- What may be read of a string: its bytes and the zero. -/
def CString.memory (str : CString) : List UInt8 := str.bytes ++ [0]

theorem strlen_memory (str : CString) : strlen str.memory = str.bytes.length := by
  rw [strlen, CString.memory, List.idxOf_append_of_notMem str.nonzero, List.idxOf_cons_self,
    Nat.add_zero]

/-- Bytes as words, least significant byte first, with a zero after an odd number of them. -/
def lePairs : List UInt8 → List UInt16
  | [] => []
  | [a] => [a.toUInt16]
  | a :: b :: bytes => (a.toUInt16 ||| b.toUInt16 <<< 8) :: lePairs bytes

theorem lePairs_append_zero {bytes : List UInt8} (hodd : bytes.length % 2 = 1) :
    lePairs (bytes ++ [0]) = lePairs bytes := by
  induction bytes using lePairs.induct with
  | case1 => cases hodd
  | case2 a =>
    show [a.toUInt16 ||| (0 : UInt8).toUInt16 <<< 8] = [a.toUInt16]
    congr 1
    exact UInt16.or_zero
  | case3 a b bytes ih =>
    rw [List.length_cons, List.length_cons] at hodd
    show _ :: lePairs (bytes ++ [0]) = _ :: lePairs bytes
    rw [ih (by omega)]

/-- Words that lie in the memory are read as its pairs. -/
theorem readWords_eq {memory : List UInt8} {i n : Nat} (h : 2 * (i + n) ≤ memory.length) :
    readWords memory i n = some (lePairs ((memory.drop (2 * i)).take (2 * n))) := by
  induction n generalizing i with
  | zero => rfl
  | succ n ih =>
    have hdrop : memory.drop (2 * i) = memory[2 * i] :: memory[2 * i + 1] ::
        memory.drop (2 * (i + 1)) := by
      rw [List.drop_eq_getElem_cons (show 2 * i < memory.length by omega),
        List.drop_eq_getElem_cons (show 2 * i + 1 < memory.length by omega)]
      rfl
    have hword : readWord memory i =
        some (memory[2 * i].toUInt16 ||| memory[2 * i + 1].toUInt16 <<< 8) := by
      rw [readWord, List.getElem?_eq_getElem (by omega), List.getElem?_eq_getElem (by omega)]
      rfl
    rw [readWords, hword, ih (by omega), hdrop]
    rfl

theorem toNat_paddedLen (str : CString) :
    (paddedLen str.memory).toNat = (str.bytes.length + 1) % 2 ^ 32 / 2 := by
  rw [paddedLen, strlen_memory, UInt32.toNat_div, UInt32.toNat_add, UInt32.toNat_ofNat']
  show (str.bytes.length % 2 ^ 32 + 1) % 2 ^ 32 / 2 = _
  rw [Nat.mod_add_mod]

/-- All words read lie before the end of the string. -/
theorem fletcher32String_eq (str : CString) :
    fletcher32String str.memory =
      some (fletcher32 (lePairs (str.memory.take (2 * (paddedLen str.memory).toNat)))) := by
  have hin : 2 * (0 + (paddedLen str.memory).toNat) ≤ str.memory.length := by
    have hmod := Nat.mod_le (str.bytes.length + 1) (2 ^ 32)
    rw [toNat_paddedLen, CString.memory, List.length_append, List.length_singleton]
    omega
  rw [fletcher32String, readWords_eq hin]
  rfl

theorem fletcher32String_of_le (str : CString) (h : str.bytes.length ≤ 2 ^ 32 - 2) :
    fletcher32String str.memory = some (fletcher32 (lePairs str.bytes)) := by
  rw [fletcher32String_eq, toNat_paddedLen, Nat.mod_eq_of_lt (by omega)]
  rcases Nat.mod_two_eq_zero_or_one str.bytes.length with heven | hodd
  · rw [show 2 * ((str.bytes.length + 1) / 2) = str.bytes.length by omega, CString.memory,
      List.take_left]
  · have hall : 2 * ((str.bytes.length + 1) / 2) = str.memory.length := by
      rw [CString.memory, List.length_append, List.length_singleton]
      omega
    rw [hall, List.take_length, CString.memory, lePairs_append_zero hodd]

/-- **Fletcher-32 in blocks is exact**, and so is that of a string of up to 2 ^ 32 - 2 bytes;
of no string more than its zero is read. -/
theorem fletcher32_exact :
    (∀ data : List UInt16, fletcher32With checkedAdd data = some (fletcher32 data) ∧
      Fletcher data (fletcher32 data)) ∧
    ∀ str : CString, (fletcher32String str.memory).isSome = true ∧
      (str.bytes.length ≤ 2 ^ 32 - 2 →
        fletcher32String str.memory = some (fletcher32 (lePairs str.bytes))) := by
  refine ⟨fletcher32_spec, fun str => ⟨?_, fletcher32String_of_le str⟩⟩
  rw [fletcher32String_eq]
  rfl

/-- The string `"abc"`. -/
theorem fletcher32_exact_abc :
    fletcher32String [0x61, 0x62, 0x63, 0] = some (fletcher32 [0x6261, 0x63]) :=
  (fletcher32_exact.2 ⟨[0x61, 0x62, 0x63], by decide⟩).2 (by decide)

theorem values_lePairs_replicate (c : UInt8) (n : Nat) :
    (values (lePairs (List.replicate (2 * n + 1) c))).sum =
      n * (c.toUInt16 ||| c.toUInt16 <<< 8).toNat + c.toUInt16.toNat := by
  induction n with
  | zero => simp [lePairs, values]
  | succ n ih =>
    have hpairs : lePairs (List.replicate (2 * (n + 1) + 1) c) =
        (c.toUInt16 ||| c.toUInt16 <<< 8) :: lePairs (List.replicate (2 * n + 1) c) := rfl
    have hvalues : ∀ word words, values (word :: words) = word.toNat :: values words :=
      fun _ _ => rfl
    rw [hpairs, hvalues, List.sum_cons, ih, Nat.succ_mul]
    omega

/-- A string of `2 * n + 1` bytes `c`. -/
def repeated (c : UInt8) (hc : 0 ≠ c) (n : Nat) : CString :=
  ⟨List.replicate (2 * n + 1) c, fun h => hc (List.eq_of_mem_replicate h)⟩

/-- Where the number of bytes and one more is 0 in 32 bits nothing of the string is added. -/
theorem fletcher32String_ne_of_wrap {c : UInt8} (hc : 0 ≠ c) {n : Nat}
    (hwrap : (2 * n + 1 + 1) % 2 ^ 32 = 0)
    (hsum : ¬ n * (c.toUInt16 ||| c.toUInt16 <<< 8).toNat + c.toUInt16.toNat ≡ 0 [MOD 65535]) :
    fletcher32String (repeated c hc n).memory ≠
      some (fletcher32 (lePairs (repeated c hc n).bytes)) := by
  have hlen : (repeated c hc n).bytes.length = 2 * n + 1 := List.length_replicate
  rw [fletcher32String_eq, toNat_paddedLen, hlen, hwrap]
  intro heq
  have hsame : fletcher32 [] = fletcher32 (lePairs (repeated c hc n).bytes) :=
    Option.some.inj heq
  have hempty := (fletcher32_spec []).2.low_modEq
  have hall := (fletcher32_spec (lePairs (repeated c hc n).bytes)).2.low_modEq
  rw [← hsame, repeated, values_lePairs_replicate] at hall
  exact hsum (hall.symm.trans hempty)

/-- A string of 2 ^ 32 - 1 letters. -/
theorem fletcher32String_long :
    ∃ str : CString,
      fletcher32String str.memory ≠ some (fletcher32 (lePairs str.bytes)) :=
  ⟨repeated 0x61 (by decide) 2147483647,
    fletcher32String_ne_of_wrap (by decide) (by decide) (by decide)⟩

end MyLibraries.Crc
