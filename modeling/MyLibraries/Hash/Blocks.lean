import MyLibraries.Hash.Model

/-!
# Blocks of signed characters

`getBlock32` puts four characters together with `|`, each widened with its sign, so a
character of `0x80` or more sets every bit above it and hides the characters of its block
that follow. A difference inside a block reaches the hash exactly when one of the differing
characters has no such character before it in the block (`Reaches`). The characters left
over after the last block are put together with `^`, and hide nothing.
-/

namespace MyLibraries.Hash

open Mixing

variable {a b : CstrView} {k : Nat}

/-- The character at an index of the array. -/
def CstrView.charAt (key : CstrView) (i : Nat) : UInt8 := key.str.getD i 0

/-- Widening makes the upper bits of a word ones. -/
def High (c : UInt8) : Prop := 0x80 ≤ c.toNat

instance (c : UInt8) : Decidable (High c) := inferInstanceAs (Decidable (_ ≤ _))

/-- A difference in a block that no earlier character of the block hides. -/
def Reaches (a b : CstrView) (block : Nat) : Prop :=
  ∃ j, j < 4 ∧ a.charAt (4 * block + j) ≠ b.charAt (4 * block + j) ∧
    ∀ i, i < j → ¬ High (a.charAt (4 * block + i))

/-! ## The bits of a block -/

theorem high_iff (c : UInt8) : High c ↔ c.toBitVec.getLsbD 7 = true := by
  have hmsb : c.toBitVec.getLsbD 7 = c.toBitVec.msb := rfl
  rw [hmsb, BitVec.msb_eq_decide, decide_eq_true_iff]
  rfl

theorem charToU32_getLsbD (c : UInt8) {i : Nat} (hi : i < 32) :
    (charToU32 c).getLsbD i =
      if i < 8 then c.toBitVec.getLsbD i else c.toBitVec.getLsbD 7 := by
  rw [charToU32, BitVec.getLsbD_signExtend]
  simp only [hi, decide_true, Bool.true_and]
  rfl

/-- The same with the character moved up by whole characters. -/
theorem charToU32_shift_getLsbD (c : UInt8) {m j i : Nat} (hj : j < 4) (hi : i < 8) :
    (charToU32 c <<< (8 * m)).getLsbD (8 * j + i) =
      if j < m then false else if j = m then c.toBitVec.getLsbD i else c.toBitVec.getLsbD 7 := by
  rw [BitVec.getLsbD_shiftLeft]
  by_cases hlow : j < m
  · rw [if_pos hlow, decide_eq_true (show 8 * j + i < 8 * m by omega)]
    simp
  · rw [if_neg hlow, decide_eq_true (show 8 * j + i < 32 by omega),
      decide_eq_false (show ¬ 8 * j + i < 8 * m by omega),
      charToU32_getLsbD c (show 8 * j + i - 8 * m < 32 by omega), Bool.not_false, Bool.true_and,
      Bool.true_and]
    by_cases heq : j = m
    · rw [if_pos heq, if_pos (by omega), show 8 * j + i - 8 * m = i by omega]
    · rw [if_neg heq, if_neg (by omega)]

/-- A bit of a block is that of the character there, unless an earlier character set it. -/
theorem getBlock32_getLsbD (key : CstrView) (block : Nat) {j i : Nat} (hj : j < 4) (hi : i < 8) :
    (key.getBlock32 block).getLsbD (8 * j + i) = true ↔
      (key.charAt (4 * block + j)).toBitVec.getLsbD i = true ∨
        ∃ m, m < j ∧ High (key.charAt (4 * block + m)) := by
  have hchar : ∀ m, key.str.getD (block * 4 + m) 0 = key.charAt (4 * block + m) := by
    intro m
    rw [Nat.mul_comm]
    rfl
  have hshift := fun c m => charToU32_shift_getLsbD c (m := m) hj hi
  have hget : key.getBlock32 block =
      (charToU32 (key.charAt (4 * block + 3)) <<< (8 * 3)) |||
        (charToU32 (key.charAt (4 * block + 2)) <<< (8 * 2)) |||
        (charToU32 (key.charAt (4 * block + 1)) <<< (8 * 1)) |||
        (charToU32 (key.charAt (4 * block + 0)) <<< (8 * 0)) := by
    rw [← hchar, ← hchar, ← hchar, ← hchar, Nat.mul_zero, BitVec.shiftLeft_zero]
    rfl
  rw [hget, BitVec.getLsbD_or, BitVec.getLsbD_or, BitVec.getLsbD_or, hshift, hshift, hshift, hshift]
  -- the characters in front of this one, one by one
  rcases j with _ | _ | _ | _ | j
  · simp
  · simp only [Nat.exists_lt_succ_right, Nat.not_lt_zero, false_and, exists_false, high_iff]
    simp
  · simp only [Nat.exists_lt_succ_right, Nat.not_lt_zero, false_and, exists_false, high_iff]
    simp [or_left_comm, or_comm]
  · simp only [Nat.exists_lt_succ_right, Nat.not_lt_zero, false_and, exists_false, high_iff]
    simp [or_assoc, or_left_comm, or_comm]
  · omega

theorem eq_of_bits {c d : UInt8}
    (h : ∀ i, i < 8 → (c.toBitVec.getLsbD i = true ↔ d.toBitVec.getLsbD i = true)) : c = d := by
  apply UInt8.toBitVec_inj.mp
  apply BitVec.eq_of_getLsbD_eq
  intro i hi
  exact Bool.eq_iff_iff.mpr (h i hi)

/-- Up to the first high character equal blocks hold equal characters. -/
theorem charAt_eq_of_getBlock32 (hblock : a.getBlock32 k = b.getBlock32 k) {j : Nat} (hj : j < 4)
    (hlow : ∀ m, m < j → ¬ High (a.charAt (4 * k + m))) :
    a.charAt (4 * k + j) = b.charAt (4 * k + j) := by
  induction j using Nat.strongRecOn with
  | ind j ih =>
    have hsame : ∀ m, m < j → a.charAt (4 * k + m) = b.charAt (4 * k + m) :=
      fun m hm => ih m hm (by omega) fun n hn => hlow n (by omega)
    have hnone : ¬ ∃ m, m < j ∧ High (a.charAt (4 * k + m)) := fun ⟨m, hm, hhigh⟩ => hlow m hm hhigh
    have hnone' : ¬ ∃ m, m < j ∧ High (b.charAt (4 * k + m)) :=
      fun ⟨m, hm, hhigh⟩ => hlow m hm (hsame m hm ▸ hhigh)
    apply eq_of_bits
    intro i hi
    have ha := getBlock32_getLsbD a k hj hi
    rw [hblock, getBlock32_getLsbD b k hj hi] at ha
    simpa only [hnone, hnone', or_false] using ha.symm

/-- **What a block tells apart.** -/
theorem getBlock32_eq_iff : a.getBlock32 k = b.getBlock32 k ↔ ¬ Reaches a b k := by
  constructor
  · rintro hblock ⟨j, hj, hdiff, hlow⟩
    exact hdiff (charAt_eq_of_getBlock32 hblock hj hlow)
  · intro hhidden
    have hsame : ∀ j, j < 4 → (∀ m, m < j → ¬ High (a.charAt (4 * k + m))) →
        a.charAt (4 * k + j) = b.charAt (4 * k + j) := by
      intro j hj hlow
      by_contra hdiff
      exact hhidden ⟨j, hj, hdiff, hlow⟩
    apply BitVec.eq_of_getLsbD_eq
    intro p hp
    obtain ⟨j, i, hj, hi, rfl⟩ : ∃ j i, j < 4 ∧ i < 8 ∧ p = 8 * j + i :=
      ⟨p / 8, p % 8, by omega, by omega, by omega⟩
    rw [Bool.eq_iff_iff, getBlock32_getLsbD a k hj hi, getBlock32_getLsbD b k hj hi]
    by_cases hlow : ∀ m, m < j → ¬ High (a.charAt (4 * k + m))
    · have hchars : ∀ m, m < j → a.charAt (4 * k + m) = b.charAt (4 * k + m) :=
        fun m hm => hsame m (by omega) fun n hn => hlow n (by omega)
      rw [hsame j hj hlow]
      refine or_congr Iff.rfl (exists_congr fun m => and_congr_right fun hm => ?_)
      rw [hchars m hm]
    · -- the first high character of one key stands in the other key too
      have hex : ∃ m, m < j ∧ High (a.charAt (4 * k + m)) := by
        by_contra hnone
        exact hlow fun m hm hhigh => hnone ⟨m, hm, hhigh⟩
      have hfirst := Nat.find_spec hex
      have hchar := hsame (Nat.find hex) (by omega) fun m hm hhigh =>
        Nat.find_min hex hm ⟨by omega, hhigh⟩
      have hex' : ∃ m, m < j ∧ High (b.charAt (4 * k + m)) :=
        ⟨Nat.find hex, hfirst.1, hchar ▸ hfirst.2⟩
      exact ⟨fun _ => Or.inr hex', fun _ => Or.inr hex⟩

/-! ## The characters after the last block -/

/-- A character that was added to words with equal bits where it starts can be taken off. -/
theorem xor_shift_cancel {x y : BitVec 32} {c d : UInt8} {n m : Nat} (hn : n = 8 * m)
    (hm : m < 4) (hbits : ∀ i, i < 8 → x.getLsbD (n + i) = y.getLsbD (n + i))
    (h : x ^^^ (charToU32 c <<< n) = y ^^^ (charToU32 d <<< n)) : c = d ∧ x = y := by
  subst hn
  have hchar : c = d := by
    apply eq_of_bits
    intro i hi
    have hbit := congrArg (fun z : BitVec 32 => z.getLsbD (8 * m + i)) h
    simp only [BitVec.getLsbD_xor, charToU32_shift_getLsbD _ hm hi, hbits i hi, lt_irrefl,
      if_true, if_false] at hbit
    exact Bool.eq_iff_iff.mp (Bool.xor_right_inj.mp hbit)
  subst hchar
  exact ⟨rfl, xor_left_injective _ h⟩

/-- The same for a character that was not moved. -/
theorem xor_charToU32_cancel {x y : BitVec 32} {c d : UInt8}
    (hbits : ∀ i, i < 8 → x.getLsbD i = y.getLsbD i)
    (h : x ^^^ charToU32 c = y ^^^ charToU32 d) : c = d ∧ x = y := by
  apply xor_shift_cancel (n := 0) (m := 0) rfl (by decide)
  · simpa only [Nat.zero_add] using hbits
  · simpa only [BitVec.shiftLeft_zero] using h

/-- Below the place where a word was added its bits are as before. -/
theorem xor_shift_low {x z : BitVec 32} {n i : Nat} (hi : i < n) :
    (x ^^^ (z <<< n)).getLsbD i = x.getLsbD i := by
  rw [BitVec.getLsbD_xor, BitVec.getLsbD_shiftLeft, decide_eq_true hi, Bool.not_true,
    Bool.and_false, Bool.false_and, Bool.xor_false]

variable {h : BitVec 32} {c₀ c₁ c₂ d₀ d₁ d₂ : UInt8}

/-- Two characters added above one another. -/
theorem xor_two_cancel
    (heq : h ^^^ (charToU32 c₁ <<< 8) ^^^ charToU32 c₀ =
      h ^^^ (charToU32 d₁ <<< 8) ^^^ charToU32 d₀) : c₀ = d₀ ∧ c₁ = d₁ := by
  obtain ⟨h₀, heq⟩ := xor_charToU32_cancel (fun i hi => by
    rw [xor_shift_low hi, xor_shift_low hi]) heq
  exact ⟨h₀, (xor_shift_cancel (m := 1) rfl (by decide) (fun _ _ => rfl) heq).1⟩

/-- Three of them. -/
theorem xor_three_cancel
    (heq : h ^^^ (charToU32 c₂ <<< 16) ^^^ (charToU32 c₁ <<< 8) ^^^ charToU32 c₀ =
      h ^^^ (charToU32 d₂ <<< 16) ^^^ (charToU32 d₁ <<< 8) ^^^ charToU32 d₀) :
    c₀ = d₀ ∧ c₁ = d₁ ∧ c₂ = d₂ := by
  obtain ⟨h₀, heq⟩ := xor_charToU32_cancel (fun i hi => by
    rw [xor_shift_low hi, xor_shift_low hi, xor_shift_low (by omega),
      xor_shift_low (by omega)]) heq
  obtain ⟨h₁, heq⟩ := xor_shift_cancel (m := 1) rfl (by decide) (fun i hi => by
    rw [xor_shift_low (by omega), xor_shift_low (by omega)]) heq
  exact ⟨h₀, h₁, (xor_shift_cancel (m := 2) rfl (by decide) (fun _ _ => rfl) heq).1⟩

theorem tail32_eq_of_hashTail (hlen : a.size = b.size)
    (htail : hashTail a h = hashTail b h) {m : Nat} (hm : m < a.size % 4) :
    a.tail32 m = b.tail32 m := by
  have hand : a.size &&& 3 = a.size % 4 := Nat.and_two_pow_sub_one_eq_mod a.size 2
  rw [hashTail, hashTail, ← hlen, hand] at htail
  have hr : a.size % 4 = 1 ∨ a.size % 4 = 2 ∨ a.size % 4 = 3 := by omega
  rcases hr with hr | hr | hr
  · rw [hr] at htail hm
    obtain rfl : m = 0 := by omega
    exact (xor_charToU32_cancel (fun _ _ => rfl) (mul_hashM_injective htail)).1
  · rw [hr] at htail hm
    obtain ⟨h₀, h₁⟩ := xor_two_cancel (mul_hashM_injective htail)
    obtain rfl | rfl : m = 0 ∨ m = 1 := by omega
    · exact h₀
    · exact h₁
  · rw [hr] at htail hm
    obtain ⟨h₀, h₁, h₂⟩ := xor_three_cancel (mul_hashM_injective htail)
    obtain rfl | rfl | rfl : m = 0 ∨ m = 1 ∨ m = 2 := by omega
    · exact h₀
    · exact h₁
    · exact h₂

/-! ## The hash -/

theorem getBlock32_congr (h : ∀ j, j < 4 → a.charAt (4 * k + j) = b.charAt (4 * k + j)) :
    a.getBlock32 k = b.getBlock32 k := by
  rw [getBlock32_eq_iff]
  rintro ⟨j, hj, hdiff, _⟩
  exact hdiff (h j hj)

/-- The blocks of a key, in the order in which `Hash` takes them in. -/
def CstrView.blocks (key : CstrView) : List (BitVec 32) :=
  (List.range key.blockSize32).map key.getBlock32

theorem CstrView.hash_eq (key : CstrView) :
    key.hash =
      hashFinish (hashTail key (key.blocks.foldl hashBlock (BitVec.ofNat 32 key.size))) := by
  rw [CstrView.blocks, List.foldl_map]
  rfl

theorem tail32_eq (key : CstrView) (m : Nat) :
    key.tail32 m = key.charAt (key.size - key.size % 4 + m) := rfl

theorem eq_of_charAt (hlen : a.size = b.size) (h : ∀ i, i < a.size → a.charAt i = b.charAt i) :
    a = b := by
  obtain ⟨s⟩ := a
  obtain ⟨t⟩ := b
  congr 1
  apply List.ext_getElem hlen
  intro i hs ht
  have hi := h i hs
  simpa only [CstrView.charAt, List.getD_eq_getElem?_getD, List.getElem?_eq_getElem hs,
    List.getElem?_eq_getElem ht, Option.getD_some] using hi

/-- Keys that agree outside of one block. -/
structure Window (a b : CstrView) (k : Nat) : Prop where
  len : a.size = b.size
  same : ∀ i, ¬ (4 * k ≤ i ∧ i < 4 * k + 4) → a.charAt i = b.charAt i

namespace Window

theorem getBlock32 (hw : Window a b k) {i : Nat} (hi : i ≠ k) :
    a.getBlock32 i = b.getBlock32 i :=
  getBlock32_congr fun j hj => hw.same _ (by omega)

theorem blocks_agree (hw : Window a b k) : AgreeOutside k a.blocks b.blocks := by
  intro i hi
  rw [CstrView.blocks, CstrView.blocks, List.getElem?_map, List.getElem?_map,
    CstrView.blockSize32, CstrView.blockSize32, hw.len]
  by_cases hin : i < b.size / 4
  · rw [List.getElem?_range hin, Option.map_some, Option.map_some, hw.getBlock32 hi]
  · have hnone : (List.range (b.size / 4))[i]? = none :=
      List.getElem?_eq_none (by rw [List.length_range]; omega)
    rw [hnone, Option.map_none, Option.map_none]

theorem length_blocks (hw : Window a b k) : a.blocks.length = b.blocks.length := by
  rw [CstrView.blocks, CstrView.blocks, List.length_map, List.length_map, CstrView.blockSize32,
    CstrView.blockSize32, hw.len]

/-- In a whole block the hash tells apart what the block does. -/
theorem hash_eq_iff (hw : Window a b k) (hk : 4 * k + 4 ≤ a.size) :
    a.hash = b.hash ↔ ¬ Reaches a b k := by
  have htail : hashTail a = hashTail b := by
    funext h
    have hchar : ∀ m, a.tail32 m = b.tail32 m := by
      intro m
      rw [tail32_eq, tail32_eq, hw.len]
      apply hw.same
      have hlen := hw.len
      omega
    rw [hashTail, hashTail, hw.len, hchar, hchar, hchar]
  have hfold := hashBlock_mixes.foldl_eq_iff (s := BitVec.ofNat 32 b.size) hw.length_blocks
    hw.blocks_agree
  have hblocks : a.blocks = b.blocks ↔ a.getBlock32 k = b.getBlock32 k := by
    have hin : k < b.size / 4 := by
      have hlen := hw.len
      omega
    rw [CstrView.blocks, CstrView.blocks, CstrView.blockSize32, CstrView.blockSize32, hw.len,
      List.map_inj_left]
    refine ⟨fun h => h k (List.mem_range.mpr hin), fun h i _ => ?_⟩
    by_cases hi : i = k
    · rw [hi, h]
    · exact hw.getBlock32 hi
  rw [CstrView.hash_eq, CstrView.hash_eq, htail, hw.len, hashFinish_injective.eq_iff,
    (hashTail_injective b).eq_iff, hfold, hblocks, getBlock32_eq_iff]

/-- The characters after the last block all reach the hash. -/
theorem hash_ne (hw : Window a b k) (hk : a.size < 4 * k + 4) (hne : a ≠ b) :
    a.hash ≠ b.hash := by
  have hlen := hw.len
  have hblocks : a.blocks = b.blocks := by
    rw [CstrView.blocks, CstrView.blocks, CstrView.blockSize32, CstrView.blockSize32, hlen,
      List.map_inj_left]
    intro i hi
    rw [List.mem_range] at hi
    exact hw.getBlock32 (by omega)
  intro heq
  rw [CstrView.hash_eq, CstrView.hash_eq, hblocks, hlen, hashFinish_injective.eq_iff] at heq
  apply hne
  apply eq_of_charAt hlen
  intro i hi
  by_cases htail : a.size - a.size % 4 ≤ i
  · have hchar := tail32_eq_of_hashTail hlen heq (m := i - (a.size - a.size % 4)) (by omega)
    rw [tail32_eq, tail32_eq, ← hlen] at hchar
    rwa [Nat.add_sub_cancel' htail] at hchar
  · exact hw.same i (by omega)

end Window

/-- **When the hash separates two keys** that differ inside one block only: when the block is
the rest of the key, or when some differing character stands before every character from
`0x80` on of the block. -/
theorem hash_separates_block_iff (a b : CstrView) (k : Nat) (hlen : a.size = b.size)
    (hne : a ≠ b) (hblock : ∀ i, a.str[i]? ≠ b.str[i]? → 4 * k ≤ i ∧ i < 4 * k + 4) :
    a.hash ≠ b.hash ↔ a.size < 4 * k + 4 ∨ Reaches a b k := by
  have hw : Window a b k := by
    refine ⟨hlen, fun i hi => ?_⟩
    have hsame : a.str[i]? = b.str[i]? := by
      by_contra hdiff
      exact hi (hblock i hdiff)
    rw [CstrView.charAt, CstrView.charAt, List.getD_eq_getElem?_getD,
      List.getD_eq_getElem?_getD, hsame]
  by_cases hk : 4 * k + 4 ≤ a.size
  · rw [Ne, hw.hash_eq_iff hk, not_not]
    exact ⟨Or.inr, fun h => h.resolve_left (by omega)⟩
  · exact ⟨fun _ => Or.inl (by omega), fun _ => hw.hash_ne (by omega) hne⟩

/-- A key whose first character hides the second. -/
def highKey (c : UInt8) : CstrView := ⟨[0x80, c, 0x63, 0x64]⟩

theorem highKey_window (c d : UInt8) (i : Nat)
    (hdiff : (highKey c).str[i]? ≠ (highKey d).str[i]?) : 4 * 0 ≤ i ∧ i < 4 * 0 + 4 := by
  have hin := lt_length_of_ne (by rfl) hdiff
  exact ⟨Nat.zero_le i, hin⟩

theorem hash_separates_block_iff_high :
    (highKey 0x61).hash ≠ (highKey 0x62).hash ↔
      (highKey 0x61).size < 4 * 0 + 4 ∨ Reaches (highKey 0x61) (highKey 0x62) 0 :=
  hash_separates_block_iff (highKey 0x61) (highKey 0x62) 0 rfl (by decide)
    (highKey_window 0x61 0x62)

/-- Two keys that differ in one character of one block and have one hash. -/
theorem hash_block_collision :
    ∃ a b : CstrView, a.size = b.size ∧ a ≠ b ∧
      (∀ i, a.str[i]? ≠ b.str[i]? → 4 * 0 ≤ i ∧ i < 4 * 0 + 4) ∧ a.hash = b.hash :=
  ⟨highKey 0x61, highKey 0x62, rfl, by decide, highKey_window 0x61 0x62, by decide⟩

end MyLibraries.Hash
