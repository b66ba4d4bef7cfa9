import Mathlib.Data.List.DropRight
import Mathlib.Data.List.Rotate

/-!
# Ring buffers

A ring buffer of `w` slots is written slot by slot and begins again behind the last one.
`Holds` relates it to the samples written so far: until it is full they lie in its first
slots and the others hold what they were filled with; from then on it is the last `w`
samples, rotated. In both cases the slots in use are a permutation of the last samples
(`Holds.perm`).
-/

namespace MyLibraries.RingBuffer

variable {α : Type} {w index count : Nat} {fill x : α} {slots samples : List α}

/-- The ring buffer after `samples`: `index` is the next slot and `count` slots are used. -/
structure Holds (w : Nat) (fill : α) (slots : List α) (index count : Nat)
    (samples : List α) : Prop where
  length_eq : slots.length = w
  index_lt : index < w
  count_eq : count = min samples.length w
  filling : samples.length < w →
    index = samples.length ∧ slots = samples ++ List.replicate (w - samples.length) fill
  full : w ≤ samples.length → slots.rotate index = samples.rtake w

theorem rtake_of_length_le (h : samples.length ≤ w) : samples.rtake w = samples := by
  rw [List.rtake, Nat.sub_eq_zero_of_le h, List.drop_zero]

/-- A buffer filled with one value. -/
theorem holds_nil (hw : 0 < w) : Holds w fill (List.replicate w fill) 0 0 [] where
  length_eq := List.length_replicate
  index_lt := hw
  count_eq := by simp
  filling _ := ⟨rfl, by simp⟩
  full hle := absurd hle (by simp; omega)

theorem rotate_set (h : index < slots.length) :
    (slots.set index x).rotate (index + 1) = (slots.rotate index).tail ++ [x] := by
  rw [List.rotate_eq_drop_append_take (by rw [List.length_set]; omega),
    List.rotate_eq_drop_append_take (by omega), List.drop_set_of_lt (by omega),
    List.take_succ_eq_append_getElem (by rw [List.length_set]; omega), List.getElem_set_self,
    List.take_set_of_le (Nat.le_refl index), List.drop_eq_getElem_cons h, List.cons_append,
    List.tail_cons, List.append_assoc]

/-- **One more sample.** -/
theorem Holds.push (h : Holds w fill slots index count samples) (x : α) :
    Holds w fill (slots.set index x) ((index + 1) % w) (if count < w then count + 1 else count)
      (samples ++ [x]) := by
  have hlen := h.length_eq
  have hindex := h.index_lt
  have hset : (slots.set index x).length = w := by rw [List.length_set, hlen]
  have hsamples : (samples ++ [x]).length = samples.length + 1 := by simp
  refine ⟨hset, Nat.mod_lt _ (by omega), ?_, ?_, ?_⟩
  · rw [h.count_eq, hsamples]
    split <;> omega
  · intro hlt
    rw [hsamples] at hlt ⊢
    obtain ⟨hi, hslots⟩ := h.filling (by omega)
    refine ⟨by rw [hi, Nat.mod_eq_of_lt hlt], ?_⟩
    rw [hslots, hi, List.set_append_right _ _ (Nat.le_refl _), Nat.sub_self,
      show w - samples.length = w - (samples.length + 1) + 1 by omega, List.replicate_succ,
      List.set_cons_zero, List.append_assoc, List.singleton_append]
  · intro hle
    rw [hsamples] at hle
    have hrotate : (slots.set index x).rotate ((index + 1) % w) =
        (slots.rotate index).tail ++ [x] := by
      rw [← rotate_set (hlen.symm ▸ hindex), ← hset]
      exact List.rotate_mod _ _
    rw [hrotate]
    by_cases hfull : w ≤ samples.length
    · obtain ⟨v, rfl⟩ : ∃ v, w = v + 1 := ⟨w - 1, by omega⟩
      rw [h.full hfull, List.rtake_concat_succ, List.rtake, List.rtake, List.tail_drop,
        show samples.length - (v + 1) + 1 = samples.length - v by omega]
    · obtain ⟨hi, hslots⟩ := h.filling (by omega)
      have hone : w - samples.length = 1 := by omega
      rw [rtake_of_length_le (by omega), hslots, hi, hone, List.replicate_one,
        List.rotate_append_length_eq, List.singleton_append, List.tail_cons]

/-- The slots in use are the last `w` samples, in some order. -/
theorem Holds.perm (h : Holds w fill slots index count samples) :
    (slots.take count).Perm (samples.rtake w) := by
  have hlen := h.length_eq
  by_cases hfull : w ≤ samples.length
  · rw [h.count_eq, Nat.min_eq_right hfull, ← hlen, List.take_length, hlen, ← h.full hfull]
    exact (List.rotate_perm slots index).symm
  · obtain ⟨_, hslots⟩ := h.filling (by omega)
    rw [h.count_eq, Nat.min_eq_left (by omega), hslots, List.take_left, rtake_of_length_le
      (by omega)]

/-- The other slots hold what they were filled with. -/
theorem Holds.unused (h : Holds w fill slots index count samples) :
    slots.drop count = List.replicate (w - count) fill := by
  have hlen := h.length_eq
  by_cases hfull : w ≤ samples.length
  · rw [h.count_eq, Nat.min_eq_right hfull, Nat.sub_self, List.drop_eq_nil_of_le (by omega)]
    rfl
  · obtain ⟨_, hslots⟩ := h.filling (by omega)
    rw [h.count_eq, Nat.min_eq_left (by omega), hslots, List.drop_left]

end MyLibraries.RingBuffer
