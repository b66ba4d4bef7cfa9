import Mathlib.Algebra.Field.Rat
import Mathlib.Algebra.Order.Ring.Rat
import MyLibraries.Core.RingBuffer
import MyLibraries.Core.Selection
import MyLibraries.Filters.Model

/-!
# The median filter

The filter sorts out the middle of the slots in use, which lie in the order of the slots
and not of their age. They are the last samples in some order, and the median does not
depend on the order. A reset empties the ring buffer, whatever it fills the slots with.
-/

namespace MyLibraries.Filters

open RingBuffer Selection

variable {T : Type} [Field T] [LinearOrder T] {windowSize : Nat}

/-- What the standard says of the two algorithms: `std::nth_element` permutes the range and
partitions it around the place, `std::max_element` finds the largest element. -/
structure Algorithms.Standard (std : Algorithms T) : Prop where
  nthElement_perm : ∀ l k, k < l.length → (std.nthElement l k).Perm l
  nthElement_low : ∀ l k a, k < l.length → (std.nthElement l k)[k]? = some a →
    ∀ x ∈ (std.nthElement l k).take k, x ≤ a
  nthElement_high : ∀ l k a, k < l.length → (std.nthElement l k)[k]? = some a →
    ∀ x ∈ (std.nthElement l k).drop (k + 1), a ≤ x
  maxElement_mem : ∀ l, l ≠ [] → std.maxElement l ∈ l
  le_maxElement : ∀ l, ∀ x ∈ l, x ≤ std.maxElement l

/-- The calls of a median filter. -/
inductive MedianFilter.Call (T : Type)
  | update (value : T)
  | reset (v : T)

/-- A call. -/
def MedianFilter.call [NeZero windowSize] (std : Algorithms T) (f : MedianFilter T windowSize) :
    Call T → MedianFilter T windowSize
  | .update value => (f.update std value).2
  | .reset v => f.reset v

/-- The samples since the last reset, after one more call. -/
def MedianFilter.Call.samples (samples : List T) : Call T → List T
  | .update value => samples ++ [value]
  | .reset _ => []

/-- The filter after `samples`. -/
def MedianFilter.After (f : MedianFilter T windowSize) (samples : List T) : Prop :=
  ∃ fill, Holds windowSize fill f.buffer.toList f.index f.count samples

variable {std : Algorithms T} {f : MedianFilter T windowSize} {samples l : List T}

theorem median_congr {l' : List T} (h : l.Perm l') : median l = median l' := by
  rw [median, median, sort_congr h, h.length_eq]

/-- What the filter computes from the slots in use is their median. -/
theorem median_eq (hstd : std.Standard) (hne : l ≠ []) :
    (if l.length % 2 = 1 then (std.nthElement l (l.length / 2)).getD (l.length / 2) 0
      else (std.maxElement ((std.nthElement l (l.length / 2)).take (l.length / 2)) +
        (std.nthElement l (l.length / 2)).getD (l.length / 2) 0) / 2) = median l := by
  have hpos := List.length_pos_iff.mpr hne
  have hmid : l.length / 2 < l.length := by omega
  have hperm := hstd.nthElement_perm l _ hmid
  have hlow := fun a => hstd.nthElement_low l _ a hmid
  have hhigh := fun a => hstd.nthElement_high l _ a hmid
  have hlen := hperm.length_eq
  rw [median, ← sort_congr hperm]
  generalize std.nthElement l (l.length / 2) = out at hperm hlow hhigh hlen ⊢
  have hk : l.length / 2 < out.length := by omega
  have hlow' := hlow _ (List.getElem?_eq_getElem hk)
  have hhigh' := hhigh _ (List.getElem?_eq_getElem hk)
  have hsort : (sort out).getD (l.length / 2) 0 = out.getD (l.length / 2) 0 := by
    rw [List.getD_eq_getElem?_getD, List.getD_eq_getElem?_getD, getElem?_sort hk hlow' hhigh']
  rw [hsort]
  split
  · rfl
  · have htake : out.take (l.length / 2) ≠ [] := by
      rw [ne_eq, List.take_eq_nil_iff, not_or]
      refine ⟨by omega, ?_⟩
      rintro rfl
      simp at hk
    have hpred := getElem?_sort_pred hk hlow' hhigh' (hstd.maxElement_mem _ htake)
      (hstd.le_maxElement _)
    have hbefore : (sort out).getD (l.length / 2 - 1) 0 =
        std.maxElement (out.take (l.length / 2)) := by
      rw [List.getD_eq_getElem?_getD, hpred, Option.getD_some]
    rw [hbefore]

/-- **One update** answers the median of the last samples. -/
theorem MedianFilter.After.update (hstd : std.Standard) (h : f.After samples) (x : T) :
    (f.update std x).1 = median ((samples ++ [x]).rtake windowSize) ∧
      (f.update std x).2.After (samples ++ [x]) := by
  obtain ⟨fill, h⟩ := h
  have hpush := h.push x
  rw [← Vector.toList_set f.index.isLt] at hpush
  refine ⟨?_, fill, hpush⟩
  have hcount := hpush.count_eq
  have hlen : (f.buffer.set f.index x f.index.isLt).toList.length = windowSize := hpush.length_eq
  have hlt := f.index.isLt
  generalize hs : (f.buffer.set f.index x f.index.isLt).toList.take
    (nextCount windowSize f.count) = used
  have hused : used.length = nextCount windowSize f.count := by
    rw [← hs, List.length_take, hlen]
    rw [List.length_append, List.length_singleton] at hcount
    show min (if _ then _ else _) _ = if _ then _ else _
    omega
  have hperm : used.Perm ((samples ++ [x]).rtake windowSize) := hs ▸ hpush.perm
  have hne : used ≠ [] := by
    intro hnil
    rw [hnil, List.length_nil] at hused
    rw [List.length_append, List.length_singleton] at hcount
    have : nextCount windowSize f.count = min (samples.length + 1) windowSize := hcount
    omega
  rw [← median_congr hperm, ← median_eq hstd hne]
  unfold MedianFilter.update
  dsimp only
  rw [hs, hused]

theorem MedianFilter.After.call [NeZero windowSize] (hstd : std.Standard) (h : f.After samples)
    (c : Call T) : (f.call std c).After (c.samples samples) := by
  cases c with
  | update value => exact (h.update hstd value).2
  | reset v => exact ⟨v, holds_nil (Nat.pos_of_ne_zero (NeZero.ne windowSize))⟩

theorem MedianFilter.After.calls [NeZero windowSize] (hstd : std.Standard) (h : f.After samples)
    (cs : List (Call T)) :
    (cs.foldl (MedianFilter.call std) f).After (cs.foldl Call.samples samples) := by
  induction cs generalizing f samples with
  | nil => exact h
  | cons c cs ih => exact ih (h.call hstd c)

/-- **The median filter.** After any updates and resets, an update answers the median of the
last `windowSize` samples since the last reset, or of all if there are fewer. -/
theorem median_filter [NeZero windowSize] (std : Algorithms T) (hstd : std.Standard)
    (cs : List (MedianFilter.Call T)) (x : T) :
    ((cs.foldl (MedianFilter.call std) (.new T windowSize)).update std x).1 =
      median ((cs.foldl MedianFilter.Call.samples [] ++ [x]).rtake windowSize) := by
  have hnew : (MedianFilter.new T windowSize).After [] :=
    ⟨0, holds_nil (Nat.pos_of_ne_zero (NeZero.ne windowSize))⟩
  exact ((hnew.calls hstd cs).update hstd x).1

/-- Algorithms that sort the range. -/
def sorting (T : Type) [Field T] [LinearOrder T] : Algorithms T where
  nthElement l _ := sort l
  maxElement l := (sort l).getLastD 0

theorem sorting_standard : (sorting T).Standard := by
  have hsorted : ∀ (l : List T) (k : Nat) (a : T), (sort l)[k]? = some a →
      (∀ x ∈ (sort l).take k, x ≤ a) ∧ ∀ x ∈ (sort l).drop (k + 1), a ≤ x := by
    intro l k a ha
    obtain ⟨hk, rfl⟩ := List.getElem?_eq_some_iff.mp ha
    have hpair := sort_sorted l
    rw [← List.take_append_drop k (sort l), List.drop_eq_getElem_cons hk, List.pairwise_append,
      List.pairwise_cons] at hpair
    exact ⟨fun x hx => hpair.2.2 x hx _ (List.mem_cons_self ..), hpair.2.1.1⟩
  refine ⟨fun l _ _ => sort_perm l, fun l k a _ ha => (hsorted l k a ha).1,
    fun l k a _ ha => (hsorted l k a ha).2, ?_, ?_⟩
  · intro l hne
    have hne' : sort l ≠ [] := by
      rw [← List.length_pos_iff, length_sort]
      exact List.length_pos_iff.mpr hne
    show (sort l).getLastD 0 ∈ l
    rw [List.getLastD_eq_getLast?, List.getLast?_eq_some_getLast hne']
    exact mem_sort.mp (List.getLast_mem hne')
  · intro l x hx
    have hmem := mem_sort.mpr hx
    show x ≤ (sort l).getLastD 0
    rw [List.getLastD_eq_getLast?, List.getLast?_eq_some_getLast (List.ne_nil_of_mem hmem)]
    exact (sort_sorted l).rel_getLast hmem

/-- A window of four that is wrapped, behind a reset with a value of its own. -/
theorem median_filter_wrapped :
    ((([.update 7, .reset 100, .update 1, .update 9, .update 4, .update 3] :
      List (MedianFilter.Call ℚ)).foldl (MedianFilter.call (sorting ℚ)) (.new ℚ 4)).update
        (sorting ℚ) 8).1 = median (([1, 9, 4, 3] ++ [8]).rtake 4) :=
  median_filter (sorting ℚ) sorting_standard
    [.update 7, .reset 100, .update 1, .update 9, .update 4, .update 3] 8

end MyLibraries.Filters
