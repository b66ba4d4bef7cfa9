import Mathlib.Algebra.BigOperators.Group.List.Basic
import Mathlib.Algebra.Order.Ring.Rat
import Mathlib.Tactic.Ring
import MyLibraries.Core.RingBuffer
import MyLibraries.Filters.Model

/-!
# The moving average

The slots of the filter are a ring buffer filled with zeros, and the running sum is the sum
of all of them. The slots that are not yet used do not count, so it is the sum of the last
samples too.
-/

namespace MyLibraries.Filters

open RingBuffer

variable {T : Type} [Field T] {windowSize : Nat}

/-- The arithmetic mean. -/
def mean (samples : List T) : T := samples.sum / (samples.length : T)

/-- The filter after `samples`. -/
structure MovingAverageFilter.After (f : MovingAverageFilter T windowSize) (samples : List T) :
    Prop where
  holds : Holds windowSize 0 f.buffer.toList f.index f.count samples
  sum_eq : f.sum = f.buffer.toList.sum

variable {f : MovingAverageFilter T windowSize} {samples : List T}

theorem MovingAverageFilter.after_new [NeZero windowSize] :
    (new T windowSize).After [] where
  holds := by
    have hnil : Holds windowSize (0 : T) (List.replicate windowSize 0) 0 0 [] :=
      holds_nil (Nat.pos_of_ne_zero (NeZero.ne windowSize))
    exact hnil
  sum_eq := by simp [new]

/-- The sum is that of the last samples. -/
theorem MovingAverageFilter.After.sum (h : f.After samples) :
    f.sum = (samples.rtake windowSize).sum := by
  rw [h.sum_eq, ← List.take_append_drop f.count f.buffer.toList, List.sum_append,
    h.holds.unused, h.holds.perm.sum_eq]
  simp

/-- **One update** answers the mean of the last samples. -/
theorem MovingAverageFilter.After.update (h : f.After samples) (x : T) :
    (f.update x).1 = mean ((samples ++ [x]).rtake windowSize) ∧
      (f.update x).2.After (samples ++ [x]) := by
  have hpush := h.holds.push x
  have hafter : (f.update x).2.After (samples ++ [x]) := by
    refine ⟨?_, ?_⟩
    · rw [← Vector.toList_set f.index.isLt] at hpush
      exact hpush
    · show f.sum - f.buffer.get f.index + x = (f.buffer.set f.index x f.index.isLt).toList.sum
      rw [Vector.toList_set, List.sum_set', dif_pos (by simp), h.sum_eq, Vector.getElem_toList]
      show _ - f.buffer[f.index.val] + x = _
      ring
  refine ⟨?_, hafter⟩
  show (f.update x).2.sum / ((f.update x).2.count : T) = _
  rw [hafter.sum, mean, hafter.holds.count_eq, List.rtake, List.length_drop]
  congr 2
  omega

theorem MovingAverageFilter.After.updates (h : f.After samples) (xs : List T) :
    (xs.foldl (fun f x => (f.update x).2) f).After (samples ++ xs) := by
  induction xs generalizing f samples with
  | nil =>
    rw [List.append_nil]
    exact h
  | cons x xs ih =>
    have hrest := ih (h.update x).2
    rw [List.append_assoc, List.singleton_append] at hrest
    exact hrest

/-- **The moving average.** After any samples, an update answers the mean of the last
`windowSize` ones (of all if there are fewer), and the running sum is the sum of the
buffer. -/
theorem moving_average [NeZero windowSize] (samples : List T) (x : T) :
    let f := samples.foldl (fun f x => (f.update x).2) (MovingAverageFilter.new T windowSize)
    (f.update x).1 = mean ((samples ++ [x]).rtake windowSize) ∧
      (f.update x).2.sum = (f.update x).2.buffer.toList.sum := by
  intro f
  have hafter : f.After samples := MovingAverageFilter.after_new.updates samples
  exact ⟨(hafter.update x).1, (hafter.update x).2.sum_eq⟩

/-- Four samples in a window of three. -/
theorem moving_average_wrapped :
    ((([10, 12, 13] : List ℚ).foldl (fun f x => (f.update x).2)
      (MovingAverageFilter.new ℚ 3)).update 14).1 =
        mean (([10, 12, 13] ++ [14]).rtake 3) :=
  (moving_average [10, 12, 13] 14).1

end MyLibraries.Filters
