import Mathlib.Data.List.Pairwise
import Mathlib.Data.List.Sort

/-!
# Selection

A list `out` is partitioned around the place `k` when nothing before the place is larger
than the element there and nothing behind it is smaller. Then the element is the one that
sorting puts there (`getElem?_sort`), and the largest one before it is the one that sorting
puts before it (`getElem?_sort_pred`).
-/

namespace MyLibraries.Selection

variable {α : Type} [LinearOrder α] {l out : List α} {k : Nat} {m : α}

/-- The list in ascending order. -/
def sort (l : List α) : List α := l.mergeSort (· ≤ ·)

theorem sort_perm (l : List α) : (sort l).Perm l := List.mergeSort_perm l _

theorem sort_sorted (l : List α) : (sort l).Pairwise (· ≤ ·) :=
  List.sortedLE_mergeSort.pairwise

/-- A sorted permutation is the sorted list. -/
theorem sort_eq_of_perm {s : List α} (hs : s.Pairwise (· ≤ ·)) (hp : s.Perm l) : sort l = s :=
  ((sort_perm l).trans hp.symm).eq_of_pairwise' (sort_sorted l) hs

theorem sort_congr (h : l.Perm out) : sort l = sort out :=
  sort_eq_of_perm (sort_sorted out) ((sort_perm out).trans h.symm)

theorem mem_sort {a : α} : a ∈ sort l ↔ a ∈ l := (sort_perm l).mem_iff

theorem length_sort (l : List α) : (sort l).length = l.length := (sort_perm l).length_eq

/-- Sorting a partitioned list sorts the two sides of the place. -/
theorem sort_of_partitioned (hk : k < out.length) (hlow : ∀ x ∈ out.take k, x ≤ out[k])
    (hhigh : ∀ x ∈ out.drop (k + 1), out[k] ≤ x) :
    sort out = sort (out.take k) ++ out[k] :: sort (out.drop (k + 1)) := by
  apply sort_eq_of_perm
  · rw [List.pairwise_append, List.pairwise_cons]
    refine ⟨sort_sorted _, ⟨fun x hx => hhigh x (mem_sort.mp hx), sort_sorted _⟩, ?_⟩
    intro x hx y hy
    have hxk := hlow x (mem_sort.mp hx)
    rcases List.mem_cons.mp hy with rfl | hy
    · exact hxk
    · exact hxk.trans (hhigh y (mem_sort.mp hy))
  · have hsplit : out.take k ++ out[k] :: out.drop (k + 1) = out := by
      rw [← List.drop_eq_getElem_cons hk, List.take_append_drop]
    conv_rhs => rw [← hsplit]
    exact (sort_perm _).append ((sort_perm _).cons _)

/-- **The element at the place** is the one that sorting puts there. -/
theorem getElem?_sort (hk : k < out.length) (hlow : ∀ x ∈ out.take k, x ≤ out[k])
    (hhigh : ∀ x ∈ out.drop (k + 1), out[k] ≤ x) : (sort out)[k]? = out[k]? := by
  have hlen : (sort (out.take k)).length = k := by
    rw [length_sort, List.length_take]
    omega
  rw [sort_of_partitioned hk hlow hhigh, List.getElem?_append_right (by omega), hlen,
    Nat.sub_self, List.getElem?_cons_zero, List.getElem?_eq_getElem hk]

/-- The last element of a sorted list is its largest. -/
theorem getLast?_sort (hm : m ∈ l) (hmax : ∀ x ∈ l, x ≤ m) : (sort l).getLast? = some m := by
  have hmem := mem_sort.mpr hm
  have hne : sort l ≠ [] := List.ne_nil_of_mem hmem
  rw [List.getLast?_eq_some_getLast hne]
  apply congrArg some
  apply le_antisymm
  · exact hmax _ (mem_sort.mp (List.getLast_mem hne))
  · exact (sort_sorted l).rel_getLast hmem

/-- **The largest element before the place** is the one that sorting puts before it. -/
theorem getElem?_sort_pred (hk : k < out.length) (hlow : ∀ x ∈ out.take k, x ≤ out[k])
    (hhigh : ∀ x ∈ out.drop (k + 1), out[k] ≤ x) (hm : m ∈ out.take k)
    (hmax : ∀ x ∈ out.take k, x ≤ m) : (sort out)[k - 1]? = some m := by
  have hlen : (sort (out.take k)).length = k := by
    rw [length_sort, List.length_take]
    omega
  have hpos : 0 < k := by
    by_contra h0
    rw [Nat.eq_zero_of_not_pos h0] at hm
    cases hm
  have hlast := getLast?_sort hm hmax
  rw [List.getLast?_eq_getElem?, hlen] at hlast
  rw [sort_of_partitioned hk hlow hhigh, List.getElem?_append_left (by omega), hlast]

end MyLibraries.Selection
