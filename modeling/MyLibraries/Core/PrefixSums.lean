import Mathlib.Algebra.GroupWithZero.Nat
import Mathlib.Data.List.Infix
import Mathlib.Tactic.Ring

/-!
# Sums of prefixes

A checksum with two accumulators adds up its input and, in the second one, the values that
the first one takes: the sums of the prefixes. Taking in a list in two parts, the second
part starts from the sum of the first (`prefixSums_append`).
-/

namespace MyLibraries.PrefixSums

variable {x bound : Nat} {xs ys : List Nat}

/-- The sum of the sums of all prefixes. -/
def prefixSums (xs : List Nat) : Nat := (xs.inits.map List.sum).sum

@[simp] theorem prefixSums_nil : prefixSums [] = 0 := rfl

@[simp] theorem prefixSums_cons :
    prefixSums (x :: xs) = (xs.length + 1) * x + prefixSums xs := by
  have hadd : ∀ yss : List (List Nat),
      (yss.map fun ys => x + ys.sum).sum = yss.length * x + (yss.map List.sum).sum := by
    intro yss
    induction yss with
    | nil => simp
    | cons ys yss ih =>
      rw [List.map_cons, List.map_cons, List.sum_cons, List.sum_cons, ih, List.length_cons]
      ring
  rw [prefixSums, List.inits_cons, List.map_cons, List.sum_cons, List.map_map]
  have hcomp : (List.sum ∘ fun t => x :: t) = fun ys : List Nat => x + ys.sum := by
    funext ys
    exact List.sum_cons
  rw [hcomp, hadd, List.length_inits, List.sum_nil, Nat.zero_add, prefixSums]

/-- The second part of a list starts from the sum of the first. -/
theorem prefixSums_append :
    prefixSums (xs ++ ys) = prefixSums xs + ys.length * xs.sum + prefixSums ys := by
  induction xs with
  | nil => simp
  | cons x xs ih =>
    rw [List.cons_append, prefixSums_cons, ih, prefixSums_cons, List.length_append, List.sum_cons]
    ring

/-- Twice the bound, so that no division is in it. -/
theorem two_mul_prefixSums_le (h : ∀ x ∈ xs, x ≤ bound) :
    2 * prefixSums xs ≤ xs.length * (xs.length + 1) * bound := by
  induction xs with
  | nil => simp
  | cons x xs ih =>
    have hhead := Nat.mul_le_mul_left (xs.length + 1) (h x List.mem_cons_self)
    have htail := ih fun y hy => h y (List.mem_cons_of_mem x hy)
    have hsplit : (xs.length + 1) * (xs.length + 1 + 1) * bound =
        xs.length * (xs.length + 1) * bound + 2 * ((xs.length + 1) * bound) := by ring
    rw [prefixSums_cons, List.length_cons, hsplit]
    omega

end MyLibraries.PrefixSums
