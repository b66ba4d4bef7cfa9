import Mathlib.Data.BitVec

/-!
# Linear shift registers

A register of `w` bits takes in words of `v` bits by a step that is linear over exclusive
or. Feeding it is then linear in the start and the words together (`feed_xor`), so two
streams of one length leave it in the same state from one start exactly when they do from
zero (`feed_eq_iff`): what stands before the place where they part does not matter
(`feed_append_eq_iff`).
-/

namespace MyLibraries.Register

variable {w v : Nat} {step : BitVec w → BitVec v → BitVec w} {a b : BitVec w}
  {xs ys : List (BitVec v)}

/-- A step linear over exclusive or. -/
def LinearStep (step : BitVec w → BitVec v → BitVec w) : Prop :=
  ∀ a b x y, step (a ^^^ b) (x ^^^ y) = step a x ^^^ step b y

/-- The register after the words of a stream. -/
def feed (step : BitVec w → BitVec v → BitVec w) (a : BitVec w) (xs : List (BitVec v)) :
    BitVec w :=
  xs.foldl step a

theorem feed_append : feed step a (xs ++ ys) = feed step (feed step a xs) ys :=
  List.foldl_append

theorem feed_xor (hlin : LinearStep step) (hlen : xs.length = ys.length) :
    feed step (a ^^^ b) (List.zipWith (· ^^^ ·) xs ys) = feed step a xs ^^^ feed step b ys := by
  induction xs generalizing a b ys with
  | nil =>
    obtain rfl := List.length_eq_zero_iff.mp hlen.symm
    rfl
  | cons x xs ih =>
    obtain ⟨y, ys, rfl⟩ := List.exists_cons_of_length_eq_add_one hlen.symm
    have hstep := ih (a := step a x) (b := step b y) (Nat.succ.inj hlen)
    rw [← hlin a b x y] at hstep
    exact hstep

/-- The start and the stream act apart. -/
theorem feed_split (hlin : LinearStep step) (a : BitVec w) (xs : List (BitVec v)) :
    feed step a xs = feed step a (List.replicate xs.length 0#v) ^^^ feed step 0#w xs := by
  have hzip : List.zipWith (· ^^^ ·) (List.replicate xs.length 0#v) xs = xs := by
    induction xs with
    | nil => rfl
    | cons x xs ih =>
      rw [List.length_cons, List.replicate_succ, List.zipWith_cons_cons, ih, BitVec.zero_xor]
  have hxor := feed_xor (a := a) (b := 0#w) hlin
    (List.length_replicate (n := xs.length) (a := 0#v))
  rw [hzip, BitVec.xor_zero] at hxor
  exact hxor

theorem feed_eq_iff (hlin : LinearStep step) (hlen : xs.length = ys.length) (a : BitVec w) :
    feed step a xs = feed step a ys ↔ feed step 0#w xs = feed step 0#w ys := by
  rw [feed_split hlin a xs, feed_split hlin a ys, hlen]
  exact BitVec.xor_right_inj _

/-- Streams agree exactly when their difference leaves the empty register empty. -/
theorem feed_eq_iff_difference (hlin : LinearStep step) (hlen : xs.length = ys.length)
    (a : BitVec w) :
    feed step a xs = feed step a ys ↔
      feed step 0#w (List.zipWith (· ^^^ ·) xs ys) = 0#w := by
  have hxor := feed_xor (a := a) (b := a) hlin hlen
  rw [BitVec.xor_self] at hxor
  rw [hxor, BitVec.xor_eq_zero_iff]

/-- Streams with one beginning agree exactly when their ends do. -/
theorem feed_append_eq_iff (hlin : LinearStep step) (hlen : xs.length = ys.length)
    (a : BitVec w) (zs : List (BitVec v)) :
    feed step a (zs ++ xs) = feed step a (zs ++ ys) ↔ feed step 0#w xs = feed step 0#w ys := by
  rw [feed_append, feed_append]
  exact feed_eq_iff hlin hlen _

end MyLibraries.Register
