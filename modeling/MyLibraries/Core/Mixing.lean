import Mathlib.Data.BitVec

/-!
# Mixing without loss

A hash takes its input value by value into a state. A step of it *mixes* when it loses
neither the state nor the value: for a fixed value it is injective in the state, for a
fixed state in the value. Then nothing that comes later can undo a difference, and two
inputs that agree outside one place hash to the same state only when they are equal
(`foldl_eq_iff`).

On words of `w` bits the operations that hashes are made of are injective: adding a word,
multiplying by a unit, and adding the word's own upper or lower part (`xorShift`,
`xorShiftLeft`).
-/

namespace MyLibraries.Mixing

variable {σ α : Type} {step : σ → α → σ} {s t : σ} {xs ys : List α} {x y : α} {k : Nat}

/-- A step that loses neither the state nor the value. -/
structure Mixes (step : σ → α → σ) : Prop where
  state : ∀ x, Function.Injective fun s => step s x
  value : ∀ s, Function.Injective (step s)

/-- Inputs that agree everywhere but in one place. -/
def AgreeOutside (k : Nat) (xs ys : List α) : Prop := ∀ i, i ≠ k → xs[i]? = ys[i]?

theorem AgreeOutside.tail (h : AgreeOutside (k + 1) (x :: xs) (y :: ys)) :
    AgreeOutside k xs ys := by
  intro i hi
  exact h (i + 1) (by omega)

theorem AgreeOutside.tail_eq (h : AgreeOutside 0 (x :: xs) (y :: ys)) : xs = ys := by
  apply List.ext_getElem?
  intro i
  exact h (i + 1) (by omega)

theorem lt_length_of_ne {i : Nat} (hlen : xs.length = ys.length) (hne : xs[i]? ≠ ys[i]?) :
    i < xs.length := by
  by_contra hout
  apply hne
  rw [List.getElem?_eq_none (by omega), List.getElem?_eq_none (by omega)]

theorem Mixes.foldl_injective (hmix : Mixes step) (xs : List α) :
    Function.Injective fun s => xs.foldl step s := by
  induction xs with
  | nil => exact fun _ _ h => h
  | cons x xs ih =>
    intro s t hst
    exact hmix.state x (ih hst)

/-- **A difference in one place stays.** -/
theorem Mixes.foldl_eq_iff (hmix : Mixes step) (hlen : xs.length = ys.length)
    (hout : AgreeOutside k xs ys) : xs.foldl step s = ys.foldl step s ↔ xs = ys := by
  refine ⟨fun heq => ?_, fun heq => by rw [heq]⟩
  induction xs generalizing ys k s with
  | nil => exact (List.length_eq_zero_iff.mp hlen.symm).symm
  | cons x xs ih =>
    obtain ⟨y, ys, rfl⟩ := List.exists_cons_of_length_eq_add_one hlen.symm
    rw [List.foldl_cons, List.foldl_cons] at heq
    cases k with
    | zero =>
      obtain rfl := hout.tail_eq
      rw [hmix.value s (hmix.foldl_injective xs heq)]
    | succ k =>
      have hhead : x = y := by
        have h0 := hout 0 (by omega)
        simpa using h0
      subst hhead
      rw [ih (Nat.succ.inj hlen) hout.tail heq]

/-- Inputs of one length that differ in exactly one place are told apart. -/
theorem Mixes.foldl_ne (hmix : Mixes step) (hlen : xs.length = ys.length)
    (hone : ∃! i : Nat, xs[i]? ≠ ys[i]?) : xs.foldl step s ≠ ys.foldl step s := by
  obtain ⟨k, hk, honly⟩ := hone
  have hout : AgreeOutside k xs ys := by
    intro i hi
    by_contra hdiff
    exact hi (honly i hdiff)
  intro heq
  apply hk
  rw [(hmix.foldl_eq_iff hlen hout).mp heq]

/-! ## Words -/

variable {w n : Nat} {m : BitVec w}

theorem xor_right_injective (a : BitVec w) : Function.Injective fun b => a ^^^ b :=
  fun _ _ h => (BitVec.xor_right_inj a).mp h

theorem xor_left_injective (b : BitVec w) : Function.Injective fun a => a ^^^ b :=
  fun _ _ h => (BitVec.xor_left_inj b).mp h

theorem mul_injective {l : BitVec w} (hinv : m * l = 1#w) : Function.Injective fun a => a * m := by
  intro a b hab
  have hback : ∀ c : BitVec w, c * m * l = c := by
    intro c
    rw [BitVec.mul_assoc, hinv, BitVec.mul_one]
  rw [← hback a, ← hback b]
  exact congrArg (· * l) hab

/-- A word with its own upper part added. -/
def xorShift (n : Nat) (a : BitVec w) : BitVec w := a ^^^ (a >>> n)

/-- The bits come back from the highest one down: what is added to a bit stands above it. -/
theorem xorShift_injective (hn : 0 < n) :
    Function.Injective (xorShift n : BitVec w → BitVec w) := by
  intro a b hab
  have hbits : ∀ d i, w ≤ i + d → a.getLsbD i = b.getLsbD i := by
    intro d
    induction d with
    | zero =>
      intro i hi
      rw [BitVec.getLsbD_of_ge a i (by omega), BitVec.getLsbD_of_ge b i (by omega)]
    | succ d ih =>
      intro i hi
      have hbit := congrArg (fun c : BitVec w => c.getLsbD i) hab
      simp only [xorShift, BitVec.getLsbD_xor, BitVec.getLsbD_ushiftRight] at hbit
      rw [ih (n + i) (by omega)] at hbit
      exact Bool.xor_left_inj.mp hbit
  apply BitVec.eq_of_getLsbD_eq
  intro i _
  exact hbits w i (by omega)

/-- A word with its own lower part added. -/
def xorShiftLeft (n : Nat) (a : BitVec w) : BitVec w := a ^^^ (a <<< n)

/-- The bits come back from the lowest one up: what is added to a bit stands below it. -/
theorem xorShiftLeft_injective (hn : 0 < n) :
    Function.Injective (xorShiftLeft n : BitVec w → BitVec w) := by
  intro a b hab
  have hbits : ∀ i, i < w → a.getLsbD i = b.getLsbD i := by
    intro i
    induction i using Nat.strongRecOn with
    | ind i ih =>
      intro hi
      have hbit := congrArg (fun c : BitVec w => c.getLsbD i) hab
      simp only [xorShiftLeft, BitVec.getLsbD_xor, BitVec.getLsbD_shiftLeft] at hbit
      by_cases hlow : i < n
      · simpa [hi, hlow] using hbit
      · rw [ih (i - n) (by omega) (by omega)] at hbit
        exact Bool.xor_left_inj.mp hbit
  exact BitVec.eq_of_getLsbD_eq hbits

end MyLibraries.Mixing
