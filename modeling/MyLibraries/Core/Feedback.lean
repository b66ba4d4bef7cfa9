import Mathlib.Logic.Function.Iterate
import MyLibraries.Core.Register

/-!
# Shift registers with feedback

A register of `w` bits is shifted towards its lowest bit; when a one falls out, the
polynomial `p` is added. A message enters bit by bit at the low end. When the highest bit
of `p` is set a shift is injective, and up to `w` message bits act as if they had been
added to the register at once (`feed_clock`). So two messages that part within `w`
consecutive bits leave the register in different states (`feed_burst`).
-/

namespace MyLibraries.Feedback

open Register

variable {w : Nat} (p : BitVec w) {a b c : BitVec w} {xs ys us vs : List (BitVec 1)}

/-- One shift. -/
def shift (c : BitVec w) : BitVec w :=
  if c.getLsbD 0 then (c >>> 1) ^^^ p else c >>> 1

/-- One message bit. -/
def clock (c : BitVec w) (x : BitVec 1) : BitVec w := shift p (c ^^^ x.setWidth w)

/-- The word with the bits of a message, the first one lowest. -/
def word (w : Nat) : List (BitVec 1) → BitVec w
  | [] => 0#w
  | x :: xs => x.setWidth w ^^^ (word w xs <<< 1)

/-! ## Shifts -/

theorem shift_xor (a b : BitVec w) : shift p (a ^^^ b) = shift p a ^^^ shift p b := by
  have hcancel : ∀ x y : BitVec w, x ^^^ y = x ^^^ p ^^^ (y ^^^ p) := by
    intro x y
    rw [BitVec.xor_assoc, ← BitVec.xor_assoc p y p, BitVec.xor_comm p y, BitVec.xor_assoc y p p,
      BitVec.xor_self, BitVec.xor_zero]
  simp only [shift, BitVec.getLsbD_xor, BitVec.ushiftRight_xor_distrib]
  cases a.getLsbD 0 with
  | false =>
    cases b.getLsbD 0 with
    | false => rfl
    | true => exact BitVec.xor_assoc _ _ _
  | true =>
    cases b.getLsbD 0 with
    | false =>
      show (a >>> 1 ^^^ b >>> 1) ^^^ p = (a >>> 1 ^^^ p) ^^^ b >>> 1
      rw [BitVec.xor_assoc, BitVec.xor_comm (b >>> 1), ← BitVec.xor_assoc]
    | true => exact hcancel _ _

theorem iterate_shift_xor (n : Nat) (a b : BitVec w) :
    (shift p)^[n] (a ^^^ b) = (shift p)^[n] a ^^^ (shift p)^[n] b := by
  induction n generalizing a b with
  | zero => rfl
  | succ n ih =>
    rw [Function.iterate_succ_apply, shift_xor, ih]
    rfl

/-- A register whose low bit is clear is shifted only. -/
theorem shift_of_low (h : c.getLsbD 0 = false) : shift p c = c >>> 1 := by
  rw [shift, h]
  rfl

/-- A register whose `n` low bits are clear goes through `n` shifts as it is. -/
theorem iterate_shift_of_low {n : Nat} (h : ∀ i, i < n → c.getLsbD i = false) :
    (shift p)^[n] c = c >>> n := by
  induction n with
  | zero => exact (BitVec.ushiftRight_zero c).symm
  | succ n ih =>
    rw [Function.iterate_succ_apply', ih fun i hi => h i (by omega), shift_of_low,
      BitVec.shiftRight_add]
    rw [BitVec.getLsbD_ushiftRight]
    exact h n (by omega)

/-- The highest bit tells whether the polynomial was added. -/
theorem shift_injective (hp : p.getLsbD (w - 1) = true) : Function.Injective (shift p) := by
  have hw : 0 < w := by
    by_contra h0
    rw [BitVec.getLsbD_of_ge p _ (by omega)] at hp
    cases hp
  have hzero : ∀ c : BitVec w, shift p c = 0#w → c = 0#w := by
    intro c hc
    have hmsb := congrArg (fun x : BitVec w => x.getLsbD (w - 1)) hc
    have hlow : c.getLsbD 0 = false := by
      by_contra hne
      rw [Bool.not_eq_false] at hne
      simp only [shift, hne, if_true, BitVec.getLsbD_xor, BitVec.getLsbD_ushiftRight, hp,
        BitVec.getLsbD_zero] at hmsb
      rw [BitVec.getLsbD_of_ge c _ (by omega)] at hmsb
      cases hmsb
    rw [shift_of_low p hlow] at hc
    apply BitVec.eq_of_getLsbD_eq
    intro i hi
    rw [BitVec.getLsbD_zero]
    cases i with
    | zero => exact hlow
    | succ i =>
      have hbit := congrArg (fun x : BitVec w => x.getLsbD i) hc
      simp only [BitVec.getLsbD_ushiftRight, BitVec.getLsbD_zero] at hbit
      rw [Nat.add_comm]
      exact hbit
  intro a b hab
  have hxor : shift p (a ^^^ b) = 0#w := by rw [shift_xor, hab, BitVec.xor_self]
  exact BitVec.xor_eq_zero_iff.mp (hzero _ hxor)

/-! ## Messages -/

theorem word_getLsbD (xs : List (BitVec 1)) (i : Nat) :
    (word w xs).getLsbD i = (decide (i < w) && (xs.getD i 0#1).getLsbD 0) := by
  induction xs generalizing i with
  | nil => simp [word]
  | cons x xs ih =>
    rw [word, BitVec.getLsbD_xor, BitVec.getLsbD_setWidth, BitVec.getLsbD_shiftLeft]
    cases i with
    | zero => simp
    | succ i =>
      rw [BitVec.getLsbD_of_ge x (i + 1) (by omega), Nat.add_sub_cancel, ih]
      by_cases hi : i + 1 < w
      · simp [hi, show i < w by omega]
      · simp [hi]

/-- Up to `w` message bits act as one word that is added to the register. -/
theorem feed_clock (c : BitVec w) (xs : List (BitVec 1)) (hlen : xs.length ≤ w) :
    feed (clock p) c xs = (shift p)^[xs.length] (c ^^^ word w xs) := by
  induction xs generalizing c with
  | nil => simp [feed, word]
  | cons x xs ih =>
    rw [List.length_cons] at hlen
    have hstep : shift p (word w xs <<< 1) = word w xs := by
      rw [shift_of_low p (by simp [BitVec.getLsbD_shiftLeft])]
      apply BitVec.eq_of_getLsbD_eq
      intro i hi
      rw [BitVec.getLsbD_ushiftRight, BitVec.getLsbD_shiftLeft, word_getLsbD, word_getLsbD]
      by_cases hlast : 1 + i < w
      · simp [hlast, hi]
      · have hout : xs.getD i 0#1 = 0#1 := by
          rw [List.getD_eq_getElem?_getD, List.getElem?_eq_none (by omega)]
          rfl
        rw [hout]
        simp [hlast]
    show feed (clock p) (clock p c x) xs = _
    rw [ih _ (by omega), List.length_cons, Function.iterate_succ_apply, word, ← BitVec.xor_assoc,
      shift_xor p _ (word w xs <<< 1), hstep]
    rfl

theorem word_injective (hlen : xs.length = ys.length) (hw : xs.length ≤ w)
    (h : word w xs = word w ys) : xs = ys := by
  apply List.ext_getElem hlen
  intro i hx hy
  have hbit := congrArg (fun c : BitVec w => c.getLsbD i) h
  simp only [word_getLsbD, List.getD_eq_getElem?_getD, List.getElem?_eq_getElem hx,
    List.getElem?_eq_getElem hy, Option.getD_some, show i < w by omega, decide_true,
    Bool.true_and] at hbit
  apply BitVec.eq_of_getLsbD_eq
  intro j hj
  obtain rfl : j = 0 := by omega
  exact hbit

theorem feed_injective (hp : p.getLsbD (w - 1) = true) (xs : List (BitVec 1)) :
    Function.Injective fun c => feed (clock p) c xs := by
  induction xs with
  | nil => exact fun _ _ h => h
  | cons x xs ih =>
    intro a b hab
    have hclock : clock p a x = clock p b x := ih hab
    exact (BitVec.xor_left_inj _).mp (shift_injective p hp hclock)

/-- **Bursts are detected**: messages that part within `w` consecutive bits leave different
states. -/
theorem feed_burst (hp : p.getLsbD (w - 1) = true) (hlen : us.length = vs.length)
    (hw : us.length ≤ w) (hne : us ≠ vs) (c : BitVec w) (xs ys : List (BitVec 1)) :
    feed (clock p) c (xs ++ us ++ ys) ≠ feed (clock p) c (xs ++ vs ++ ys) := by
  intro heq
  rw [feed_append, feed_append, feed_append, feed_append] at heq
  have hmid := feed_injective p hp ys heq
  rw [feed_clock p _ us hw, feed_clock p _ vs (hlen ▸ hw), hlen] at hmid
  have hword := (shift_injective p hp).iterate _ hmid
  exact hne (word_injective hlen hw ((BitVec.xor_right_inj _).mp hword))

/-- The same, with the place of the burst given by the indices of the bits that differ. -/
theorem feed_window (hp : p.getLsbD (w - 1) = true) (hlen : xs.length = ys.length)
    (hne : xs ≠ ys) (start : Nat)
    (hwin : ∀ i, xs[i]? ≠ ys[i]? → start ≤ i ∧ i < start + w) (c : BitVec w) :
    feed (clock p) c xs ≠ feed (clock p) c ys := by
  have hsplit : ∀ zs : List (BitVec 1),
      zs.take start ++ (zs.drop start).take w ++ zs.drop (start + w) = zs := by
    intro zs
    rw [List.append_assoc, ← List.drop_drop, List.take_append_drop, List.take_append_drop]
  have hsame : ∀ i, ¬ (start ≤ i ∧ i < start + w) → xs[i]? = ys[i]? :=
    fun i hi => not_not.mp fun hdiff => hi (hwin i hdiff)
  have htake : xs.take start = ys.take start := by
    apply List.ext_getElem?
    intro i
    rw [List.getElem?_take, List.getElem?_take]
    split
    · exact hsame i (by omega)
    · rfl
  have hdrop : xs.drop (start + w) = ys.drop (start + w) := by
    apply List.ext_getElem?
    intro i
    rw [List.getElem?_drop, List.getElem?_drop]
    exact hsame _ (by omega)
  have hburst : (xs.drop start).take w ≠ (ys.drop start).take w := by
    intro heq
    apply hne
    rw [← hsplit xs, ← hsplit ys, htake, hdrop, heq]
  have hdiff := feed_burst p hp
    (by rw [List.length_take, List.length_take, List.length_drop, List.length_drop, hlen])
    (by rw [List.length_take]; omega) hburst c (xs.take start) (xs.drop (start + w))
  rw [hsplit xs, htake, hdrop, hsplit ys] at hdiff
  exact hdiff

end MyLibraries.Feedback
