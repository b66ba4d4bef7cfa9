import Mathlib.Data.List.Chain

/-!
# Ports with a strobe line

The values that a program writes to a port, one line of which is a strobe: a receiver takes
the other lines over when the strobe falls. A value is sent by writing it with the strobe
high and again with the strobe low (`strobe`). What falls out of a row of such writes is
the row of values (`fallingEdges_strobes`), and no other line changes while the strobe is
high (`stable_strobes`). Masks are apart when they have no line in common.
-/

namespace MyLibraries.Strobe

variable {w : Nat}

/-- The masks have no line in common. -/
def Apart (a b : BitVec w) : Prop := a &&& b = 0#w

instance (a b : BitVec w) : Decidable (Apart a b) := inferInstanceAs (Decidable (_ = _))

/-- The values at which the line `en` falls. -/
def fallingEdges (en : BitVec w) : List (BitVec w) → List (BitVec w)
  | v :: u :: vs =>
    if v &&& en ≠ 0#w ∧ u &&& en = 0#w then u :: fallingEdges en (u :: vs)
    else fallingEdges en (u :: vs)
  | _ => []

/-- The lines `lines` keep their value as long as `en` is high. -/
def Stable (en lines : BitVec w) (vs : List (BitVec w)) : Prop :=
  vs.IsChain fun v u => v &&& en ≠ 0#w → u &&& lines = v &&& lines

/-- Write a value with the strobe high, then with the strobe low. -/
def strobe (en dat : BitVec w) : List (BitVec w) := [dat ||| en, (dat ||| en) &&& ~~~en]

variable {a b c m en lines before dat : BitVec w} {dats : List (BitVec w)}

/-! ## Masks -/

theorem Apart.symm (h : Apart a b) : Apart b a := by
  rw [Apart, BitVec.and_comm]
  exact h

theorem apart_or_left : Apart (a ||| b) c ↔ Apart a c ∧ Apart b c := by
  rw [Apart, BitVec.and_comm, BitVec.and_or_distrib_left, BitVec.or_eq_zero_iff,
    BitVec.and_comm c a, BitVec.and_comm c b]
  rfl

theorem apart_zero_left : Apart 0#w a := BitVec.zero_and

/-- A part of a mask is apart from what the mask is apart from. -/
theorem Apart.mono (h : Apart m b) (ha : a &&& m = a) : Apart a b := by
  rw [Apart, ← ha, BitVec.and_assoc, h, BitVec.and_zero]

theorem Apart.or_and_not (h : Apart a b) : (a ||| b) &&& ~~~b = a := by
  apply BitVec.eq_of_getLsbD_eq
  intro i hi
  have hbit := congrArg (fun v => v.getLsbD i) h
  simp only [BitVec.getLsbD_and, BitVec.getLsbD_zero] at hbit
  simp only [BitVec.getLsbD_and, BitVec.getLsbD_or, BitVec.getLsbD_not, hi, decide_true,
    Bool.true_and]
  revert hbit
  cases a.getLsbD i <;> cases b.getLsbD i <;> decide

theorem or_and_self (a b : BitVec w) : (a ||| b) &&& b = b := by
  apply BitVec.eq_of_getLsbD_eq
  intro i _
  simp only [BitVec.getLsbD_and, BitVec.getLsbD_or]
  cases a.getLsbD i <;> cases b.getLsbD i <;> rfl

/-- Lines apart from the others read the same without them. -/
theorem Apart.or_and (h : Apart a m) : (a ||| b) &&& m = b &&& m := by
  rw [BitVec.and_comm, BitVec.and_or_distrib_left, BitVec.and_comm m a, h, BitVec.zero_or,
    BitVec.and_comm]

/-! ## Rows of strobes -/

/-- **The receiver takes over the values that are sent.** -/
theorem fallingEdges_strobes (hen : en ≠ 0#w) (h : ∀ dat ∈ dats, Apart dat en) :
    fallingEdges en (before :: dats.flatMap (strobe en)) = dats := by
  induction dats generalizing before with
  | nil => rfl
  | cons dat dats ih =>
    have hdat := h dat List.mem_cons_self
    have hhigh : (dat ||| en) &&& en ≠ 0#w := by rwa [or_and_self]
    have hedge : (dat ||| en) &&& en ≠ 0#w ∧ dat &&& en = 0#w := ⟨hhigh, hdat⟩
    simp only [List.flatMap_cons, strobe, hdat.or_and_not, List.cons_append, List.nil_append,
      fallingEdges]
    rw [if_neg fun hfall => hhigh hfall.2, if_pos hedge,
      ih fun dat hmem => h dat (List.mem_cons_of_mem _ hmem)]

/-- A line that is low all the time does not fall. -/
theorem fallingEdges_of_low (h : ∀ v ∈ dats, Apart v en) : fallingEdges en dats = [] := by
  induction dats with
  | nil => rfl
  | cons v dats ih =>
    have hrest := ih fun u hu => h u (List.mem_cons_of_mem v hu)
    cases dats with
    | nil => rfl
    | cons u dats =>
      rw [fallingEdges, if_neg fun hfall => hfall.1 (h v List.mem_cons_self), hrest]

/-- Behind a first value nothing but the fall from it can be seen of such a line. -/
theorem length_fallingEdges_le (before : BitVec w) (h : ∀ v ∈ dats, Apart v en) :
    (fallingEdges en (before :: dats)).length ≤ 1 := by
  have hlow := fallingEdges_of_low h
  cases dats with
  | nil => exact Nat.zero_le 1
  | cons u dats =>
    rw [fallingEdges, hlow]
    split
    · exact Nat.le_refl 1
    · exact Nat.zero_le 1

theorem stable_strobes (hlines : Apart en lines) (h : ∀ dat ∈ dats, Apart dat en) :
    Stable en lines (dats.flatMap (strobe en)) := by
  -- the value before the strobes has the strobe low
  suffices hbefore : ∀ before : BitVec w, before &&& en = 0#w →
      Stable en lines (before :: dats.flatMap (strobe en)) from
    (hbefore 0#w BitVec.zero_and).tail
  induction dats with
  | nil => exact fun before _ => List.isChain_singleton _
  | cons dat dats ih =>
    intro before hbefore
    have hdat := h dat List.mem_cons_self
    have hrest := ih (fun dat hmem => h dat (List.mem_cons_of_mem _ hmem)) dat hdat
    simp only [Stable, List.flatMap_cons, strobe, hdat.or_and_not, List.cons_append,
      List.nil_append, List.isChain_cons_cons]
    refine ⟨fun hhigh => absurd hbefore hhigh, fun _ => ?_, hrest⟩
    rw [BitVec.or_comm, hlines.or_and]

end MyLibraries.Strobe
