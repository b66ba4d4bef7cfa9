import Mathlib.Data.List.Basic

/-!
# Texts cut into pieces

A cutter says how long the next piece of a text is. Cutting again and again loses nothing
(`flatten_pieces`) and leaves no empty piece (`nil_notMem_pieces`). When every piece but
the last holds an element of some kind, there is at most one piece more than elements of
that kind (`length_pieces_le`).
-/

namespace MyLibraries.Pieces

variable {α : Type}

/-- How long the next piece of a text is. -/
structure Cutter (α : Type) where
  next : List α → Nat
  next_pos : ∀ l, l ≠ [] → 0 < next l

variable (c : Cutter α) {l : List α}

/-- The pieces of a text, in order. -/
def pieces (l : List α) : List (List α) :=
  if _h : l = [] then [] else l.take (c.next l) :: pieces (l.drop (c.next l))
termination_by l.length
decreasing_by
  have hpos := c.next_pos l _h
  have hlen := List.length_pos_iff.mpr _h
  rw [List.length_drop]
  omega

@[simp] theorem pieces_nil : pieces c [] = [] := by
  unfold pieces
  rw [dif_pos rfl]

theorem pieces_of_ne_nil (h : l ≠ []) :
    pieces c l = l.take (c.next l) :: pieces c (l.drop (c.next l)) := by
  conv_lhs => unfold pieces
  rw [dif_neg h]

/-- Induction along the pieces of a text. -/
theorem cut_induction {P : List α → Prop} (nil : P [])
    (cut : ∀ l, l ≠ [] → P (l.drop (c.next l)) → P l) (l : List α) : P l := by
  induction hn : l.length using Nat.strongRecOn generalizing l with
  | ind n ih =>
    by_cases h : l = []
    · rw [h]
      exact nil
    · apply cut l h
      refine ih _ ?_ _ rfl
      have hpos := c.next_pos l h
      have hlen := List.length_pos_iff.mpr h
      rw [List.length_drop]
      omega

theorem flatten_pieces (l : List α) : (pieces c l).flatten = l := by
  induction l using cut_induction c with
  | nil => simp
  | cut l h ih => rw [pieces_of_ne_nil c h, List.flatten_cons, ih, List.take_append_drop]

theorem nil_notMem_pieces (l : List α) : [] ∉ pieces c l := by
  induction l using cut_induction c with
  | nil => simp
  | cut l h ih =>
    rw [pieces_of_ne_nil c h, List.mem_cons, not_or]
    refine ⟨fun htake => ?_, ih⟩
    have hpos := c.next_pos l h
    rcases List.take_eq_nil_iff.mp htake.symm with h0 | hl
    · omega
    · exact h hl

/-- A piece that does not end the text holds an element of the kind `p`. -/
def Cutter.EndsWith (p : α → Bool) : Prop :=
  ∀ l, l ≠ [] → c.next l < l.length → 0 < (l.take (c.next l)).countP p

theorem length_pieces_le {p : α → Bool} (hp : c.EndsWith p) (l : List α) :
    (pieces c l).length ≤ l.countP p + 1 := by
  induction l using cut_induction c with
  | nil => simp
  | cut l h ih =>
    rw [pieces_of_ne_nil c h, List.length_cons]
    have hcount : l.countP p = (l.take (c.next l)).countP p + (l.drop (c.next l)).countP p := by
      rw [← List.countP_append, List.take_append_drop]
    by_cases hlast : c.next l < l.length
    · have hend := hp l h hlast
      omega
    · rw [List.drop_eq_nil_of_le (by omega), pieces_nil, List.length_nil]
      omega

end MyLibraries.Pieces
