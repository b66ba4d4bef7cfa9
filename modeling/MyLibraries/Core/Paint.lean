import Mathlib.Data.List.Basic

/-!
# Painting a buffer

A buffer of fixed length is painted cell by cell; a mark outside of it is `none`. `marks`
puts the colours of a picture at the places that a function gives for their indices.
Places without a mark keep their colour (`paint_untouched`), and a place that is marked
with one colour only gets it (`paint_color`).
-/

namespace MyLibraries.Paint

variable {α : Type} {n p k : Nat} {buf out : Vector α n} {ws vs : List (Nat × α)} {c : α}
  {cs ds : List α} {pos pos' : Nat → Nat}

/-- One mark. -/
def mark (buf : Vector α n) (w : Nat × α) : Option (Vector α n) :=
  if h : w.1 < n then some (buf.set w.1 w.2 h) else none

/-- Marks one after the other. -/
def paint (buf : Vector α n) : List (Nat × α) → Option (Vector α n)
  | [] => some buf
  | w :: ws => (mark buf w).bind fun buf => paint buf ws

/-- The colours from the index `k` on, at the places of their indices. -/
def marks (pos : Nat → Nat) : Nat → List α → List (Nat × α)
  | _, [] => []
  | k, c :: cs => (pos k, c) :: marks pos (k + 1) cs

@[simp] theorem paint_nil : paint buf [] = some buf := rfl

theorem paint_append (buf : Vector α n) (ws vs : List (Nat × α)) :
    paint buf (ws ++ vs) = (paint buf ws).bind fun buf => paint buf vs := by
  induction ws generalizing buf with
  | nil => rfl
  | cons w ws ih =>
    rw [List.cons_append, paint, paint]
    cases mark buf w with
    | none => rfl
    | some buf => exact ih buf

theorem paint_singleton (buf : Vector α n) (w : Nat × α) : paint buf [w] = mark buf w := by
  rw [paint]
  cases mark buf w <;> rfl

/-- Marks inside of the buffer. -/
theorem paint_some (buf : Vector α n) (h : ∀ w ∈ ws, w.1 < n) : ∃ out, paint buf ws = some out := by
  induction ws generalizing buf with
  | nil => exact ⟨buf, rfl⟩
  | cons w ws ih =>
    rw [paint, mark, dif_pos (h w (List.mem_cons_self ..)), Option.bind_some]
    exact ih _ fun v hv => h v (List.mem_cons_of_mem w hv)

theorem mark_getElem? {w : Nat × α} (h : mark buf w = some out) (p : Nat) :
    out[p]? = if w.1 = p then some w.2 else buf[p]? := by
  unfold mark at h
  split at h
  · cases h
    rw [Vector.getElem?_set]
  · cases h

/-- A place without a mark keeps its colour. -/
theorem paint_untouched (h : paint buf ws = some out) (hp : ∀ w ∈ ws, w.1 ≠ p) :
    out[p]? = buf[p]? := by
  induction ws generalizing buf with
  | nil =>
    cases h
    rfl
  | cons w ws ih =>
    obtain ⟨mid, hmid, hrest⟩ := Option.bind_eq_some_iff.mp h
    rw [ih hrest fun v hv => hp v (List.mem_cons_of_mem w hv), mark_getElem? hmid,
      if_neg (hp w (List.mem_cons_self ..))]

/-- A place that is marked, with one colour only. -/
theorem paint_color (h : paint buf ws = some out) (hc : ∀ w ∈ ws, w.1 = p → w.2 = c)
    (hp : ∃ w ∈ ws, w.1 = p) : out[p]? = some c := by
  induction ws generalizing buf with
  | nil => simp at hp
  | cons w ws ih =>
    obtain ⟨mid, hmid, hrest⟩ := Option.bind_eq_some_iff.mp h
    have hc' : ∀ v ∈ ws, v.1 = p → v.2 = c := fun v hv => hc v (List.mem_cons_of_mem w hv)
    by_cases hlater : ∃ v ∈ ws, v.1 = p
    · exact ih hrest hc' hlater
    · have hw : w.1 = p := by
        obtain ⟨v, hv, hvp⟩ := hp
        rcases List.mem_cons.mp hv with rfl | hv
        · exact hvp
        · exact absurd ⟨v, hv, hvp⟩ hlater
      rw [paint_untouched hrest fun v hv hvp => hlater ⟨v, hv, hvp⟩, mark_getElem? hmid,
        if_pos hw, hc w (List.mem_cons_self ..) hw]

/-! ## Marks of a picture -/

theorem marks_append (pos : Nat → Nat) (k : Nat) (cs ds : List α) :
    marks pos k (cs ++ ds) = marks pos k cs ++ marks pos (k + cs.length) ds := by
  induction cs generalizing k with
  | nil => rfl
  | cons c cs ih =>
    rw [List.cons_append, marks, ih, marks, List.cons_append, List.length_cons,
      Nat.add_right_comm k 1, Nat.add_assoc k]

theorem mem_marks {w : Nat × α} (h : w ∈ marks pos k cs) :
    ∃ j, k ≤ j ∧ j < k + cs.length ∧ w.1 = pos j ∧ w.2 ∈ cs := by
  induction cs generalizing k with
  | nil => simp [marks] at h
  | cons c cs ih =>
    rcases List.mem_cons.mp h with rfl | h
    · exact ⟨k, Nat.le_refl k, by simp, rfl, List.mem_cons_self ..⟩
    · obtain ⟨j, hkj, hj, hw, hmem⟩ := ih h
      exact ⟨j, by omega, by rw [List.length_cons]; omega, hw, List.mem_cons_of_mem c hmem⟩

theorem exists_mem_marks (pos : Nat → Nat) {j : Nat} (hk : k ≤ j) (hj : j < k + cs.length) :
    ∃ w ∈ marks pos k cs, w.1 = pos j := by
  induction cs generalizing k with
  | nil =>
    rw [List.length_nil] at hj
    omega
  | cons c cs ih =>
    by_cases hkj : k = j
    · exact ⟨(pos k, c), List.mem_cons_self .., congrArg pos hkj⟩
    · obtain ⟨w, hw, hwj⟩ := ih (k := k + 1) (by omega) (by rw [List.length_cons] at hj; omega)
      exact ⟨w, List.mem_cons_of_mem _ hw, hwj⟩

/-- A mark carries the colour of its index. -/
theorem mem_marks_getElem? {w : Nat × α} (h : w ∈ marks pos k cs) :
    ∃ j, w.1 = pos (k + j) ∧ cs[j]? = some w.2 := by
  induction cs generalizing k with
  | nil => simp [marks] at h
  | cons c cs ih =>
    rcases List.mem_cons.mp h with rfl | h
    · exact ⟨0, rfl, rfl⟩
    · obtain ⟨j, hw, hc⟩ := ih h
      exact ⟨j + 1, by rw [hw, Nat.add_assoc, Nat.add_comm 1], hc⟩

/-- A picture whose colours go to different places can be read there. -/
theorem paint_marks_getElem? (h : paint buf (marks pos 0 cs) = some out)
    (hinj : ∀ i j, i < cs.length → j < cs.length → pos i = pos j → i = j) {j : Nat}
    (hj : j < cs.length) : out[pos j]? = cs[j]? := by
  rw [List.getElem?_eq_getElem hj]
  apply paint_color h
  · intro w hw hpos
    obtain ⟨i, hi, hc⟩ := mem_marks_getElem? hw
    obtain ⟨hlt, hval⟩ := List.getElem?_eq_some_iff.mp hc
    rw [Nat.zero_add] at hi
    obtain rfl := hinj i j hlt hj (hi.symm.trans hpos)
    exact hval.symm
  · exact exists_mem_marks pos (Nat.zero_le j) (by omega)

theorem marks_congr (h : ∀ j, k ≤ j → j < k + cs.length → pos j = pos' j) :
    marks pos k cs = marks pos' k cs := by
  induction cs generalizing k with
  | nil => rfl
  | cons c cs ih =>
    rw [List.length_cons] at h
    rw [marks, marks, h k (Nat.le_refl k) (by omega), ih fun j hk hj => h j (by omega) (by omega)]

/-- A picture is painted one colour after the other. -/
theorem paint_marks_succ (buf : Vector α n) (pos : Nat → Nat) {j : Nat} (hj : cs[j]? = some c) :
    paint buf (marks pos 0 (cs.take (j + 1))) =
      (paint buf (marks pos 0 (cs.take j))).bind fun buf => mark buf (pos j, c) := by
  obtain ⟨hlt, hc⟩ := List.getElem?_eq_some_iff.mp hj
  rw [List.take_succ_eq_append_getElem hlt, hc, marks_append, paint_append, List.length_take,
    Nat.min_eq_left (by omega), Nat.zero_add, marks, marks]
  simp only [paint_singleton]

end MyLibraries.Paint
