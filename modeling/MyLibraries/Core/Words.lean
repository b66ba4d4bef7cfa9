import MyLibraries.Core.Memory

/-!
# Texts cut into words

A text cut at each separator is a list of words, one more than it has separators, none of
which holds one (`split_induction`). In a memory, words with a terminator each lie behind
one another; `starts` says where each of them begins.
-/

namespace MyLibraries.Words

open Memory

section Cut

variable {α : Type} [DecidableEq α] {sep : α} {l w rest : List α}

/-- Induction along the separators of a text. -/
theorem split_induction (sep : α) {P : List α → Prop} (last : ∀ w, sep ∉ w → P w)
    (cut : ∀ w rest, sep ∉ w → P rest → P (w ++ sep :: rest)) (l : List α) : P l := by
  induction hn : l.length using Nat.strongRecOn generalizing l with
  | ind n ih =>
    by_cases h : sep ∈ l
    · obtain ⟨w, rest, rfl, hw⟩ := List.eq_append_cons_of_mem h
      apply cut w rest hw
      refine ih rest.length ?_ rest rfl
      rw [← hn, List.length_append, List.length_cons]
      omega
    · exact last l h

theorem splitOn_cut (h : sep ∉ w) (rest : List α) :
    (w ++ sep :: rest).splitOn sep = w :: rest.splitOn sep :=
  List.splitOn_append_cons_self_of_not_mem h rest

theorem count_cut (h : sep ∉ w) (rest : List α) :
    (w ++ sep :: rest).count sep = rest.count sep + 1 := by
  rw [List.count_append, List.count_eq_zero.mpr h, List.count_cons_self, Nat.zero_add]

theorem splitOn_length (sep : α) (l : List α) : (l.splitOn sep).length = l.count sep + 1 := by
  induction l using split_induction sep with
  | last w h => rw [List.splitOn_eq_singleton h, List.count_eq_zero.mpr h, List.length_singleton]
  | cut w rest h ih => rw [splitOn_cut h, count_cut h, List.length_cons, ih]

theorem sep_notMem_of_mem_splitOn (h : w ∈ l.splitOn sep) : sep ∉ w := by
  induction l using split_induction sep with
  | last v hv =>
    rw [List.splitOn_eq_singleton hv, List.mem_singleton] at h
    exact h ▸ hv
  | cut v rest hv ih =>
    rw [splitOn_cut hv, List.mem_cons] at h
    rcases h with rfl | h
    · exact hv
    · exact ih h

/-- The words hold elements of the text only. -/
theorem mem_of_mem_splitOn {a : α} (h : w ∈ l.splitOn sep) (ha : a ∈ w) : a ∈ l := by
  induction l using split_induction sep with
  | last v hv =>
    rw [List.splitOn_eq_singleton hv, List.mem_singleton] at h
    exact h ▸ ha
  | cut v rest hv ih =>
    rw [splitOn_cut hv, List.mem_cons] at h
    rcases h with rfl | h
    · exact List.mem_append_left _ ha
    · exact List.mem_append_right _ (List.mem_cons_of_mem _ (ih h))

/-- The first word is what stands before the first separator. -/
theorem splitOn_eq_cons (l : List α) :
    ∃ args, l.splitOn sep = l.takeWhile (· ≠ sep) :: args := by
  have hbefore {w : List α} (h : sep ∉ w) : ∀ a ∈ w, decide (a ≠ sep) = true := fun a ha =>
    decide_eq_true fun heq => h (heq ▸ ha)
  by_cases h : sep ∈ l
  · obtain ⟨w, rest, rfl, hw⟩ := List.eq_append_cons_of_mem h
    refine ⟨rest.splitOn sep, ?_⟩
    rw [splitOn_cut hw, List.takeWhile_append_of_pos (hbefore hw)]
    simp
  · refine ⟨[], ?_⟩
    rw [List.splitOn_eq_singleton h, List.takeWhile_eq_self_iff.mpr (hbefore h)]

end Cut

/-! ## Words in a memory -/

/-- The words with a terminator each, one behind the other. -/
def image (words : List (List UInt8)) : List UInt8 := words.flatMap (· ++ [0])

/-- Where each of the words begins. -/
def starts : Nat → List (List UInt8) → List Nat
  | _, [] => []
  | p, w :: words => p :: starts (p + w.length + 1) words

variable {m : Mem} {p : Nat} {w : List UInt8} {words : List (List UInt8)}

theorem at_image_cons :
    At m p (image (w :: words)) ↔ At m p (w ++ [0]) ∧ At m (p + w.length + 1) (image words) := by
  unfold image
  rw [List.flatMap_cons, at_append, List.length_append, List.length_singleton, Nat.add_assoc]

/-- **Every word is read back** where it begins. -/
theorem mapM_loadString (h : At m p (image words)) (hw : ∀ w ∈ words, 0 ∉ w) :
    (starts p words).mapM (loadString m) = some words := by
  induction words generalizing p with
  | nil => rfl
  | cons w words ih =>
    obtain ⟨hfirst, hrest⟩ := at_image_cons.mp h
    obtain ⟨hzero, hothers⟩ := List.forall_mem_cons.mp hw
    rw [starts, List.mapM_cons, loadString_of_at hzero hfirst, ih hrest hothers]
    rfl

end MyLibraries.Words
