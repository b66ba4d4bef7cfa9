import Mathlib.Data.List.Basic

/-!
# Loops that keep a log

A loop whose passes append one entry each to a log, or fail. A loop of such loops is one loop
over the pairs of their indices (`foldlM_pairs`), and its log holds the right entries exactly
when every pass computes the right one (`mapM_eq_some_map_iff`).
-/

namespace MyLibraries.Log

variable {α β γ σ : Type} {f : α → Option β} {g : α → β} {xs : List α} {m n i j : Nat}

theorem mapM_eq_some_map_iff : xs.mapM f = some (xs.map g) ↔ ∀ x ∈ xs, f x = some (g x) := by
  induction xs with
  | nil => simp
  | cons x xs ih =>
    rw [List.mapM_cons, List.map_cons, List.forall_mem_cons, ← ih]
    cases f x with
    | none => simp
    | some y =>
      cases xs.mapM f with
      | none => simp
      | some ys => simp

/-- The log of a loop behind what was in it before. -/
theorem foldlM_log (f : α → Option β) (entry : β → γ) (xs : List α) (log : List γ) :
    xs.foldlM (fun log x => (f x).map fun y => log ++ [entry y]) log =
      (xs.mapM f).map fun ys => log ++ ys.map entry := by
  induction xs generalizing log with
  | nil => simp
  | cons x xs ih =>
    rw [List.foldlM_cons, List.mapM_cons]
    cases f x with
    | none => rfl
    | some y =>
      refine (ih _).trans ?_
      cases xs.mapM f with
      | none => rfl
      | some ys =>
        show some (log ++ [entry y] ++ ys.map entry) = some (log ++ entry y :: ys.map entry)
        rw [List.append_assoc, List.singleton_append]

theorem length_of_mapM {ys : List β} (h : xs.mapM f = some ys) : ys.length = xs.length := by
  induction xs generalizing ys with
  | nil =>
    cases h
    rfl
  | cons x xs ih =>
    rw [List.mapM_cons] at h
    obtain ⟨y, _, hrest⟩ := Option.bind_eq_some_iff.mp h
    obtain ⟨zs, hzs, hend⟩ := Option.bind_eq_some_iff.mp hrest
    cases hend
    rw [List.length_cons, List.length_cons, ih hzs]

/-- The loop that reads the first `n` elements of a list. -/
theorem mapM_getElem?_range (l : List α) (n : Nat) :
    (List.range n).mapM (fun i => l[i]?) = if n ≤ l.length then some (l.take n) else none := by
  induction n with
  | zero => rfl
  | succ n ih =>
    rw [List.range_succ, List.mapM_append, ih]
    by_cases h : n + 1 ≤ l.length
    · rw [if_pos (Nat.le_of_succ_le h), if_pos h, List.take_add_one, List.mapM_cons,
        List.getElem?_eq_getElem h]
      rfl
    · rw [if_neg h, List.mapM_cons, List.getElem?_eq_none (by omega)]
      split <;> rfl

/-- Two logs, one behind the other, when the length of the first is known. -/
theorem append_eq_some_iff {x y : Option (List β)} {ys zs : List β}
    (hlen : ∀ cs, x = some cs → cs.length = ys.length) :
    (x.bind fun cs => y.map fun ds => cs ++ ds) = some (ys ++ zs) ↔
      x = some ys ∧ y = some zs := by
  constructor
  · intro h
    obtain ⟨cs, hcs, hrest⟩ := Option.bind_eq_some_iff.mp h
    obtain ⟨ds, hds, happend⟩ := Option.map_eq_some_iff.mp hrest
    obtain ⟨rfl, rfl⟩ := List.append_inj happend (hlen cs hcs)
    exact ⟨hcs, hds⟩
  · rintro ⟨rfl, rfl⟩
    rfl

/-! ## Two indices -/

/-- The pairs of the indices of two loops, in their order. -/
def pairs (m n : Nat) : List (Nat × Nat) :=
  (List.range m).flatMap fun i => (List.range n).map fun j => (i, j)

theorem mem_pairs {p : Nat × Nat} : p ∈ pairs m n ↔ p.1 < m ∧ p.2 < n := by
  obtain ⟨i, j⟩ := p
  simp [pairs]

theorem foldlM_pairs (f : σ → Nat × Nat → Option σ) (s : σ) :
    (List.range m).foldlM (fun s i => (List.range n).foldlM (fun s j => f s (i, j)) s) s =
      (pairs m n).foldlM f s := by
  rw [pairs]
  generalize List.range m = is
  induction is generalizing s with
  | nil => rfl
  | cons i is ih =>
    rw [List.foldlM_cons, List.flatMap_cons, List.foldlM_append, List.foldlM_map]
    exact congrArg _ (funext ih)

theorem length_pairs : (pairs m n).length = m * n := by
  rw [pairs, List.length_flatMap]
  simp

theorem pairs_succ : pairs (m + 1) n = pairs m n ++ (List.range n).map fun j => (m, j) := by
  rw [pairs, List.range_succ, List.flatMap_append, List.flatMap_singleton]
  rfl

/-- The place of a pair. -/
theorem pairs_getElem? (hi : i < m) (hj : j < n) : (pairs m n)[i * n + j]? = some (i, j) := by
  induction m with
  | zero => omega
  | succ m ih =>
    rw [pairs_succ]
    rcases Nat.lt_or_ge i m with hlt | hge
    · have hrow := Nat.mul_le_mul_right n hlt
      rw [Nat.succ_mul] at hrow
      rw [List.getElem?_append_left (by rw [length_pairs]; omega), ih hlt]
    · obtain rfl : i = m := by omega
      rw [List.getElem?_append_right (by rw [length_pairs]; omega), length_pairs,
        Nat.add_sub_cancel_left, List.getElem?_map, List.getElem?_range hj]
      rfl

/-- A list with one entry for each pair, at its place, is the list of the entries. -/
theorem eq_map_pairs_iff {ys : List β} (g : Nat × Nat → β) :
    ys = (pairs m n).map g ↔
      ys.length = m * n ∧ ∀ i j, i < m → j < n → ys[i * n + j]? = some (g (i, j)) := by
  constructor
  · rintro rfl
    refine ⟨by rw [List.length_map, length_pairs], fun i j hi hj => ?_⟩
    rw [List.getElem?_map, pairs_getElem? hi hj]
    rfl
  · rintro ⟨hlen, hget⟩
    apply List.ext_getElem?
    intro k
    by_cases hk : k < m * n
    · have hn : 0 < n := Nat.pos_of_ne_zero fun h0 => by
        rw [h0, Nat.mul_zero] at hk
        omega
      have hi : k / n < m := Nat.div_lt_of_lt_mul (by rwa [Nat.mul_comm])
      have hj := Nat.mod_lt k hn
      have hplace : k / n * n + k % n = k := Nat.div_add_mod' k n
      rw [← hplace, hget _ _ hi hj, List.getElem?_map, pairs_getElem? hi hj]
      rfl
    · rw [List.getElem?_eq_none (by omega),
        List.getElem?_eq_none (by rw [List.length_map, length_pairs]; omega)]

end MyLibraries.Log
