import Mathlib.Data.List.Perm.Basic
import Mathlib.Data.List.Nodup

/-!
# Visiting the leaves of a binary trie

A set of rows, told apart by their bits, is a binary trie: at every bit the rows either
agree (`one`) or part (`two`). A visit goes down from the root; where rows part it takes
the next decision from a list, and `false` when the list is used up. It ends at a leaf and
has taken certain decisions; `turn` turns the last `false` of these into `true` and drops
what follows, which is where the next visit goes. `visits_leaves` says that the visits
from the empty list on, each turned into the next, come to every leaf, in order and once.

`Splits` connects a trie with its rows: it is what one sees who asks the rows for their
bits one by one.
-/

namespace MyLibraries.BitTrie

/-- A binary trie; at `two` the rows part, at `one` they agree. -/
inductive Trie (ρ : Type)
  | leaf (r : ρ)
  | one (t : Trie ρ)
  | two (t₀ t₁ : Trie ρ)

variable {ρ : Type} {t : Trie ρ} {ds ds' tk : List Bool} {rs : List ρ}

/-- The rows from left to right. -/
def Trie.leaves : Trie ρ → List ρ
  | .leaf r => [r]
  | .one t => t.leaves
  | .two t₀ t₁ => t₀.leaves ++ t₁.leaves

/-- The leaf of a visit and the decisions it takes. -/
def Trie.visit : Trie ρ → List Bool → ρ × List Bool
  | .leaf r, _ => (r, [])
  | .one t, ds => t.visit ds
  | .two t₀ t₁, ds =>
    if ds.headD false then ((t₁.visit ds.tail).1, true :: (t₁.visit ds.tail).2)
    else ((t₀.visit ds.tail).1, false :: (t₀.visit ds.tail).2)

/-- The last `false` turned into `true`, without what follows. -/
def turn : List Bool → Option (List Bool)
  | [] => none
  | d :: ds =>
    match turn ds with
    | some ds' => some (d :: ds')
    | none => if d then none else some [true]

/-- The leaves that the visits from `ds` on come to. -/
inductive Visits (t : Trie ρ) : List Bool → List ρ → Prop
  | last {ds : List Bool} : turn (t.visit ds).2 = none → Visits t ds [(t.visit ds).1]
  | next {ds ds' : List Bool} {rs : List ρ} : turn (t.visit ds).2 = some ds' →
      Visits t ds' rs → Visits t ds ((t.visit ds).1 :: rs)

/-! ## One visit -/

theorem leaves_pos (t : Trie ρ) : 0 < t.leaves.length := by
  induction t with
  | leaf r => exact Nat.one_pos
  | one t ih => exact ih
  | two t₀ t₁ ih₀ _ =>
    rw [Trie.leaves, List.length_append]
    omega

/-- Where the rows part, the visit takes the next decision. -/
theorem visit_two (t₀ t₁ : Trie ρ) (ds : List Bool) : (Trie.two t₀ t₁).visit ds =
    (((if ds.headD false then t₁ else t₀).visit ds.tail).1,
      ds.headD false :: ((if ds.headD false then t₁ else t₀).visit ds.tail).2) := by
  rw [Trie.visit]
  cases ds.headD false with
  | true => rfl
  | false => rfl

/-- There are fewer decisions than leaves. -/
theorem visit_length (t : Trie ρ) (ds : List Bool) :
    (t.visit ds).2.length < t.leaves.length := by
  induction t generalizing ds with
  | leaf r => exact Nat.one_pos
  | one t ih => exact ih ds
  | two t₀ t₁ ih₀ ih₁ =>
    have h₀ := leaves_pos t₀
    have h₁ := leaves_pos t₁
    have hv₀ := ih₀ ds.tail
    have hv₁ := ih₁ ds.tail
    rw [Trie.leaves, List.length_append, Trie.visit]
    split
    · rw [List.length_cons]
      omega
    · rw [List.length_cons]
      omega

theorem turn_cons_some {d : Bool} (h : turn ds = some ds') : turn (d :: ds) = some (d :: ds') := by
  rw [turn, h]

theorem turn_true_none (h : turn ds = none) : turn (true :: ds) = none := by
  rw [turn, h]
  rfl

theorem turn_false_none (h : turn ds = none) : turn (false :: ds) = some [true] := by
  rw [turn, h]
  rfl

/-- A decision for `true` at the end is not turned. -/
theorem turn_append_true (tk : List Bool) : turn (tk ++ [true]) = turn tk := by
  induction tk with
  | nil => rfl
  | cons d tk ih => rw [List.cons_append, turn, turn, ih]

/-- A decision for `false` at the end is the one that is turned. -/
theorem turn_append_false (tk : List Bool) : turn (tk ++ [false]) = some (tk ++ [true]) := by
  induction tk with
  | nil => rfl
  | cons d tk ih => rw [List.cons_append, turn_cons_some ih, List.cons_append]

theorem true_mem_turn (h : turn tk = some ds) : true ∈ ds ∧ ds.length ≤ tk.length := by
  induction tk generalizing ds with
  | nil => cases h
  | cons d tk ih =>
    cases htk : turn tk with
    | some ds' =>
      obtain rfl := Option.some.inj ((turn_cons_some htk).symm.trans h)
      obtain ⟨hmem, hlen⟩ := ih htk
      exact ⟨List.mem_cons_of_mem _ hmem, Nat.succ_le_succ hlen⟩
    | none =>
      cases d with
      | true =>
        rw [turn_true_none htk] at h
        cases h
      | false =>
        rw [turn_false_none htk] at h
        obtain rfl := Option.some.inj h
        exact ⟨List.mem_cons_self, Nat.succ_le_succ (Nat.zero_le _)⟩

/-! ## All visits -/

theorem Visits.one (h : Visits t ds rs) : Visits (.one t) ds rs := by
  induction h with
  | last hlast => exact Visits.last (t := .one t) hlast
  | next hnext _ ih => exact Visits.next (t := .one t) hnext ih

theorem Visits.right {t₀ : Trie ρ} (h : Visits t ds rs) : Visits (.two t₀ t) (true :: ds) rs := by
  induction h with
  | last hlast => exact Visits.last (t := .two t₀ t) (turn_true_none hlast)
  | next hnext _ ih => exact Visits.next (t := .two t₀ t) (turn_cons_some hnext) ih

/-- After the leaves of the left subtree come those of the right one. -/
theorem Visits.left {t₁ : Trie ρ} {rs₁ : List ρ} (h : Visits t ds rs)
    (hright : Visits (.two t t₁) [true] rs₁) : Visits (.two t t₁) (false :: ds) (rs ++ rs₁) := by
  induction h with
  | last hlast => exact Visits.next (t := .two t t₁) (turn_false_none hlast) hright
  | next hnext _ ih => exact Visits.next (t := .two t t₁) (turn_cons_some hnext) ih

/-- The empty list of decisions is as good as `false`. -/
theorem Visits.from_nil {t₀ t₁ : Trie ρ} (h : Visits (.two t₀ t₁) [false] rs) :
    Visits (.two t₀ t₁) [] rs := by
  cases h with
  | last hlast => exact Visits.last (t := .two t₀ t₁) hlast
  | next hnext hrest => exact Visits.next (t := .two t₀ t₁) hnext hrest

/-- **The visits come to every leaf once.** -/
theorem visits_leaves (t : Trie ρ) : Visits t [] t.leaves := by
  induction t with
  | leaf r => exact Visits.last (t := .leaf r) rfl
  | one t ih => exact ih.one
  | two t₀ t₁ ih₀ ih₁ => exact (ih₀.left ih₁.right).from_nil

/-! ## The trie of a list of rows -/

/-- The trie of the rows by their bits from `i` on, `n` of them. -/
inductive Splits (bit : ρ → Nat → Bool) : Nat → Nat → List ρ → Trie ρ → Prop
  | leaf (i : Nat) (r : ρ) : Splits bit 0 i [r] (.leaf r)
  | one {n i : Nat} {rows : List ρ} {t : Trie ρ} (b : Bool) : (∀ r ∈ rows, bit r i = b) →
      rows ≠ [] → Splits bit n (i + 1) rows t → Splits bit (n + 1) i rows (.one t)
  | two {n i : Nat} {rows : List ρ} {t₀ t₁ : Trie ρ} :
      Splits bit n (i + 1) (rows.filter fun r => bit r i = false) t₀ →
      Splits bit n (i + 1) (rows.filter fun r => bit r i = true) t₁ →
      Splits bit (n + 1) i rows (.two t₀ t₁)

variable {bit : ρ → Nat → Bool} {n i : Nat} {rows : List ρ}

theorem filter_bits_perm (rows : List ρ) (i : Nat) :
    ((rows.filter fun r => bit r i = false) ++ rows.filter fun r => bit r i = true).Perm rows := by
  have hnot : (fun r => decide (bit r i = true)) = fun r => !decide (bit r i = false) := by
    funext r
    cases bit r i <;> rfl
  rw [hnot]
  exact List.filter_append_perm _ _

theorem Splits.perm (h : Splits bit n i rows t) : t.leaves.Perm rows := by
  induction h with
  | leaf i r => exact List.Perm.refl _
  | one b _ _ _ ih => exact ih
  | two _ _ ih₀ ih₁ => exact (ih₀.append ih₁).trans (filter_bits_perm _ _)

theorem Splits.ne_nil (h : Splits bit n i rows t) : rows ≠ [] := by
  have hlen := h.perm.length_eq
  have hpos := leaves_pos t
  rintro rfl
  rw [List.length_nil] at hlen
  omega

/-- Rows that their bits tell apart have a trie. -/
theorem splits_exists (hne : rows ≠ []) (hnodup : rows.Nodup)
    (hapart : ∀ r ∈ rows, ∀ r' ∈ rows,
      (∀ j, i ≤ j → j < i + n → bit r j = bit r' j) → r = r') :
    ∃ t, Splits bit n i rows t := by
  induction n generalizing i rows with
  | zero =>
    obtain ⟨r, rows, rfl⟩ := List.exists_cons_of_ne_nil hne
    obtain rfl : rows = [] := by
      rw [List.eq_nil_iff_forall_not_mem]
      intro r' hr'
      have heq := hapart r List.mem_cons_self r' (List.mem_cons_of_mem _ hr')
        (fun j hj hj' => by omega)
      exact (List.nodup_cons.mp hnodup).1 (heq ▸ hr')
    exact ⟨.leaf r, Splits.leaf i r⟩
  | succ n ih =>
    -- rows that agree in bit `i` are told apart by the bits behind it
    have hsub : ∀ (b : Bool) (rows' : List ρ), rows' ≠ [] → rows'.Nodup →
        (∀ r ∈ rows', r ∈ rows ∧ bit r i = b) → ∃ t, Splits bit n (i + 1) rows' t := by
      intro b rows' hne' hnodup' hrows'
      refine ih hne' hnodup' ?_
      intro r hr r' hr' hbits
      refine hapart r (hrows' r hr).1 r' (hrows' r' hr').1 ?_
      intro j hj hj'
      by_cases hji : j = i
      · rw [hji, (hrows' r hr).2, (hrows' r' hr').2]
      · exact hbits j (by omega) (by omega)
    by_cases hall : ∃ b, ∀ r ∈ rows, bit r i = b
    · obtain ⟨b, hb⟩ := hall
      obtain ⟨t, ht⟩ := hsub b rows hne hnodup (fun r hr => ⟨hr, hb r hr⟩)
      exact ⟨.one t, Splits.one b hb hne ht⟩
    · have hsome : ∀ b, rows.filter (fun r => bit r i = b) ≠ [] := by
        intro b hnil
        refine hall ⟨!b, fun r hr => ?_⟩
        have hnone := List.filter_eq_nil_iff.mp hnil r hr
        revert hnone
        cases b <;> cases bit r i <;> simp
      have hpart : ∀ b, ∃ t, Splits bit n (i + 1) (rows.filter fun r => bit r i = b) t := by
        intro b
        refine hsub b _ (hsome b) (hnodup.filter _) ?_
        intro r hr
        simpa using hr
      obtain ⟨t₀, ht₀⟩ := hpart false
      obtain ⟨t₁, ht₁⟩ := hpart true
      exact ⟨.two t₀ t₁, Splits.two ht₀ ht₁⟩

end MyLibraries.BitTrie
