import Mathlib.Data.List.Nodup

/-!
# Ordered tables with unique keys

A table is a list of entries whose keys are pairwise distinct; the distinctness is a
field, so every operation below returns a table. The order of the entries is part of the
table: `insert` appends, `erase` closes the gap and `replace` keeps the place.
-/

namespace MyLibraries

/-- Entries in order, no two with one key. -/
structure Table {ε κ : Type} (key : ε → κ) where
  entries : List ε
  nodup : (entries.map key).Nodup

namespace Table

variable {ε κ : Type} {key : ε → κ} {t : Table key} {k l : κ} {e x : ε}

@[ext] theorem ext {t u : Table key} (h : t.entries = u.entries) : t = u := by
  cases t
  cases u
  cases h
  rfl

/-- The table without entries. -/
def empty (key : ε → κ) : Table key := ⟨[], List.nodup_nil⟩

section Operations

variable [DecidableEq κ]

/-- The entry stored under a key. -/
def lookup (t : Table key) (k : κ) : Option ε := t.entries.find? fun e => key e = k

/-- Append an entry under a new key. -/
def insert (t : Table key) (e : ε) (h : t.lookup (key e) = none) : Table key where
  entries := t.entries ++ [e]
  nodup := by
    rw [List.map_append, List.map_singleton, List.nodup_append]
    refine ⟨t.nodup, List.nodup_singleton _, ?_⟩
    rintro k hk _ hk' rfl
    obtain ⟨y, hy, hyk⟩ := List.mem_map.mp hk
    have := List.find?_eq_none.mp h y hy
    simp_all

/-- Remove the entry of a key. -/
def erase (t : Table key) (k : κ) : Table key where
  entries := t.entries.filter fun e => key e ≠ k
  nodup := t.nodup.sublist (List.filter_sublist.map key)

/-- Put `e` in the place of the entry with its key. -/
def replace (t : Table key) (e : ε) : Table key where
  entries := t.entries.map fun x => if key x = key e then e else x
  nodup := by
    have h : (t.entries.map fun x => if key x = key e then e else x).map key =
        t.entries.map key := by
      rw [List.map_map]
      apply List.map_congr_left
      intro x _
      simp only [Function.comp_apply]
      split <;> simp_all
    rw [h]
    exact t.nodup

theorem lookup_eq_none : t.lookup k = none ↔ ∀ e ∈ t.entries, key e ≠ k := by
  simp [lookup]

/-- Where the entry of a key stands. -/
theorem lookup_split (h : t.lookup k = some e) :
    ∃ pre post, t.entries = pre ++ e :: post ∧ key e = k ∧
      (∀ x ∈ pre, key x ≠ k) ∧ ∀ x ∈ post, key x ≠ k := by
  obtain ⟨hk, pre, post, hs, hpre⟩ := List.find?_eq_some_iff_append.mp h
  have hk' : key e = k := of_decide_eq_true hk
  refine ⟨pre, post, hs, hk', by simpa using hpre, fun x hx hxk => ?_⟩
  have hnd := t.nodup
  rw [hs, List.map_append, List.map_cons, List.nodup_append, List.nodup_cons] at hnd
  exact hnd.2.1.1 (hk' ▸ hxk ▸ List.mem_map_of_mem hx)

theorem lookup_of_mem (h : e ∈ t.entries) : t.lookup (key e) = some e := by
  cases hl : t.lookup (key e) with
  | none => exact absurd rfl (lookup_eq_none.mp hl e h)
  | some x =>
    obtain ⟨pre, post, hs, -, hpre, hpost⟩ := lookup_split hl
    rw [hs, List.mem_append, List.mem_cons] at h
    rcases h with h | rfl | h
    · exact absurd rfl (hpre e h)
    · rfl
    · exact absurd rfl (hpost e h)

theorem lookup_mem (h : t.lookup k = some e) : e ∈ t.entries ∧ key e = k := by
  obtain ⟨pre, post, hs, hk, -⟩ := lookup_split h
  exact ⟨by rw [hs]; simp, hk⟩

@[simp] theorem lookup_empty : (empty key).lookup k = none := rfl

theorem lookup_insert (h : t.lookup (key e) = none) :
    (t.insert e h).lookup k = if key e = k then some e else t.lookup k := by
  simp only [lookup, insert, List.find?_append]
  by_cases hk : key e = k
  · subst hk
    rw [if_pos rfl]
    change (t.lookup (key e)).or _ = _
    rw [h]
    simp
  · simp [hk]

theorem lookup_erase : (t.erase k).lookup l = if l = k then none else t.lookup l := by
  by_cases hl : l = k
  · subst hl
    rw [if_pos rfl, lookup_eq_none]
    intro e he
    simpa using (List.mem_filter.mp he).2
  · rw [if_neg hl]
    simp only [lookup, erase, List.find?_filter]
    congr 1
    funext e
    by_cases he : key e = l
    · simp [he, hl]
    · simp [he]

theorem lookup_replace :
    (t.replace e).lookup k =
      if key e = k then (t.lookup k).map fun _ => e else t.lookup k := by
  simp only [lookup, replace, List.find?_map]
  by_cases hk : key e = k
  · subst hk
    rw [if_pos rfl]
    have hf : ((fun x => decide (key x = key e)) ∘ fun x => if key x = key e then e else x) =
        fun x => decide (key x = key e) := by
      funext x
      simp only [Function.comp_apply]
      split <;> simp_all
    rw [hf]
    cases hl : t.entries.find? fun x => key x = key e with
    | none => rfl
    | some x =>
      have hx := List.find?_some hl
      simp_all
  · rw [if_neg hk]
    have hf : ((fun x => decide (key x = k)) ∘ fun x => if key x = key e then e else x) =
        fun x => decide (key x = k) := by
      funext x
      simp only [Function.comp_apply]
      split
      · rename_i hx
        simp [hx]
      · rfl
    rw [hf]
    cases hl : t.entries.find? fun x => key x = k with
    | none => rfl
    | some x =>
      have hx : key x = k := by simpa using List.find?_some hl
      rw [Option.map_some, if_neg]
      exact fun h => hk (h.symm.trans hx)

theorem erase_of_absent (h : t.lookup k = none) : t.erase k = t := by
  apply Table.ext
  simp only [erase, List.filter_eq_self]
  intro e he
  simpa using lookup_eq_none.mp h e he

/-- Erasing closes the gap at the place of the key. -/
theorem erase_entries {pre post : List ε} (hs : t.entries = pre ++ e :: post)
    (hk : key e = k) (hpre : ∀ x ∈ pre, key x ≠ k) (hpost : ∀ x ∈ post, key x ≠ k) :
    (t.erase k).entries = pre ++ post := by
  have hfilter : ∀ l : List ε, (∀ x ∈ l, key x ≠ k) →
      l.filter (fun e => decide (key e ≠ k)) = l := by
    intro l hl
    rw [List.filter_eq_self]
    intro x hx
    simpa using hl x hx
  simp only [erase, hs, List.filter_append, List.filter_cons]
  rw [hfilter pre hpre, hfilter post hpost]
  simp [hk]

/-- Replacing changes the one entry at the place of the key. -/
theorem replace_entries {pre post : List ε} (hs : t.entries = pre ++ x :: post)
    (hk : key x = key e) (hpre : ∀ y ∈ pre, key y ≠ key e)
    (hpost : ∀ y ∈ post, key y ≠ key e) : (t.replace e).entries = pre ++ e :: post := by
  have hmap : ∀ l : List ε, (∀ y ∈ l, key y ≠ key e) →
      l.map (fun y => if key y = key e then e else y) = l := by
    intro l hl
    conv_rhs => rw [← List.map_id l]
    apply List.map_congr_left
    intro y hy
    simp [hl y hy]
  simp only [replace, hs, List.map_append, List.map_cons, if_pos hk]
  rw [hmap pre hpre, hmap post hpost]

end Operations

end Table

end MyLibraries
