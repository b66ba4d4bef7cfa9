import Mathlib.Logic.Function.Basic

/-!
# A heap with one block at a time

`malloc` hands out a block that was never handed out before, so a pointer to a block that
has been freed stays dangling: it reaches nothing, and it cannot be freed again. A program
that frees its block before it asks for the next one has at most one block, and
`Sole h p` says that `p` is the pointer to it, or `NULL`.
-/

namespace MyLibraries.Alloc

variable {α : Type}

/-- A pointer: `NULL`, or a block. -/
abbrev Ptr := Option Nat

/-- The contents of the blocks that have not been freed. -/
structure Heap (α : Type) where
  block : Nat → Option α
  next : Nat

def Heap.empty : Heap α := ⟨fun _ => none, 0⟩

/-- Hand out the block `h.next`. -/
def Heap.malloc (h : Heap α) (a : α) : Heap α :=
  ⟨Function.update h.block h.next (some a), h.next + 1⟩

/-- What a pointer reaches. -/
def Heap.deref (h : Heap α) (p : Ptr) : Option α := p.bind h.block

/-- Overwrite a block. -/
def Heap.fill (h : Heap α) (b : Nat) (a : α) : Heap α :=
  ⟨Function.update h.block b (some a), h.next⟩

/-- `free`: nothing happens to `NULL`, and a dangling pointer is a fault. -/
def Heap.free (h : Heap α) : Ptr → Option (Heap α)
  | none => some h
  | some b => (h.block b).map fun _ => ⟨Function.update h.block b none, h.next⟩

/-- The block of `p` is the one that has not been freed, and there is none when `p` is
`NULL`. -/
structure Sole (h : Heap α) (p : Ptr) : Prop where
  live_iff : ∀ b, h.block b ≠ none ↔ p = some b
  lt_next : ∀ b, p = some b → b < h.next

variable {h h' : Heap α} {p q : Ptr} {a : α} {b : Nat}

theorem sole_empty : Sole (Heap.empty : Heap α) none := by
  constructor
  · intro b
    constructor
    · intro hb
      exact absurd rfl hb
    · intro hb
      cases hb
  · intro b hb
    cases hb

/-- Everything but the one block is dangling. -/
theorem Sole.deref_ne (hs : Sole h p) (hq : q = none ∨ q ≠ p) : h.deref q = none := by
  cases q with
  | none => rfl
  | some b =>
    by_contra hb
    rcases hq with hq | hq
    · cases hq
    · exact hq ((hs.live_iff b).mp hb).symm

theorem Sole.deref_some (hs : Sole h p) (hp : p ≠ none) : ∃ a, h.deref p = some a := by
  cases p with
  | none => exact absurd rfl hp
  | some b => exact Option.ne_none_iff_exists'.mp ((hs.live_iff b).mpr rfl)

theorem Sole.malloc (hs : Sole h none) (a : α) : Sole (h.malloc a) (some h.next) := by
  constructor
  · intro b
    unfold Heap.malloc
    by_cases hb : b = h.next
    · subst hb
      simp only [Function.update_self]
      exact iff_of_true (Option.some_ne_none a) trivial
    · simp only [Function.update_of_ne hb]
      constructor
      · intro hlive
        cases (hs.live_iff b).mp hlive
      · intro heq
        exact absurd (Option.some.inj heq).symm hb
  · intro b hb
    cases hb
    exact Nat.lt_succ_self _

theorem deref_malloc : (h.malloc a).deref (some h.next) = some a := Function.update_self ..

theorem Sole.fill (hs : Sole h (some b)) (a : α) : Sole (h.fill b a) (some b) := by
  constructor
  · intro c
    unfold Heap.fill
    by_cases hc : c = b
    · subst hc
      simp only [Function.update_self]
      exact iff_of_true (Option.some_ne_none a) trivial
    · simp only [Function.update_of_ne hc]
      exact hs.live_iff c
  · exact hs.lt_next

theorem deref_fill : (h.fill b a).deref (some b) = some a := Function.update_self ..

/-- The one block can be freed. -/
theorem Sole.free (hs : Sole h p) : ∃ h', h.free p = some h' ∧ Sole h' none ∧ h'.next = h.next := by
  cases p with
  | none => exact ⟨h, rfl, hs, rfl⟩
  | some b =>
    obtain ⟨a, ha⟩ := hs.deref_some (Option.some_ne_none b)
    have ha : h.block b = some a := ha
    refine ⟨⟨Function.update h.block b none, h.next⟩, ?_, ?_, rfl⟩
    · unfold Heap.free
      simp only [ha, Option.map_some]
    · constructor
      · intro c
        by_cases hc : c = b
        · subst hc
          simp only [Function.update_self]
          exact iff_of_false (fun hne => hne rfl) (fun heq => by cases heq)
        · simp only [Function.update_of_ne hc]
          rw [hs.live_iff c]
          constructor
          · intro heq
            exact absurd (Option.some.inj heq).symm hc
          · intro heq
            cases heq
      · intro c hc
        cases hc

/-- Without a block, only `NULL` can be freed. -/
theorem Sole.free_none (hs : Sole h none) : h.free q = if q = none then some h else none := by
  cases q with
  | none => rfl
  | some b =>
    have hb : h.block b = none := hs.deref_ne (q := some b) (.inr (Option.some_ne_none b))
    unfold Heap.free
    simp only [hb, Option.map_none, reduceCtorEq, if_false]

end MyLibraries.Alloc
