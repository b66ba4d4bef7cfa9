import Mathlib.Data.List.Basic
import MyLibraries.Core.Descriptors

/-!
# Lists of connections

A server that keeps the numbers of its connections in a list puts each number in after the
connection has come and takes it out before it closes the connection. As long as it does,
the list names open connections only, and whoever looks a number up in it reaches the
connection that the number was put in for.
-/

namespace MyLibraries.Descriptors

/-- `holds` are the open connections and their numbers, and `list` has the numbers of those
among them that `listed` says. -/
structure Roster (t : Table) (list : List Nat) (holds listed : Nat → Option Nat) : Prop where
  accounted : t.Accounted holds
  mem_iff : ∀ fd, fd ∈ list ↔ ∃ c, listed c = some fd
  nodup : list.Nodup
  holds_of_listed : ∀ {c fd}, listed c = some fd → holds c = some fd

namespace Roster

variable {t t' : Table} {list : List Nat} {holds listed : Nat → Option Nat} {c d fd : Nat}

theorem empty : Roster .empty [] (fun _ => none) fun _ => none := by
  constructor
  · exact Table.accounted_empty
  · intro fd
    constructor
    · intro h
      cases h
    · rintro ⟨c, h⟩
      cases h
  · exact List.nodup_nil
  · intro c fd h
    cases h

/-- The numbers in the list are open. -/
theorem owner_of_mem (h : Roster t list holds listed) (hfd : fd ∈ list) :
    ∃ c, listed c = some fd ∧ t.owner fd = some c := by
  obtain ⟨c, hc⟩ := (h.mem_iff fd).mp hfd
  exact ⟨c, hc, (h.accounted.holds_iff c fd).mp (h.holds_of_listed hc)⟩

theorem accept (h : Roster t list holds listed) (ha : t.accept fd = some (c, t')) :
    Roster t' list (Function.update holds c (some fd)) listed := by
  constructor
  · exact h.accounted.accept ha
  · exact h.mem_iff
  · exact h.nodup
  · intro d g hd
    have hdc : d ≠ c := by
      obtain ⟨-, hc, -⟩ := Table.accept_eq_some ha
      have hlt := h.accounted.lt (h.holds_of_listed hd)
      omega
    rw [Function.update_of_ne hdc]
    exact h.holds_of_listed hd

theorem insert (h : Roster t list holds listed) (hc : holds c = some fd)
    (hl : listed c = none) :
    Roster t (list.insert fd) holds (Function.update listed c (some fd)) := by
  constructor
  · exact h.accounted
  · intro g
    rw [List.mem_insert_iff, h.mem_iff]
    constructor
    · rintro (rfl | ⟨d, hd⟩)
      · exact ⟨c, Function.update_self ..⟩
      · have hdc : d ≠ c := fun heq => by rw [heq, hl] at hd; cases hd
        exact ⟨d, by rw [Function.update_of_ne hdc]; exact hd⟩
    · rintro ⟨d, hd⟩
      by_cases hdc : d = c
      · subst hdc
        rw [Function.update_self] at hd
        exact .inl (Option.some.inj hd).symm
      · rw [Function.update_of_ne hdc] at hd
        exact .inr ⟨d, hd⟩
  · exact h.nodup.insert
  · intro d g hd
    by_cases hdc : d = c
    · subst hdc
      rw [Function.update_self] at hd
      rw [← hd]
      exact hc
    · rw [Function.update_of_ne hdc] at hd
      exact h.holds_of_listed hd

theorem erase (h : Roster t list holds listed) (hl : listed c = some fd) :
    Roster t (list.erase fd) holds (Function.update listed c none) := by
  have hc := h.holds_of_listed hl
  constructor
  · exact h.accounted
  · intro g
    rw [h.nodup.mem_erase_iff, h.mem_iff]
    constructor
    · rintro ⟨hne, d, hd⟩
      have hdc : d ≠ c := fun heq => by
        rw [heq, hl] at hd
        exact hne (Option.some.inj hd).symm
      exact ⟨d, by rw [Function.update_of_ne hdc]; exact hd⟩
    · rintro ⟨d, hd⟩
      by_cases hdc : d = c
      · rw [hdc, Function.update_self] at hd
        cases hd
      · rw [Function.update_of_ne hdc] at hd
        refine ⟨fun heq => hdc ?_, d, hd⟩
        subst heq
        exact h.accounted.inj (h.holds_of_listed hd) hc
  · exact h.nodup.erase fd
  · intro d g hd
    by_cases hdc : d = c
    · rw [hdc, Function.update_self] at hd
      cases hd
    · rw [Function.update_of_ne hdc] at hd
      exact h.holds_of_listed hd

theorem close (h : Roster t list holds listed) (hc : holds c = some fd) (hl : listed c = none) :
    Roster (t.close fd [c]) list (Function.update holds c none) listed := by
  constructor
  · exact h.accounted.close hc
  · exact h.mem_iff
  · exact h.nodup
  · intro d g hd
    have hdc : d ≠ c := fun heq => by rw [heq, hl] at hd; cases hd
    rw [Function.update_of_ne hdc]
    exact h.holds_of_listed hd

end Roster

end MyLibraries.Descriptors
