import Mathlib.Data.List.Nodup
import Mathlib.Logic.Function.Basic

/-!
# Descriptor tables

A descriptor is a number that stands for a connection while it is open; once it is closed
the number may be handed out again. Connections are numbered in the order in which they
come, so that a connection keeps its identity while numbers are reused.

The table logs every close with the connections it is meant for and the connection it
hits. `Ok` is what holds of a table under any calls at all: every connection that has come
is either open, under one number, or has been hit by exactly one close.
-/

namespace MyLibraries.Descriptors

/-- A close of the number `fd`, meant for one of `intended`, that hits `hit`. -/
structure Close where
  fd : Nat
  intended : List Nat
  hit : Option Nat
  deriving DecidableEq, Repr

/-- The number is open and stands for a connection the close is meant for. -/
def Close.Proper (e : Close) : Prop := ∃ c ∈ e.intended, e.hit = some c

instance (e : Close) : Decidable e.Proper := inferInstanceAs (Decidable (∃ c ∈ e.intended, _))

/-- The connections that the open numbers stand for, the number of connections that have
come, and the closes so far. -/
structure Table where
  owner : Nat → Option Nat
  next : Nat
  closes : List Close

namespace Table

def empty : Table := ⟨fun _ => none, 0, []⟩

/-- The connections that have been closed. -/
def hits (t : Table) : List Nat := t.closes.filterMap Close.hit

/-- A new connection under a number that is not open. -/
def accept (t : Table) (fd : Nat) : Option (Nat × Table) :=
  if t.owner fd = none then
    some (t.next, { t with owner := Function.update t.owner fd (some t.next), next := t.next + 1 })
  else
    none

def close (t : Table) (fd : Nat) (intended : List Nat) : Table :=
  { t with
    owner := Function.update t.owner fd none
    closes := ⟨fd, intended, t.owner fd⟩ :: t.closes }

/-- The connection `c` has come and is still open. -/
def IsOpen (t : Table) (c : Nat) : Prop := ∃ fd, t.owner fd = some c

/-- The connection `c` has been closed once. -/
def ClosedOnce (t : Table) (c : Nat) : Prop := t.hits.count c = 1

instance (t : Table) (c : Nat) : Decidable (t.ClosedOnce c) :=
  inferInstanceAs (Decidable (t.hits.count c = 1))

/-- No close so far went wrong. -/
def AllProper (t : Table) : Prop := ∀ e ∈ t.closes, e.Proper

instance (t : Table) : Decidable t.AllProper := inferInstanceAs (Decidable (∀ e ∈ _, _))

structure Ok (t : Table) : Prop where
  unique : ∀ {fd fd' c}, t.owner fd = some c → t.owner fd' = some c → fd = fd'
  came_iff : ∀ c, c < t.next ↔ t.IsOpen c ∨ c ∈ t.hits
  not_hit : ∀ {fd c}, t.owner fd = some c → c ∉ t.hits
  nodup : t.hits.Nodup

variable {t t' : Table} {fd fd' c c' : Nat} {cs : List Nat}

theorem ok_empty : empty.Ok := by
  constructor
  · intro fd fd' c h
    cases h
  · intro c
    constructor
    · intro h
      exact absurd h (Nat.not_lt_zero c)
    · rintro (⟨fd, h⟩ | h)
      · cases h
      · cases h
  · intro fd c h
    cases h
  · exact List.nodup_nil

/-! ## A connection comes -/

theorem accept_eq_some (h : t.accept fd = some (c, t')) :
    t.owner fd = none ∧ c = t.next ∧
      t' = { t with owner := Function.update t.owner fd (some t.next), next := t.next + 1 } := by
  unfold accept at h
  split at h
  · rename_i hfree
    cases h
    exact ⟨hfree, rfl, rfl⟩
  · cases h

theorem owner_lt (hok : t.Ok) (h : t.owner fd = some c) : c < t.next :=
  (hok.came_iff c).mpr (.inl ⟨fd, h⟩)

theorem ok_accept (hok : t.Ok) (h : t.accept fd = some (c, t')) : t'.Ok := by
  obtain ⟨hfree, -, rfl⟩ := accept_eq_some h
  have hnew : ∀ {g d}, Function.update t.owner fd (some t.next) g = some d →
      (g = fd ∧ d = t.next) ∨ (g ≠ fd ∧ t.owner g = some d) := by
    intro g d hg
    by_cases hfd : g = fd
    · subst hfd
      rw [Function.update_self] at hg
      exact .inl ⟨rfl, (Option.some.inj hg).symm⟩
    · rw [Function.update_of_ne hfd] at hg
      exact .inr ⟨hfd, hg⟩
  constructor
  · intro g g' d hg hg'
    rcases hnew hg with ⟨rfl, rfl⟩ | ⟨-, ho⟩ <;> rcases hnew hg' with ⟨rfl, hd⟩ | ⟨-, ho'⟩
    · rfl
    · exact absurd (owner_lt hok ho') (Nat.lt_irrefl _)
    · exact absurd (hd ▸ owner_lt hok ho) (Nat.lt_irrefl _)
    · exact hok.unique ho ho'
  · intro d
    constructor
    · intro hd
      by_cases hnext : d = t.next
      · exact .inl ⟨fd, by rw [hnext]; exact Function.update_self ..⟩
      · have hlt : d < t.next := by
          show d < t.next
          have : d < t.next + 1 := hd
          omega
        rcases (hok.came_iff d).mp hlt with ⟨g, hg⟩ | hhit
        · have hne : g ≠ fd := fun heq => by rw [heq, hfree] at hg; cases hg
          exact .inl ⟨g, by rw [← hg]; exact Function.update_of_ne hne ..⟩
        · exact .inr hhit
    · intro hd
      show d < t.next + 1
      rcases hd with ⟨g, hg⟩ | hhit
      · rcases hnew hg with ⟨-, rfl⟩ | ⟨-, ho⟩
        · exact Nat.lt_succ_self _
        · exact Nat.lt_succ_of_lt (owner_lt hok ho)
      · exact Nat.lt_succ_of_lt ((hok.came_iff d).mpr (.inr hhit))
  · intro g d hg hhit
    rcases hnew hg with ⟨-, rfl⟩ | ⟨-, ho⟩
    · exact absurd ((hok.came_iff _).mpr (.inr hhit)) (Nat.lt_irrefl _)
    · exact hok.not_hit ho hhit
  · exact hok.nodup

/-! ## A number is closed -/

theorem close_owner_eq_some : (t.close fd cs).owner fd' = some c ↔
    fd' ≠ fd ∧ t.owner fd' = some c := by
  show Function.update t.owner fd none fd' = some c ↔ _
  by_cases h : fd' = fd
  · subst h
    simp
  · rw [Function.update_of_ne h]
    simp [h]

theorem hits_close : (t.close fd cs).hits = (t.owner fd).toList ++ t.hits := by
  show (_ :: t.closes).filterMap Close.hit = _
  cases h : t.owner fd with
  | none => rfl
  | some c => rfl

theorem ok_close (hok : t.Ok) (fd : Nat) (cs : List Nat) : (t.close fd cs).Ok := by
  constructor
  · intro g g' d hg hg'
    exact hok.unique (close_owner_eq_some.mp hg).2 (close_owner_eq_some.mp hg').2
  · intro d
    show d < t.next ↔ _
    rw [hok.came_iff, hits_close, List.mem_append, Option.mem_toList]
    constructor
    · rintro (⟨g, hg⟩ | hhit)
      · by_cases hfd : g = fd
        · exact .inr (.inl (hfd ▸ hg))
        · exact .inl ⟨g, close_owner_eq_some.mpr ⟨hfd, hg⟩⟩
      · exact .inr (.inr hhit)
    · rintro (⟨g, hg⟩ | hnow | hhit)
      · exact .inl ⟨g, (close_owner_eq_some.mp hg).2⟩
      · exact .inl ⟨fd, hnow⟩
      · exact .inr hhit
  · intro g d hg
    obtain ⟨hne, ho⟩ := close_owner_eq_some.mp hg
    rw [hits_close, List.mem_append, Option.mem_toList]
    rintro (hnow | hhit)
    · exact hne (hok.unique ho hnow)
    · exact hok.not_hit ho hhit
  · rw [hits_close]
    cases h : t.owner fd with
    | none => exact hok.nodup
    | some c => exact List.nodup_cons.mpr ⟨hok.not_hit h, hok.nodup⟩

theorem allProper_close (h : t.AllProper) (ho : t.owner fd = some c) :
    (t.close fd [c]).AllProper := by
  intro e he
  rcases List.mem_cons.mp he with rfl | he
  · exact ⟨c, List.mem_singleton_self c, ho⟩
  · exact h e he

theorem foldl_close_next (f : Nat → List Nat) (fds : List Nat) (t : Table) :
    (fds.foldl (fun t fd => t.close fd (f fd)) t).next = t.next := by
  induction fds generalizing t with
  | nil => rfl
  | cons fd fds ih => exact ih (t.close fd (f fd))

/-! ## The end -/

/-- A connection that came and is no longer open has been closed once. -/
theorem closedOnce_of_not_open (hok : t.Ok) (hc : c < t.next) (h : ¬ t.IsOpen c) :
    t.ClosedOnce c := by
  have hhit := ((hok.came_iff c).mp hc).resolve_left h
  exact List.count_eq_one_of_mem hok.nodup hhit

/-! ## Holders -/

/-- `holds` says which connections somebody still has to close, and under which number:
these are the connections that are open, and all closes so far were proper. -/
structure Accounted (t : Table) (holds : Nat → Option Nat) : Prop where
  ok : t.Ok
  holds_iff : ∀ c fd, holds c = some fd ↔ t.owner fd = some c
  proper : t.AllProper

variable {holds : Nat → Option Nat}

theorem accounted_empty : Accounted empty fun _ => none := by
  constructor
  · exact ok_empty
  · intro c fd
    exact ⟨fun h => (by cases h), fun h => (by cases h)⟩
  · intro e he
    cases he

theorem Accounted.lt (h : Accounted t holds) (hc : holds c = some fd) : c < t.next :=
  owner_lt h.ok ((h.holds_iff c fd).mp hc)

theorem Accounted.inj (h : Accounted t holds) (hc : holds c = some fd) (hc' : holds c' = some fd) :
    c = c' := by
  have ho := (h.holds_iff c fd).mp hc
  rw [(h.holds_iff c' fd).mp hc'] at ho
  exact (Option.some.inj ho).symm

/-- Who gets a new connection holds it. -/
theorem Accounted.accept (h : Accounted t holds) (ha : t.accept fd = some (c, t')) :
    Accounted t' (Function.update holds c (some fd)) := by
  have hok := ok_accept h.ok ha
  obtain ⟨hfree, rfl, rfl⟩ := accept_eq_some ha
  constructor
  · exact hok
  · intro d g
    show _ ↔ Function.update t.owner fd (some t.next) g = some d
    have hnext : ∀ g, holds t.next ≠ some g := fun g hg => Nat.lt_irrefl _ (h.lt hg)
    by_cases hd : d = t.next <;> by_cases hg : g = fd
    · subst hd hg
      simp
    · subst hd
      rw [Function.update_self, Function.update_of_ne hg, ← h.holds_iff]
      simp [Ne.symm hg, hnext]
    · subst hg
      rw [Function.update_self, Function.update_of_ne hd, h.holds_iff, hfree]
      simp [Ne.symm hd]
    · rw [Function.update_of_ne hd, Function.update_of_ne hg, h.holds_iff]
  · exact h.proper

/-- Who holds a connection may close it. -/
theorem Accounted.close (h : Accounted t holds) (hc : holds c = some fd) :
    Accounted (t.close fd [c]) (Function.update holds c none) := by
  have ho := (h.holds_iff c fd).mp hc
  constructor
  · exact ok_close h.ok fd [c]
  · intro d g
    rw [close_owner_eq_some, ← h.holds_iff]
    by_cases hd : d = c
    · subst hd
      rw [Function.update_self, hc]
      simp [eq_comm]
    · rw [Function.update_of_ne hd]
      constructor
      · intro hg
        refine ⟨fun heq => hd ?_, hg⟩
        subst heq
        exact h.inj hg hc
      · exact And.right
  · exact allProper_close h.proper ho

/-- When nobody holds a connection any more, each has been closed once. -/
theorem Accounted.closedOnce (h : Accounted t holds) (hc : c < t.next) (hn : holds c = none) :
    t.ClosedOnce c := by
  refine closedOnce_of_not_open h.ok hc ?_
  rintro ⟨fd, ho⟩
  rw [(h.holds_iff c fd).mpr ho] at hn
  cases hn

end Table

/-! ## Views of a set of threads -/

section View

variable {η : Type}

/-- What is to be said of the connection `c`: its handler says it, if there is one, and
otherwise the accept thread. -/
def view (handlers : Nat → Option η) (f : η → Option Nat) (g : Nat → Option Nat) (c : Nat) :
    Option Nat :=
  match handlers c with
  | some h => f h
  | none => g c

variable {handlers : Nat → Option η} {f : η → Option Nat} {g g' : Nat → Option Nat} {c : Nat}
  {h : η} {x : Option Nat}

theorem view_of_handler (hc : handlers c = some h) : view handlers f g c = f h := by
  unfold view
  rw [hc]

theorem view_of_accept (hc : handlers c = none) : view handlers f g c = g c := by
  unfold view
  rw [hc]

/-- A handler comes or goes on, and the accept thread keeps what else it has. -/
theorem view_update (c : Nat) (h : η) (hg : ∀ d, d ≠ c → g' d = g d) :
    view (Function.update handlers c (some h)) f g' =
      Function.update (view handlers f g) c (f h) := by
  funext d
  by_cases hd : d = c
  · subst hd
    rw [view_of_handler (Function.update_self ..), Function.update_self]
  · unfold view
    rw [Function.update_of_ne hd, Function.update_of_ne hd, hg d hd]

/-- A handler comes or goes on without a change of the view. -/
theorem view_update_same (c : Nat) (h : η) (hg : ∀ d, d ≠ c → g' d = g d)
    (hc : view handlers f g c = f h) :
    view (Function.update handlers c (some h)) f g' = view handlers f g := by
  rw [view_update c h hg]
  exact Function.update_eq_self_iff.mpr hc.symm

/-- The accept thread takes a connection or lets it go, and keeps what else it has. -/
theorem view_accept (hc : handlers c = none) (hx : g' c = x) (hg : ∀ d, d ≠ c → g' d = g d) :
    view handlers f g' = Function.update (view handlers f g) c x := by
  funext d
  by_cases hd : d = c
  · subst hd
    rw [view_of_accept hc, Function.update_self, hx]
  · unfold view
    rw [Function.update_of_ne hd, hg d hd]

end View

/-! ## The numbers that a view names -/

/-- The numbers that `f` gives the first `n` connections, with repetitions. -/
def listing (n : Nat) (f : Nat → Option Nat) : List Nat := (List.range n).filterMap f

variable {n c fd : Nat} {f : Nat → Option Nat}

theorem mem_listing : fd ∈ listing n f ↔ ∃ c < n, f c = some fd := by
  simp only [listing, List.mem_filterMap, List.mem_range]

/-- A new connection without a number. -/
theorem listing_succ (hf : f n = none) : listing (n + 1) f = listing n f := by
  unfold listing
  rw [List.range_succ, List.filterMap_append, List.filterMap_cons_none hf, List.filterMap_nil,
    List.append_nil]

private theorem filterMap_update_perm {l : List Nat} (hl : l.Nodup) (hc : c ∈ l) (hf : f c = none) :
    (l.filterMap (Function.update f c (some fd))).Perm (fd :: l.filterMap f) := by
  induction l with
  | nil => cases hc
  | cons d l ih =>
    obtain ⟨hd, hl'⟩ := List.nodup_cons.mp hl
    by_cases hcd : d = c
    · subst hcd
      have hrest : l.filterMap (Function.update f d (some fd)) = l.filterMap f := by
        refine List.filterMap_congr fun e he => Function.update_of_ne (fun heq => ?_) ..
        rw [heq] at he
        exact hd he
      rw [List.filterMap_cons_some (Function.update_self ..), hrest, List.filterMap_cons_none hf]
    · have hcl : c ∈ l := (List.mem_cons.mp hc).resolve_left (Ne.symm hcd)
      have hsame : Function.update f c (some fd) d = f d := Function.update_of_ne hcd ..
      cases hfd : f d with
      | none =>
        rw [hfd] at hsame
        rw [List.filterMap_cons_none hsame, List.filterMap_cons_none hfd]
        exact ih hl' hcl
      | some g =>
        rw [hfd] at hsame
        rw [List.filterMap_cons_some hsame, List.filterMap_cons_some hfd]
        exact ((ih hl' hcl).cons g).trans (List.Perm.swap ..)

/-- A connection gets a number. -/
theorem listing_insert (hc : c < n) (hf : f c = none) :
    (listing n (Function.update f c (some fd))).Perm (fd :: listing n f) :=
  filterMap_update_perm List.nodup_range (List.mem_range.mpr hc) hf

/-- A connection loses its number. -/
theorem listing_remove (hc : c < n) (hf : f c = some fd) :
    (listing n f).Perm (fd :: listing n (Function.update f c none)) := by
  have h : (listing n (Function.update (Function.update f c none) c (some fd))).Perm
      (fd :: listing n (Function.update f c none)) := listing_insert hc (Function.update_self ..)
  rwa [Function.update_idem, Function.update_eq_self_iff.mpr hf.symm] at h

end MyLibraries.Descriptors
