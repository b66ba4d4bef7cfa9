import MyLibraries.Server.Model

/-!
# How long the accept loop goes on

`continue` in a `do … while` goes to the condition, not to the top of the loop, so a failed
`accept` ends the loop through the `-1` in `clientfd`, and a failed allocation in the first
pass reads `clientfd` before it is set.
-/

namespace MyLibraries.Server

open Run

/-- The listening socket has been closed, or the installed error callback has answered
something else than `0`. -/
def Outcome.Ends (error : Bool) : Outcome → Prop
  | .noMemory answer => error = true ∧ answer ≠ 0
  | .acceptFails _ answer stopped => stopped = true ∨ (error = true ∧ answer ≠ 0)
  | .accepted _ _ => False

instance (error : Bool) : (o : Outcome) → Decidable (o.Ends error)
  | .noMemory _ => inferInstanceAs (Decidable (_ ∧ _))
  | .acceptFails _ _ _ => inferInstanceAs (Decidable (_ ∨ _))
  | .accepted _ _ => inferInstanceAs (Decidable False)

/-- The loop goes on after every number of passes, as long as nothing ends it. The first
pass finds `g` in `clientfd`. -/
def KeepsAccepting (error : Bool) (socket g : Int) (os : List Outcome) : Prop :=
  ∀ pre, pre <+: os → (∀ o ∈ pre, ¬ o.Ends error) →
    ∃ clientfd, (exec (pass error socket) (.looping g) pre).2 = .looping clientfd

/-- A client is served, or the allocation fails. -/
def Outcome.Harmless : Outcome → Prop
  | .noMemory _ => True
  | .acceptFails _ _ _ => False
  | .accepted clientfd listFull => 0 < clientfd ∧ listFull = false

/-- The passes up to the one that may end the loop. -/
def undisturbed (error : Bool) (os : List Outcome) : List Outcome :=
  os.takeWhile fun o => ¬ o.Ends error

/-- No `accept` fails, no client comes when the list is full or as descriptor `0`, and the
allocation does not fail in the first pass, unless `clientfd` is positive by chance. -/
structure Undisturbed (error : Bool) (socket g : Int) (os : List Outcome) : Prop where
  socket_pos : undisturbed error os ≠ [] → 0 < socket
  harmless : ∀ o ∈ undisturbed error os, o.Harmless
  first : ∀ answer, (undisturbed error os).head? = some (.noMemory answer) → 0 < g

variable {error : Bool} {socket g clientfd : Int} {o : Outcome} {os : List Outcome} {l : Loop}

/-! ## One pass -/

theorem whileCondition_eq : (whileCondition socket clientfd).2 = .looping g ↔
    clientfd = g ∧ 0 < clientfd ∧ 0 < socket := by
  unfold whileCondition
  split
  · rename_i h
    constructor
    · intro heq
      cases heq
      exact ⟨rfl, h⟩
    · rintro ⟨rfl, -⟩
      rfl
  · rename_i h
    constructor
    · intro heq
      cases heq
    · rintro ⟨-, hpos⟩
      exact absurd hpos h

theorem reportOrLeave_eq {str : String} {err answer : Int} (h : ¬ (error = true ∧ answer ≠ 0)) :
    (reportOrLeave error socket str err answer clientfd).2 =
      (whileCondition socket clientfd).2 := by
  unfold reportOrLeave
  split
  · rename_i he
    rw [if_neg fun ha => h ⟨he, ha⟩]
  · rfl

/-- What a pass leaves in `clientfd`. -/
def Outcome.fdAfter (g : Int) : Outcome → Int
  | .noMemory _ => g
  | .acceptFails _ _ _ => -1
  | .accepted fd _ => fd

/-- What a pass that nothing ends takes for the loop to go on. -/
theorem pass_eq_looping (ho : ¬ o.Ends error) :
    (pass error socket (.looping g) o).2 = .looping clientfd ↔
      0 < socket ∧ o.Harmless ∧ 0 < clientfd ∧ o.fdAfter g = clientfd := by
  cases o with
  | noMemory answer =>
    have h : (pass error socket (.looping g) (.noMemory answer)).2 = (whileCondition socket g).2 :=
      reportOrLeave_eq ho
    rw [h, whileCondition_eq]
    simp only [Outcome.Harmless, Outcome.fdAfter, true_and]
    constructor
    · rintro ⟨rfl, hg, hs⟩
      exact ⟨hs, hg, rfl⟩
    · rintro ⟨hs, hg, rfl⟩
      exact ⟨rfl, hg, hs⟩
  | acceptFails errno answer stopped =>
    have h : (pass error socket (.looping g) (.acceptFails errno answer stopped)).2 =
        (whileCondition socket (-1)).2 := reportOrLeave_eq fun he => ho (.inr he)
    rw [h, whileCondition_eq]
    simp only [Outcome.Harmless, false_and, and_false, iff_false]
    rintro ⟨-, hneg, -⟩
    omega
  | accepted fd listFull =>
    cases listFull with
    | true =>
      simp only [pass, if_true, Outcome.Harmless]
      constructor
      · intro h
        cases h
      · rintro ⟨-, ⟨-, h⟩, -⟩
        cases h
    | false =>
      have h : (pass error socket (.looping g) (.accepted fd false)).2 =
          (whileCondition socket fd).2 := rfl
      rw [h, whileCondition_eq]
      simp only [Outcome.Harmless, Outcome.fdAfter, and_true]
      constructor
      · rintro ⟨rfl, hfd, hs⟩
        exact ⟨hs, by omega, hfd, rfl⟩
      · rintro ⟨hs, hfd, -, rfl⟩
        exact ⟨rfl, by omega, hs⟩

/-! ## All passes -/

theorem keepsAccepting_nil : KeepsAccepting error socket g [] := by
  intro pre hpre _
  rw [List.prefix_nil.mp hpre]
  exact ⟨g, rfl⟩

theorem keepsAccepting_cons : KeepsAccepting error socket g (o :: os) ↔
    o.Ends error ∨ ∃ g', (pass error socket (.looping g) o).2 = .looping g' ∧
      KeepsAccepting error socket g' os := by
  constructor
  · intro h
    by_cases ho : o.Ends error
    · exact .inl ho
    · obtain ⟨g', hg'⟩ := h [o] (List.prefix_append [o] os) (by simpa using ho)
      refine .inr ⟨g', hg', fun pre hpre hends => ?_⟩
      obtain ⟨fd, hfd⟩ := h (o :: pre) ((List.prefix_cons_inj o).mpr hpre)
        (List.forall_mem_cons.mpr ⟨ho, hends⟩)
      rw [exec_cons] at hfd
      rw [exec_cons] at hg'
      have hstep : (pass error socket (.looping g) o).2 = .looping g' := hg'
      rw [hstep] at hfd
      exact ⟨fd, hfd⟩
  · intro h pre hpre hends
    cases pre with
    | nil => exact ⟨g, rfl⟩
    | cons o' pre =>
      obtain ⟨rfl, hpre'⟩ := List.cons_prefix_cons.mp hpre
      obtain ⟨ho, hends'⟩ := List.forall_mem_cons.mp hends
      obtain ⟨g', hstep, hkeeps⟩ := h.resolve_left ho
      obtain ⟨fd, hfd⟩ := hkeeps pre hpre' hends'
      refine ⟨fd, ?_⟩
      rw [exec_cons, hstep]
      exact hfd

theorem undisturbed_cons_of_ends (h : o.Ends error) : undisturbed error (o :: os) = [] := by
  unfold undisturbed
  rw [List.takeWhile_cons_of_neg (by simpa using h)]

theorem undisturbed_cons_of_not_ends (h : ¬ o.Ends error) :
    undisturbed error (o :: os) = o :: undisturbed error os := by
  unfold undisturbed
  rw [List.takeWhile_cons_of_pos (by simpa using h)]

theorem undisturbed_of_empty (h : undisturbed error os = []) : Undisturbed error socket g os := by
  constructor
  · exact fun hne => absurd h hne
  · intro o ho
    rw [h] at ho
    cases ho
  · intro answer hhead
    rw [h] at hhead
    cases hhead

/-- A condition on the first pass and one on the others, which find a positive `clientfd`
when the first one has set it. -/
theorem undisturbed_cons (ho : ¬ o.Ends error) : Undisturbed error socket g (o :: os) ↔
    0 < socket ∧ o.Harmless ∧ 0 < o.fdAfter g ∧
      Undisturbed error socket (o.fdAfter g) os := by
  have hcons : undisturbed error (o :: os) = o :: undisturbed error os :=
    undisturbed_cons_of_not_ends ho
  constructor
  · rintro ⟨hsocket, hharmless, hfirst⟩
    rw [hcons] at hsocket hharmless hfirst
    obtain ⟨hhead, htail⟩ := List.forall_mem_cons.mp hharmless
    have hpos : 0 < o.fdAfter g := by
      cases o with
      | noMemory answer => exact hfirst answer rfl
      | acceptFails errno answer stopped => exact absurd hhead id
      | accepted fd listFull => exact Int.natCast_pos.mpr hhead.1
    exact ⟨hsocket (List.cons_ne_nil _ _), hhead, hpos,
      fun _ => hsocket (List.cons_ne_nil _ _), htail, fun _ _ => hpos⟩
  · rintro ⟨hsocket, hhead, hpos, htail⟩
    constructor
    · exact fun _ => hsocket
    · rw [hcons]
      exact List.forall_mem_cons.mpr ⟨hhead, htail.harmless⟩
    · intro answer heq
      rw [hcons] at heq
      cases heq
      exact hpos

/-- **When the accept loop goes on.** The loop survives every sequence of passes up to one
that may end it exactly when these passes are undisturbed. -/
theorem keeps_accepting_iff (error : Bool) (socket g : Int) (os : List Outcome) :
    KeepsAccepting error socket g os ↔ Undisturbed error socket g os := by
  induction os generalizing g with
  | nil =>
    exact ⟨fun _ => undisturbed_of_empty rfl, fun _ => keepsAccepting_nil⟩
  | cons o os ih =>
    rw [keepsAccepting_cons]
    by_cases ho : o.Ends error
    · exact ⟨fun _ => undisturbed_of_empty (undisturbed_cons_of_ends ho), fun _ => .inl ho⟩
    · rw [undisturbed_cons ho]
      constructor
      · intro h
        obtain ⟨g', hstep, hkeeps⟩ := h.resolve_left ho
        obtain ⟨hsocket, hharmless, hpos, rfl⟩ := (pass_eq_looping ho).mp hstep
        exact ⟨hsocket, hharmless, hpos, (ih _).mp hkeeps⟩
      · rintro ⟨hsocket, hharmless, hpos, hrest⟩
        exact .inr ⟨_, (pass_eq_looping ho).mpr ⟨hsocket, hharmless, hpos, rfl⟩, (ih _).mpr hrest⟩

/-- A failed `accept` that is reported to a callback which answers `0`. -/
theorem failed_accept_ends_loop : ¬ ∀ error socket g os, KeepsAccepting error socket g os := by
  intro h
  have hpass := h true 3 0 [.accepted 5 false, .acceptFails 24 0 false] _ (List.prefix_refl _)
    (by decide)
  obtain ⟨clientfd, hfd⟩ := hpass
  cases hfd

end MyLibraries.Server
