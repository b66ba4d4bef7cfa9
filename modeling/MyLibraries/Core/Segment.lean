import MyLibraries.Core.Run

/-!
# Traces made of segments

A machine stays in a place for a while and leaves it for another one; the trace of such a
stay is a segment. `Segments` are complete segments one after the other. `run_segments`
is the run form of a step that either goes on with the open segment or completes it: the
trace of a run is complete segments and then an open one.

`Guarded R t` says of every element of a trace what came before it; it is found segment
by segment when `R` looks back only so far (`Guarded.append`).
-/

namespace MyLibraries.Segment

open Run

variable {σ ι ρ η κ : Type} {Seg : η → List κ → η → Prop} {h h' : η} {t u : List κ}

/-- Complete segments one after the other. -/
inductive Segments (Seg : η → List κ → η → Prop) : η → List κ → η → Prop
  | nil (h : η) : Segments Seg h [] h
  | cons {h h' h'' : η} {u t : List κ} : Seg h u h' → Segments Seg h' t h'' →
      Segments Seg h (u ++ t) h''

/-- `R` holds of every element and of what stands before it. -/
def Guarded (R : List κ → κ → Prop) (t : List κ) : Prop :=
  ∀ pre c post, t = pre ++ c :: post → R pre c

/-- `R` of an element does not depend on how far back the trace goes. -/
def LooksBack (R : List κ → κ → Prop) : Prop :=
  ∀ before pre c, R pre c → R (before ++ pre) c

/-- **The run rule.** `Open s u` says that the machine is in the state `s` of a stay whose
trace so far is `u`. -/
theorem run_segments {step : σ → ι → Option (ρ × σ)} (trace : ρ → List κ) (place : σ → η)
    (Open : σ → List κ → Prop) (Good : ρ → Prop)
    (hstep : ∀ s u i, Open s u → ∃ r s', step s i = some (r, s') ∧ Good r ∧
      ((place s' = place s ∧ Open s' (u ++ trace r)) ∨
        (Seg (place s) (u ++ trace r) (place s') ∧ Open s' [])))
    {s : σ} (hopen : Open s u) (is : List ι) :
    ∃ rs s' t u', run step s is = some (rs, s') ∧ (∀ r ∈ rs, Good r) ∧
      u ++ rs.flatMap trace = t ++ u' ∧ Segments Seg (place s) t (place s') ∧ Open s' u' := by
  induction is generalizing s u with
  | nil => exact ⟨[], s, [], u, rfl, by simp, by simp, Segments.nil _, hopen⟩
  | cons i is ih =>
    obtain ⟨r, s₁, hs₁, hgood, hnext⟩ := hstep s u i hopen
    have hrun : ∀ rs s', run step s₁ is = some (rs, s') →
        run step s (i :: is) = some (r :: rs, s') := by
      intro rs s' h
      rw [run_cons, hs₁, Option.bind_some, h, Option.bind_some]
    have hall : ∀ rs, (∀ x ∈ rs, Good x) → ∀ x ∈ r :: rs, Good x := by
      intro rs hrs x hx
      rcases List.mem_cons.mp hx with rfl | hx
      · exact hgood
      · exact hrs x hx
    rcases hnext with ⟨hplace, hopen₁⟩ | ⟨hseg, hopen₁⟩
    · obtain ⟨rs, s', t, u', hrs, hg, htrace, hsegs, hopen'⟩ := ih hopen₁
      refine ⟨r :: rs, s', t, u', hrun rs s' hrs, hall rs hg, ?_, hplace ▸ hsegs, hopen'⟩
      rw [List.flatMap_cons, ← List.append_assoc]
      exact htrace
    · obtain ⟨rs, s', t, u', hrs, hg, htrace, hsegs, hopen'⟩ := ih hopen₁
      refine ⟨r :: rs, s', (u ++ trace r) ++ t, u', hrun rs s' hrs, hall rs hg, ?_,
        Segments.cons hseg hsegs, hopen'⟩
      rw [List.nil_append] at htrace
      rw [List.flatMap_cons, htrace]
      simp only [List.append_assoc]

/-! ## What comes before -/

variable {R : List κ → κ → Prop}

theorem guarded_nil : Guarded R ([] : List κ) := by
  intro pre c post h
  simp at h

theorem Guarded.append (hR : LooksBack R) (ht : Guarded R t) (hu : Guarded R u) :
    Guarded R (t ++ u) := by
  intro pre c post h
  rcases List.append_eq_append_iff.mp h with ⟨before, rfl, hsuffix⟩ | ⟨after, rfl, hrest⟩
  · exact hR _ _ _ (hu _ _ _ hsuffix)
  · cases after with
    | nil =>
      have hlast := hR pre [] c (hu [] c post hrest.symm)
      rwa [List.append_nil] at hlast
    | cons x after =>
      obtain ⟨rfl, -⟩ := List.cons.inj hrest
      exact ht _ _ _ rfl

theorem Guarded.segments (hR : LooksBack R) (hseg : ∀ h u h', Seg h u h' → Guarded R u)
    (hs : Segments Seg h t h') : Guarded R t := by
  induction hs with
  | nil => exact guarded_nil
  | cons hfirst _ ih => exact (hseg _ _ _ hfirst).append hR ih

/-- One more element at the end. -/
theorem Guarded.snoc {c : κ} (ht : Guarded R t) (hc : R t c) : Guarded R (t ++ [c]) := by
  intro pre d post h
  rcases List.append_eq_append_iff.mp h with ⟨before, rfl, hsuffix⟩ | ⟨after, rfl, hrest⟩
  · cases before with
    | nil =>
      obtain ⟨rfl, -⟩ := List.cons.inj hsuffix
      simpa using hc
    | cons x before => simp at hsuffix
  · cases after with
    | nil =>
      obtain ⟨rfl, -⟩ := List.cons.inj hrest
      simpa using hc
    | cons x after =>
      obtain ⟨rfl, -⟩ := List.cons.inj hrest
      exact ht _ _ _ rfl

end MyLibraries.Segment
